import Egos.Proofs.FatdiskChains

/-! Before the first truncation every inode of a zero-filled store is an array of
blocks of its own. What an inode holds is computed from its own calls only, and the
code answers every call on it with that. -/

namespace Egos.Fatdisk
open Library Disk

def Call.inodeNo : Call → UInt32
  | .write inode _ _ | .read inode _ | .nblocks inode | .setsize inode _ => inode

def ownCalls (inode : UInt32) (calls : List Call) : List Call := calls.filter fun call => call.inodeNo == inode

/-- One more than the largest offset written, or 0. -/
def extent (history : List Call) : Nat :=
  history.foldl (fun size call => match call with | .write _ offset _ => max size (offset.toNat + 1) | _ => size) 0

def lastWritten (offset : BlockNo) (history : List Call) : Option Block :=
  history.foldl (fun seen call => match call with
    | .write _ position block => if position = offset then some block else seen
    | _ => seen) none

/-- What a read finds: a gap that a larger write filled in holds zeros. -/
def contents (offset : BlockNo) (history : List Call) : Block := (lastWritten offset history).getD nullBlock

/-- Calls other than truncations, with offsets for which the `int` arithmetic is exact. -/
def Call.Lengthens : Call → Prop
  | .write _ offset _ => offset.toNat < 2 ^ 31 - 1
  | .setsize _ _ => False
  | _ => True

theorem ownCalls_snoc (inode : UInt32) (calls : List Call) (call : Call) :
    ownCalls inode (calls ++ [call]) = if call.inodeNo = inode then ownCalls inode calls ++ [call]
        else ownCalls inode calls := by
  rw [ownCalls, List.filter_append]
  by_cases own : call.inodeNo = inode <;> simp [own, ownCalls]

theorem extent_write (history : List Call) (inode : UInt32) (offset : BlockNo) (block : Block) :
    extent (history ++ [.write inode offset block]) = max (extent history) (offset.toNat + 1) := by
  rw [extent, List.foldl_append]
  rfl

theorem lastWritten_write (history : List Call) (inode : UInt32) (offset position : BlockNo) (block : Block) :
    lastWritten offset (history ++ [.write inode position block]) =
      if position = offset then some block else lastWritten offset history := by
  rw [lastWritten, List.foldl_append]
  rfl

theorem extent_idle (history : List Call) {call : Call}
    (idle : ∀ inode offset block, call ≠ .write inode offset block) :
    extent (history ++ [call]) = extent history := by
  rw [extent, List.foldl_append]
  cases call with
  | write inode offset block => exact absurd rfl (idle inode offset block)
  | read | nblocks | setsize => rfl

theorem lastWritten_idle (offset : BlockNo) (history : List Call) {call : Call}
    (idle : ∀ inode position block, call ≠ .write inode position block) :
    lastWritten offset (history ++ [call]) = lastWritten offset history := by
  rw [lastWritten, List.foldl_append]
  cases call with
  | write inode position block => exact absurd rfl (idle inode position block)
  | read | nblocks | setsize => rfl

/-- Nothing was written past the end. -/
theorem lastWritten_past (offset : BlockNo) (history : List Call) (past : extent history ≤ offset.toNat) :
    lastWritten offset history = none := by
  induction history using List.reverseRecOn with
  | nil => rfl
  | append_singleton history call ih =>
    cases call with
    | write inode position block =>
      rw [extent_write] at past
      rw [lastWritten_write, if_neg (by rintro rfl; omega), ih (by omega)]
    | read | nblocks | setsize =>
      rw [extent_idle _ (by simp)] at past
      rw [lastWritten_idle _ _ (by simp), ih past]

/-- A volume that holds what the calls made so far left in each inode. -/
structure Files (g : Geometry) (calls : List Call) (v : Volume) (state : State) : Prop where
  tidy : Tidy g v state
  fresh : v.Fresh g
  size : ∀ inode : UInt32, inode.toNat < g.inodes → v.nblocks inode.toNat = extent (ownCalls inode calls)
  stored : ∀ inode offset : UInt32, inode.toNat < g.inodes → offset.toNat < v.nblocks inode.toNat →
    v.data (v.next^[offset.toNat] (v.head inode.toNat)) = contents offset (ownCalls inode calls)
  blank : ∀ entry, v.free ≤ entry → entry < g.usable → v.data entry = nullBlock

namespace Files
variable {g : Geometry} {calls : List Call} {v : Volume} {state : State}

/-- Entries of files lie before the free pointer, and their blocks in the store. -/
theorem inside (files : Files g calls v state) {inode offset : Nat} (below : offset < v.nblocks inode) :
    g.dataPos (v.next^[offset] (v.head inode)) < g.size := by
  obtain ⟨small, taken⟩ := files.tidy.kept.used inode _ (step_mem_nodes below)
  have behind : v.next^[offset] (v.head inode) < v.free := by
    by_contra beyond
    exact taken ((files.fresh _ (Nat.lt_of_lt_of_le small g.covered)).mpr ⟨by omega, small⟩)
  have := g.within
  have := files.tidy.kept.inside
  unfold Geometry.dataPos; omega

theorem read (files : Files g calls v state) {inode : UInt32} (known : inode.toNat < g.inodes) (offset : BlockNo) :
    fatdiskRead inode offset state =
      .done (if offset.toNat < extent (ownCalls inode calls) then some (contents offset (ownCalls inode calls))
          else none) state := by
  rw [← files.size inode known]
  by_cases below : offset.toNat < v.nblocks inode.toNat
  · rw [files.tidy.read known below, if_pos (files.inside below), if_pos below, files.stored inode offset known below]
  · rw [fatdiskRead_past files.tidy.held known (Nat.not_lt.mp below), if_neg below]

theorem nblocks (files : Files g calls v state) {inode : UInt32} (known : inode.toNat < g.inodes) :
    fatdiskNblocks inode state = .done (extent (ownCalls inode calls)) state := by
  rw [fatdiskNblocks_run files.tidy.held known (files.tidy.small _), files.size inode known]

/-- A write that returns stores the block, and the gap before it reads as zeros. -/
theorem write (files : Files g calls v state) {inode : UInt32} (known : inode.toNat < g.inodes) {offset : BlockNo}
    (small : offset.toNat < 2 ^ 31 - 1) {block : Block} {result : Int} {after : State}
    (returned : fatdiskWrite inode offset block state = .done result after) :
    result = 0 ∧ ∃ w, Files g (calls ++ [.write inode offset block]) w after := by
  by_cases room : v.free + (offset.toNat + 1 - v.nblocks inode.toNat) < g.usable
  · obtain ⟨w, after', wrote, tidy, fresh, _, free, sizes, data, lists⟩ :=
      files.tidy.write_fresh files.fresh known small block room
    rw [returned] at wrote
    cases wrote
    have earlier : ∀ other step, step < v.nblocks other →
        w.next^[step] (w.head other) = v.next^[step] (v.head other) := by
      intro other step below
      have longer : step < w.nblocks other := by
        rw [sizes, Function.update_apply]
        split
        next same => subst same; omega
        next => exact below
      have reached := @nodes_getElem? _ _ w.next w.head w.nblocks other step longer
      have before := @nodes_getElem? _ _ v.next v.head v.nblocks other step below
      rw [lists] at reached
      by_cases same : other = inode.toNat
      · rw [same] at reached before below ⊢
        rw [Function.update_self, List.getElem?_append_left (by rwa [length_nodes]), before] at reached
        exact (Option.some.inj reached).symm
      · rw [Function.update_of_ne same, before] at reached
        exact (Option.some.inj reached).symm
    have later : ∀ step, v.nblocks inode.toNat ≤ step → step < w.nblocks inode.toNat →
        v.free ≤ w.next^[step] (w.head inode.toNat) := by
      intro step past below
      have reached := @nodes_getElem? _ _ w.next w.head w.nblocks inode.toNat step below
      rw [lists, Function.update_self, List.getElem?_append_right (by rwa [length_nodes])] at reached
      exact (List.mem_range'_1.mp (List.mem_of_getElem? reached)).1
    have own : ownCalls inode (calls ++ [.write inode offset block]) =
        ownCalls inode calls ++ [.write inode offset block] := by
      rw [ownCalls_snoc]; exact if_pos rfl
    have others : ∀ other, other ≠ inode →
        ownCalls other (calls ++ [.write inode offset block]) = ownCalls other calls := by
      intro other different
      rw [ownCalls_snoc]; exact if_neg (Ne.symm different)
    have reached : offset.toNat < w.nblocks inode.toNat := by rw [sizes, Function.update_self]; omega
    refine ⟨rfl, w, tidy, fresh, ?_, ?_, ?_⟩
    · intro other known'
      by_cases same : other = inode
      · rw [same, own, extent_write, sizes, Function.update_self, files.size inode known]
      · have different : other.toNat ≠ inode.toNat := mt UInt32.toNat_inj.mp same
        rw [others other same, sizes, Function.update_of_ne different, files.size other known']
    · intro other position known' below
      rw [data]
      by_cases same : other = inode
      · subst same
        rw [own, contents, lastWritten_write]
        by_cases here : offset = position
        · rw [← here, Function.update_self, if_pos rfl]; rfl
        · have apart : w.next^[position.toNat] (w.head other.toNat) ≠ w.next^[offset.toNat] (w.head other.toNat) :=
            fun equal => here (UInt32.toNat_inj.mp (tidy.kept.linked.step_injective below reached equal).symm)
          rw [Function.update_of_ne apart, if_neg here]
          by_cases old : position.toNat < v.nblocks other.toNat
          · rw [earlier _ _ old, files.stored other position known old, contents]
          · rw [files.blank _ (later _ (by omega) below) (tidy.kept.used other.toNat _ (step_mem_nodes below)).1,
              lastWritten_past _ _ (by rw [← files.size other known]; omega)]
            rfl
      · have different : other.toNat ≠ inode.toNat := mt UInt32.toNat_inj.mp same
        have old : position.toNat < v.nblocks other.toNat := by rwa [sizes, Function.update_of_ne different] at below
        have apart : w.next^[position.toNat] (w.head other.toNat) ≠ w.next^[offset.toNat] (w.head inode.toNat) := by
          intro equal
          exact tidy.kept.linked.apart _ _ different _ (step_mem_nodes below) (equal ▸ step_mem_nodes reached)
        rw [others other same, Function.update_of_ne apart, earlier _ _ old, files.stored other position known' old]
    · intro entry beyond usable
      have apart : entry ≠ w.next^[offset.toNat] (w.head inode.toNat) := by
        rintro rfl
        refine (tidy.kept.used inode.toNat _ (step_mem_nodes reached)).2 ?_
        exact (fresh _ (Nat.lt_of_lt_of_le usable g.covered)).mpr ⟨beyond, usable⟩
      rw [data, Function.update_of_ne apart]
      exact files.blank entry (by omega) usable
  · obtain ⟨stopped, halted⟩ := files.tidy.write_full files.fresh known small block (Nat.not_lt.mp room)
    rw [returned] at halted
    cases halted

/-- Calls that write nothing leave the files as they are. -/
theorem skip (files : Files g calls v state) {call : Call}
    (idle : ∀ inode offset block, call ≠ .write inode offset block ∨ g.inodes ≤ inode.toNat) :
    Files g (calls ++ [call]) v state := by
  have same : ∀ inode : UInt32, inode.toNat < g.inodes →
    extent (ownCalls inode (calls ++ [call])) = extent (ownCalls inode calls) ∧
      ∀ offset, contents offset (ownCalls inode (calls ++ [call])) = contents offset (ownCalls inode calls) := by
    intro inode known
    rw [ownCalls_snoc]
    split
    next own =>
      have silent : ∀ other offset block, call ≠ .write other offset block := by
        intro other offset block same
        subst same
        change other = inode at own
        subst own
        rcases idle other offset block with different | outside
        · exact different rfl
        · omega
      exact ⟨extent_idle _ silent, fun offset => congrArg (Option.getD · nullBlock) (lastWritten_idle _ _ silent)⟩
    next => exact ⟨rfl, fun _ => rfl⟩
  refine ⟨files.tidy, files.fresh, ?_, ?_, files.blank⟩
  · intro inode known
    rw [(same inode known).1]
    exact files.size inode known
  · intro inode offset known below
    rw [(same inode known).2]
    exact files.stored inode offset known below

/-- Every call that returns leaves each file as its own calls say. -/
theorem step (files : Files g calls v state) {call : Call} {after : State} (lengthens : call.Lengthens)
    (returns : Returns state call after) : ∃ w, Files g (calls ++ [call]) w after := by
  obtain ⟨result, returned⟩ := returns
  cases call with
  | write inode offset block =>
    obtain ⟨value, middle, ran, same⟩ := Prog.bind_returns.mp returned
    cases same
    by_cases known : inode.toNat < g.inodes
    · exact (files.write known lengthens ran).2
    · rw [fatdiskWrite_unknown files.tidy.held (Nat.not_lt.mp known)] at ran
      cases ran
      refine ⟨v, files.skip fun other position written => ?_⟩
      by_cases same : other = inode
      · exact .inr (same ▸ Nat.not_lt.mp known)
      · exact .inl fun equal => same (Call.write.inj equal).1.symm
  | read inode offset =>
    obtain ⟨value, middle, ran, same⟩ := Prog.bind_returns.mp returned
    cases same
    have idle : Files g (calls ++ [.read inode offset]) v state := files.skip (by simp)
    by_cases known : inode.toNat < g.inodes
    · rw [files.read known] at ran
      cases ran
      exact ⟨v, idle⟩
    · rw [fatdiskRead_unknown files.tidy.held (Nat.not_lt.mp known)] at ran
      cases ran
      exact ⟨v, idle⟩
  | nblocks inode =>
    obtain ⟨value, middle, ran, same⟩ := Prog.bind_returns.mp returned
    cases same
    have idle : Files g (calls ++ [.nblocks inode]) v state := files.skip (by simp)
    by_cases known : inode.toNat < g.inodes
    · rw [files.nblocks known] at ran
      cases ran
      exact ⟨v, idle⟩
    · rw [fatdiskNblocks_unknown files.tidy.held (Nat.not_lt.mp known)] at ran
      cases ran
      exact ⟨v, idle⟩
  | setsize inode size => exact absurd lengthens id

end Files

theorem files_created {state after : State} {nInodes : UInt32}
    (blank : ∀ position, state.below.block position = nullBlock)
    (created : fatdiskCreate nInodes state = .done 0 after) :
    ∃ g, Formats g nInodes state.below ∧ Files g [] (formatted g state.below.block) after := by
  obtain ⟨g, formats, tidy⟩ := tidy_created (by rw [blank]; rfl) created
  refine ⟨g, formats, tidy, formatted_fresh g _, fun _ _ => rfl, fun _ _ _ below => ?_, fun entry _ _ => blank _⟩
  exact absurd below (Nat.not_lt_zero _)

/-- On a zero-filled store every inode behaves as an array of blocks of its own,
determined by the calls on this inode alone. -/
theorem inodes_independent {nInodes : UInt32} {initial created state : State} {calls : List Call}
    (blank : ∀ position, initial.below.block position = nullBlock)
    (format : fatdiskCreate nInodes initial = .done 0 created)
    (run : Run (Guarded (fun _ call => call.Lengthens) Returns) created calls state) {inode : UInt32}
    (known : inode.toNat < (inodeblocksFor nInodes).toNat * 128) :
    fatdiskNblocks inode state = .done (extent (ownCalls inode calls)) state ∧
    (∀ offset, fatdiskRead inode offset state = .done (if offset.toNat < extent (ownCalls inode calls)
      then some (contents offset (ownCalls inode calls)) else none) state) ∧
    ∀ offset block result after, offset.toNat < 2 ^ 31 - 1 →
      fatdiskWrite inode offset block state = .done result after →
      result = 0 := by
  obtain ⟨g, formats, files⟩ := files_created blank format
  have inside : inode.toNat < g.inodes := by rw [Geometry.inodes, formats.inodeblocks]; exact known
  have kept : ∀ labels before call after, (∃ v, Files g labels v before) →
      Guarded (fun _ call => call.Lengthens) Returns before call after → ∃ v, Files g (labels ++ [call]) v after := by
    rintro labels before call after ⟨v, files⟩ ⟨lengthens, returns⟩
    exact files.step lengthens returns
  obtain ⟨v, files⟩ := run.history kept ⟨_, files⟩
  exact ⟨files.nblocks inside, files.read inside, fun offset block result after small returned =>
    (files.write inside small returned).1⟩

/-- One write at offset 1 makes a file of two blocks, the first one zero. -/
theorem inodes_independent_small : ∃ created after, fatdiskCreate 1 smallStore = .done 0 created ∧
    Returns created (.write 0 1 fun _ => 7) after ∧ fatdiskNblocks 0 after = .done 2 after ∧
    fatdiskRead 0 0 after = .done (some nullBlock) after ∧ fatdiskRead 0 1 after = .done (some fun _ => 7) after ∧
    fatdiskRead 1 0 after = .done none after := by
  obtain ⟨g, created, format, formats, held, _⟩ := @fatdiskCreate_run smallStore 1 rfl (by decide)
  have small := small_formats formats
  have inodes : g.inodes = 128 := by rw [Geometry.inodes, small.inodeblocks]
  obtain ⟨_, after, wrote, _⟩ := (tidy_formatted held).write_fresh (formatted_fresh g _)
    (show (0 : UInt32).toNat < g.inodes by rw [inodes]; decide) (show (1 : BlockNo).toNat < 2 ^ 31 - 1 by decide)
      (fun _ => 7)
    (by change 0 + (1 + 1 - 0) < g.usable; rw [small.usable]; decide)
  have returns : Returns created (.write 0 1 fun _ => 7) after := ⟨_, Prog.bind_done wrote⟩
  have run := Run.snoc Run.nil (show Guarded
    (fun _ call => call.Lengthens) Returns created (.write 0 1 fun _ => 7) after from
    ⟨show (1 : BlockNo).toNat < 2 ^ 31 - 1 by decide, returns⟩)
  obtain ⟨size, reads, _⟩ := inodes_independent (fun _ => rfl) format run (show (0 : UInt32).toNat < _ by decide)
  obtain ⟨_, others, _⟩ := inodes_independent (fun _ => rfl) format run (show (1 : UInt32).toNat < _ by decide)
  exact ⟨created, after, format, returns, size, reads 0, reads 1, others 0⟩

end Egos.Fatdisk
