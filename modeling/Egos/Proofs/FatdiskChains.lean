import Egos.Library.Transition
import Egos.Proofs.FatdiskFormat

/-! Runs of fatdisk.c on a formatted store. The free mark 0 is also an entry number:
the chains stay sound in every run in which no write hangs entry 0 behind another
entry, and one such write leaves a chain entry that looks free. -/

namespace Egos.Fatdisk
open Library Disk

/-- The FAT, the inodes and the data blocks as the store below holds them. -/
def State.volume (state : State) : Volume where
  free := wordAt (state.below.block 0) 2
  next entry := wordAt (state.below.block (wordAt (state.below.block 0) 0 + 1 + entry / 256)) entry
  head inode := wordAt (state.below.block (inodePos inode)) (2 * (inode % 128))
  nblocks inode := wordAt (state.below.block (inodePos inode)) (2 * (inode % 128) + 1)
  data entry := state.below.block (wordAt (state.below.block 0) 0 + 1 + wordAt (state.below.block 0) 1 + entry)

def State.inodes (state : State) : Nat := wordAt (state.below.block 0) 0 * 128

def State.entries (state : State) : Nat := wordAt (state.below.block 0) 1 * 256

/-- The entries visited from `head` in `nblocks` steps. -/
def State.chain (state : State) (inode : Nat) : List Nat :=
  nodes state.volume.next state.volume.head state.volume.nblocks inode

structure ChainsSound (state : State) : Prop where
  distinct : ∀ inode < state.inodes, (state.chain inode).Nodup
  taken : ∀ inode < state.inodes, ∀ entry ∈ state.chain inode, entry < state.entries ∧ state.volume.next entry ≠ 0
  ends : ∀ inode < state.inodes, ∀ entry ∈ (state.chain inode).getLast?, state.volume.next entry = EOF
  apart : ∀ first < state.inodes, ∀ second < state.inodes, first ≠ second →
    ∀ entry ∈ state.chain first, entry ∉ state.chain second
  free : state.volume.free < state.entries ∧ state.volume.next state.volume.free = 0

/-- A call returns, and every access to the store below so far succeeded. -/
def Step (before : State) (call : Call) (after : State) : Prop :=
  ∃ result, call.perform before = .done result after ∧ after.failed = false

/-- A call returns; nothing is assumed about the accesses to the store below. -/
def Returns (before : State) (call : Call) (after : State) : Prop :=
  ∃ result, call.perform before = .done result after

/-- Offsets for which the `int` arithmetic on block counts is exact, and no size but 0. -/
def Call.Admissible : Call → Prop
  | .write _ offset _ => offset.toNat < 2 ^ 31 - 1
  | .setsize _ size => size = 0
  | _ => True

/-- The size that a write needs is a block number again. -/
def Call.Fits : Call → Prop
  | .write _ offset _ => offset.toNat + 1 < 2 ^ 32
  | _ => True

/-- A write hangs entry 0 behind another entry: entry 0 is free, and either it is
next and the file is not empty, or the free entries before the end of the table do not suffice. -/
def LinksZero (state : State) : Call → Prop
  | .write inode offset _ =>
    inode.toNat < state.inodes ∧ state.volume.nblocks inode.toNat ≤ offset.toNat ∧ state.volume.next 0 = 0 ∧
      if state.volume.free = 0 then state.volume.nblocks inode.toNat ≠ 0
      else state.volume.freeAhead state.entries < offset.toNat + 1 - state.volume.nblocks inode.toNat
  | _ => False

/-- A volume whose chains have the stored sizes, in a state that represents it. -/
structure Tidy (g : Geometry) (v : Volume) (state : State) : Prop where
  held : Represents g v state
  kept : Kept g v v.nblocks
  small : ∀ inode, v.nblocks inode < 2 ^ 31
  unknown : ∀ inode, g.inodes ≤ inode → v.nblocks inode = 0

namespace Represents
variable {g : Geometry} {v : Volume} {state : State}

theorem inodes_eq (held : Represents g v state) : state.inodes = g.inodes := by
  rw [State.inodes, held.inodeblocks, Geometry.inodes]

theorem entries_eq (held : Represents g v state) : state.entries = g.entries := by
  rw [State.entries, held.fatblocks, Geometry.entries]

theorem volume_next (held : Represents g v state) {entry : Nat} (inside : entry < g.entries) :
    state.volume.next entry = v.next entry := by
  change wordAt (state.below.block (wordAt (state.below.block 0) 0 + 1 + entry / 256)) entry = _
  rw [held.inodeblocks]
  exact held.next entry inside

theorem chain_eq (held : Represents g v state) {inode : Nat} (known : inode < g.inodes) (sound : v.Sound g inode) :
    state.chain inode = nodes v.next v.head v.nblocks inode := by
  have heads : state.volume.head inode = v.head inode := held.head inode known
  have sizes : state.volume.nblocks inode = v.nblocks inode := held.nblocks inode known
  rw [State.chain, nodes, nodes, heads, sizes]
  refine (iterate_congr fun step inside => (held.volume_next ?_).symm).symm
  exact Nat.lt_of_lt_of_le (sound step (by omega)) g.covered

end Represents

theorem Tidy.sound {g : Geometry} {v : Volume} {state : State} (tidy : Tidy g v state) : ChainsSound state := by
  have inodes := tidy.held.inodes_eq
  have entries := tidy.held.entries_eq
  have covered : g.usable ≤ g.entries := g.covered
  have chain := fun inode (known : inode < g.inodes) => tidy.held.chain_eq known (tidy.kept.sound inode)
  have inside : ∀ inode, ∀ entry ∈ nodes v.next v.head v.nblocks inode, entry < g.entries :=
    fun inode entry member => Nat.lt_of_lt_of_le (tidy.kept.used inode entry member).1 covered
  have free : state.volume.free = v.free := tidy.held.free
  have pointer := Nat.lt_of_lt_of_le tidy.kept.inside covered
  refine ⟨?_, ?_, ?_, ?_, ?_⟩
  · intro inode known
    rw [chain inode (inodes ▸ known)]
    exact tidy.kept.linked.nodup inode
  · intro inode known entry member
    rw [chain inode (inodes ▸ known)] at member
    rw [entries, tidy.held.volume_next (inside inode entry member)]
    exact ⟨inside inode entry member, (tidy.kept.used inode entry member).2⟩
  · intro inode known entry last
    rw [chain inode (inodes ▸ known)] at last
    rw [tidy.held.volume_next (inside inode entry (List.mem_of_getLast? last))]
    exact tidy.kept.linked.ends inode entry last
  · intro first left second right different entry member
    rw [chain first (inodes ▸ left)] at member
    rw [chain second (inodes ▸ right)]
    exact tidy.kept.linked.apart first second different entry member
  · rw [free, entries, tidy.held.volume_next pointer]
    exact ⟨pointer, tidy.kept.pointer⟩

theorem Volume.writeBlock_eq_some {g : Geometry} {v w : Volume} {inode offset : Nat} {block : Block} {stored : Bool}
    (wrote : v.writeBlock g inode offset block = some (stored, w)) : ∃ grown, v.grow g inode offset = some grown ∧
      stored = decide (g.dataPos (grown.next^[offset] (grown.head inode)) < g.size) ∧
      w = if stored then grown.setData (grown.next^[offset] (grown.head inode)) block else grown := by
  rw [writeBlock, Option.map_eq_some_iff] at wrote
  obtain ⟨grown, found, same⟩ := wrote
  refine ⟨grown, found, ?_⟩
  by_cases inside : g.dataPos (grown.next^[offset] (grown.head inode)) < g.size
  · simp only [inside, if_true, Prod.mk.injEq] at same
    obtain ⟨rfl, rfl⟩ := same
    simp [inside]
  · simp only [inside, if_false, Prod.mk.injEq] at same
    obtain ⟨rfl, rfl⟩ := same
    simp [inside]

theorem Kept.length_lt {g : Geometry} {v : Volume} {len : Nat → Nat} (kept : Kept g v len) (inode : Nat) :
    len inode < 2 ^ 31 := by
  have range : nodes v.next v.head len inode ⊆ List.range g.usable :=
    fun entry member => List.mem_range.mpr (kept.used inode entry member).1
  have few := ((kept.linked.nodup inode).subperm range).length_le
  rw [length_nodes, List.length_range] at few
  have within := g.within
  have bounded := g.bounded
  omega

namespace Tidy
variable {g : Geometry} {v : Volume} {state : State}

theorem write (tidy : Tidy g v state) {inode : UInt32} (known : inode.toNat < g.inodes) {offset : BlockNo}
    (small : offset.toNat + 1 < 2 ^ 32) (block : Block)
    (clean : v.Clean g (v.nblocks inode.toNat) (offset.toNat + 1 - v.nblocks inode.toNat)) :
    match v.writeBlock g inode.toNat offset.toNat block with
    | some (stored, w) => ∃ after, fatdiskWrite inode offset block state = .done (if stored then 0 else -1) after ∧
        Tidy g w after ∧ after.failed = (state.failed || !stored)
    | none => ∃ stopped, fatdiskWrite inode offset block state =
        .halted (.panic "fatdisk_find_free_entry: The disk is full\n") stopped := by
  have pointer := Nat.lt_of_lt_of_le tidy.kept.inside g.covered
  have ran := fatdiskWrite_run tidy.held known small block pointer
    (tidy.kept.sound inode.toNat) (fun w grown => by
      obtain ⟨keeps, sizes, _⟩ := tidy.kept.grow grown clean
      refine ⟨?_, keeps.sound inode.toNat⟩
      rw [sizes, Function.update_self]; omega)
  cases wrote : v.writeBlock g inode.toNat offset.toNat block with
  | none => simpa only [wrote] using ran
  | some result =>
    obtain ⟨stored, w⟩ := result
    simp only [wrote] at ran
    obtain ⟨after, returned, held, failed⟩ := ran
    obtain ⟨grown, found, _, shape⟩ := Volume.writeBlock_eq_some wrote
    obtain ⟨keeps, sizes, _⟩ := tidy.kept.grow found clean
    have sizes' : w.nblocks = Function.update v.nblocks inode.toNat
        (max (v.nblocks inode.toNat) (offset.toNat + 1)) := by
      rw [← sizes, shape]; split <;> rfl
    refine ⟨after, returned, ⟨held, ?_, ?_, ?_⟩, failed⟩
    · rw [shape]
      split
      · exact ⟨keeps.linked, keeps.used, keeps.inside, keeps.pointer, keeps.spare⟩
      · exact keeps
    · intro other
      have few := keeps.length_lt other
      rwa [sizes, ← sizes'] at few
    · intro other outside
      rw [sizes', Function.update_of_ne (by omega)]
      exact tidy.unknown other outside

/-- A write before the first truncation takes the next entries in order. -/
theorem write_fresh (tidy : Tidy g v state) (fresh : v.Fresh g) {inode : UInt32} (known : inode.toNat < g.inodes)
    {offset : BlockNo} (small : offset.toNat < 2 ^ 31 - 1) (block : Block)
    (room : v.free + (offset.toNat + 1 - v.nblocks inode.toNat) < g.usable) :
    ∃ w after, fatdiskWrite inode offset block state = .done 0 after ∧ Tidy g w after ∧ w.Fresh g ∧
      after.failed = state.failed ∧ w.free = v.free + (offset.toNat + 1 - v.nblocks inode.toNat) ∧
      w.nblocks = Function.update v.nblocks inode.toNat (max (v.nblocks inode.toNat) (offset.toNat + 1)) ∧
      w.data = Function.update v.data (w.next^[offset.toNat] (w.head inode.toNat)) block ∧
      nodes w.next w.head w.nblocks = Function.update (nodes v.next v.head v.nblocks) inode.toNat
        (nodes v.next v.head v.nblocks inode.toNat ++ List.range' v.free
            (offset.toNat + 1 - v.nblocks inode.toNat)) := by
  have ran := tidy.write known (show offset.toNat + 1 < 2 ^ 32 by omega) block (tidy.kept.clean_fresh fresh _ _)
  obtain ⟨w, grown, pointer, fresher, keeps, sizes, data, lists⟩ := tidy.kept.grow_fresh fresh room
  have reached : offset.toNat < w.nblocks inode.toNat := by rw [sizes, Function.update_self]; omega
  have entry := keeps.used inode.toNat _ (step_mem_nodes reached)
  have behind : w.next^[offset.toNat] (w.head inode.toNat) < w.free := by
    by_contra beyond
    exact entry.2 ((fresher _ (Nat.lt_of_lt_of_le entry.1 g.covered)).mpr ⟨by omega, entry.1⟩)
  have stored : g.dataPos (w.next^[offset.toNat] (w.head inode.toNat)) < g.size := by
    have := g.within
    have := keeps.inside
    unfold Geometry.dataPos; omega
  have wrote : v.writeBlock g inode.toNat offset.toNat block =
      some (true, w.setData (w.next^[offset.toNat] (w.head inode.toNat)) block) := by
    rw [Volume.writeBlock, grown]
    simp only [Option.map_some, stored, if_true]
  simp only [wrote] at ran
  obtain ⟨after, returned, tidy', unfailed⟩ := ran
  refine ⟨_, after, returned, tidy', fresher, ?_, pointer, sizes, ?_, lists⟩
  · simpa using unfailed
  · exact congrArg (fun stored => Function.update stored _ block) data

/-- The disk is full one entry early, so the entry whose block may lie past the store is never used. -/
theorem write_full (tidy : Tidy g v state) (fresh : v.Fresh g) {inode : UInt32} (known : inode.toNat < g.inodes)
    {offset : BlockNo} (small : offset.toNat < 2 ^ 31 - 1) (block : Block)
    (full : g.usable ≤ v.free + (offset.toNat + 1 - v.nblocks inode.toNat)) :
    ∃ stopped, fatdiskWrite inode offset block state =
      .halted (.panic "fatdisk_find_free_entry: The disk is full\n") stopped := by
  have ran := tidy.write known (show offset.toNat + 1 < 2 ^ 32 by omega) block (tidy.kept.clean_fresh fresh _ _)
  rw [Volume.writeBlock, tidy.kept.grow_full fresh full] at ran
  exact ran

theorem truncate (tidy : Tidy g v state) {inode : UInt32} (known : inode.toNat < g.inodes) :
    match v.truncate g inode.toNat with
    | some w => ∃ after, fatdiskSetsize inode 0 state = .done 0 after ∧ Tidy g w after ∧ after.failed = state.failed
    | none => ∃ stopped, fatdiskSetsize inode 0 state =
        .halted (.panic "treedisk_free_block: target block") stopped := by
  have ran := fatdiskSetsize_run tidy.held known (tidy.kept.sound inode.toNat) (tidy.kept.linked.nodup inode.toNat)
  cases truncated : v.truncate g inode.toNat with
  | none => simpa only [truncated] using ran
  | some w =>
    simp only [truncated] at ran
    obtain ⟨after, returned, held, failed⟩ := ran
    obtain ⟨keeps, sizes, _⟩ := tidy.kept.truncate truncated
    refine ⟨after, returned, ⟨held, keeps, ?_, ?_⟩, failed⟩
    · intro other
      rw [sizes, Function.update_apply]
      split
      · decide
      · exact tidy.small other
    · intro other outside
      rw [sizes, Function.update_of_ne (by omega)]
      exact tidy.unknown other outside

theorem read (tidy : Tidy g v state) {inode : UInt32} (known : inode.toNat < g.inodes) {offset : BlockNo}
    (below : offset.toNat < v.nblocks inode.toNat) :
    fatdiskRead inode offset state =
      if g.dataPos (v.next^[offset.toNat] (v.head inode.toNat)) < g.size
      then .done (some (v.data (v.next^[offset.toNat] (v.head inode.toNat)))) state
      else .done none { state with failed := true } := by
  have sound := tidy.kept.sound inode.toNat
  have bound := g.dataPos_le (sound offset.toNat below)
  have bounded := g.bounded
  exact fatdiskRead_run tidy.held known below (fun step inside => Nat.lt_of_lt_of_le (sound step (by omega)) g.covered)
    (by omega)

/-- The guard on states is the condition on volumes under which a file grows soundly. -/
theorem linksZero_iff (tidy : Tidy g v state) {inode : UInt32} (known : inode.toNat < g.inodes)
    (offset : BlockNo) (block : Block) :
    LinksZero state (.write inode offset block) ↔
      ¬ v.Clean g (v.nblocks inode.toNat) (offset.toNat + 1 - v.nblocks inode.toNat) := by
  have positive : 0 < g.entries := Nat.lt_of_lt_of_le g.nonempty g.covered
  have sizes : state.volume.nblocks inode.toNat = v.nblocks inode.toNat := tidy.held.nblocks _ known
  have free : state.volume.free = v.free := tidy.held.free
  have ahead : state.volume.freeAhead state.entries = v.freeAhead g.entries := by
    rw [Volume.freeAhead, Volume.freeAhead, free, tidy.held.entries_eq]
    apply List.countP_congr
    intro entry member
    have := List.mem_range'_1.mp member
    rw [tidy.held.volume_next (by omega)]
  simp only [LinksZero, Volume.Clean, sizes, free, ahead, tidy.held.inodes_eq, tidy.held.volume_next positive,
    known, true_and,
    Classical.not_imp]
  refine and_congr (by omega) (and_congr_right' ?_)
  split
  · exact Iff.rfl
  · omega

/-- Every call that returns keeps the chains apart, unless it hangs entry 0 behind another entry. -/
theorem step (tidy : Tidy g v state) {call : Call} {after : State} (fits : call.Fits)
    (guard : ¬ LinksZero state call) (ran : Returns state call after) : ∃ w, Tidy g w after := by
  obtain ⟨result, returned⟩ := ran
  cases call with
  | write inode offset block =>
    obtain ⟨value, middle, ran, same⟩ := Prog.bind_returns.mp returned
    cases same
    by_cases known : inode.toNat < g.inodes
    · have wrote := tidy.write known fits block (not_not.mp (mt (tidy.linksZero_iff known offset block).mpr guard))
      cases seen : v.writeBlock g inode.toNat offset.toNat block with
      | none =>
        simp only [seen] at wrote
        obtain ⟨stopped, halted⟩ := wrote
        rw [ran] at halted
        cases halted
      | some result =>
        obtain ⟨stored, w⟩ := result
        simp only [seen] at wrote
        obtain ⟨final, returned, tidy', _⟩ := wrote
        rw [ran] at returned
        cases returned
        exact ⟨w, tidy'⟩
    · rw [fatdiskWrite_unknown tidy.held (Nat.not_lt.mp known)] at ran
      cases ran
      exact ⟨v, tidy⟩
  | read inode offset =>
    obtain ⟨value, middle, ran, same⟩ := Prog.bind_returns.mp returned
    cases same
    by_cases known : inode.toNat < g.inodes
    · by_cases below : offset.toNat < v.nblocks inode.toNat
      · rw [tidy.read known below] at ran
        split at ran
        · cases ran
          exact ⟨v, tidy⟩
        · cases ran
          exact ⟨v, tidy.held.fail, tidy.kept, tidy.small, tidy.unknown⟩
      · rw [fatdiskRead_past tidy.held known (Nat.not_lt.mp below)] at ran
        cases ran
        exact ⟨v, tidy⟩
    · rw [fatdiskRead_unknown tidy.held (Nat.not_lt.mp known)] at ran
      cases ran
      exact ⟨v, tidy⟩
  | nblocks inode =>
    obtain ⟨value, middle, ran, same⟩ := Prog.bind_returns.mp returned
    cases same
    by_cases known : inode.toNat < g.inodes
    · rw [fatdiskNblocks_run tidy.held known (tidy.small _)] at ran
      cases ran
      exact ⟨v, tidy⟩
    · rw [fatdiskNblocks_unknown tidy.held (Nat.not_lt.mp known)] at ran
      cases ran
      exact ⟨v, tidy⟩
  | setsize inode size =>
    obtain ⟨value, middle, ran, same⟩ := Prog.bind_returns.mp returned
    cases same
    by_cases known : inode.toNat < g.inodes
    · by_cases some : size = 0
      · subst some
        have freed := tidy.truncate known
        cases seen : v.truncate g inode.toNat with
        | none =>
          simp only [seen] at freed
          obtain ⟨stopped, halted⟩ := freed
          rw [ran] at halted
          cases halted
        | some w =>
          simp only [seen] at freed
          obtain ⟨final, returned, tidy', _⟩ := freed
          rw [ran] at returned
          cases returned
          exact ⟨w, tidy'⟩
      · obtain ⟨_, refused⟩ := fatdiskSetsize_refused tidy.held known some
        rw [refused] at ran
        cases ran
        exact ⟨v, tidy⟩
    · rw [fatdiskSetsize_unknown tidy.held (Nat.not_lt.mp known)] at ran
      cases ran

end Tidy

theorem inodeblocksFor_toNat (nInodes : UInt32) : (inodeblocksFor nInodes).toNat = (nInodes.toNat + 127) / 128 := by
  have bound := nInodes.toNat_lt
  exact UInt32.toNat_ofNat_of_lt' (show (nInodes.toNat + 127) / 128 < 2 ^ 32 by omega)

theorem inodeblocksFor_lt (nInodes : UInt32) : (inodeblocksFor nInodes).toNat < 2 ^ 26 := by
  have bound := nInodes.toNat_lt
  rw [inodeblocksFor_toNat]
  omega

theorem inodeblocksFor_two (nInodes : UInt32) :
    (inodeblocksFor nInodes + 2).toNat = (inodeblocksFor nInodes).toNat + 2 := by
  have small := inodeblocksFor_lt nInodes
  rw [UInt32.toNat_add]
  exact Nat.mod_eq_of_lt (show _ + 2 < 2 ^ 32 by omega)

/-- A store that `fatdisk_create` accepts has room for the inodes, a FAT block and a data block. -/
theorem room_of_created {state after : State} {nInodes : UInt32}
    (created : fatdiskCreate nInodes state = .done 0 after) :
    (inodeblocksFor nInodes).toNat + 2 ≤ state.below.size.toNat := by
  by_contra few
  have lacks : state.below.size < inodeblocksFor nInodes + 2 := by
    rw [UInt32.lt_iff_toNat_lt, inodeblocksFor_two]
    exact Nat.not_le.mp few
  rw [fatdiskCreate, Prog.bind_done (Prog.get_run state)] at created
  simp only [lacks, if_true] at created
  cases created

theorem tidy_formatted {g : Geometry} {block : Nat → Block} {state : State}
    (held : Represents g (formatted g block) state) :
    Tidy g (formatted g block) state := by
  refine ⟨held, ⟨Linked.empty _ _ _, ?_, g.nonempty, if_pos g.nonempty, ?_⟩, fun _ => Nat.two_pow_pos 31,
    fun _ _ => rfl⟩
  · intro inode entry member
    cases member
  · intro entry outside _
    change (if entry < g.usable then 0 else EOF) ≠ 0
    rw [if_neg (by omega)]
    exact EOF_ne_zero

theorem formatted_fresh (g : Geometry) (block : Nat → Block) : (formatted g block).Fresh g := by
  intro entry known
  change (if entry < g.usable then 0 else EOF) = 0 ↔ 0 ≤ entry ∧ entry < g.usable
  split <;> simp_all [EOF_ne_zero]

theorem tidy_created {state after : State} {nInodes : UInt32} (clear : nInodeblocks (state.below.block 0) = 0)
    (created : fatdiskCreate nInodes state = .done 0 after) :
    ∃ g, Formats g nInodes state.below ∧ Tidy g (formatted g state.below.block) after := by
  obtain ⟨g, same, ran, formats, held, _⟩ := fatdiskCreate_run clear (room_of_created created)
  rw [created] at ran
  cases ran
  exact ⟨g, formats, tidy_formatted held⟩

theorem Call.Admissible.fits {call : Call} (admissible : call.Admissible) : call.Fits := by
  cases call with
  | write inode offset block =>
    change offset.toNat < 2 ^ 31 - 1 at admissible
    change offset.toNat + 1 < 2 ^ 32
    omega
  | read | nblocks | setsize => trivial

theorem Step.returns {before : State} {call : Call} {after : State} (moved : Step before call after) :
    Returns before call after :=
  moved.imp fun _ ran => ran.1

theorem tidy_of_run {nInodes : UInt32} {initial created after : State} {calls : List Call}
    (clear : nInodeblocks (initial.below.block 0) = 0) (format : fatdiskCreate nInodes initial = .done 0 created)
    (run : Run (Guarded (fun state call => call.Admissible ∧ ¬ LinksZero state call) Step) created calls after) :
    ∃ g, Formats g nInodes initial.below ∧ ∃ v, Tidy g v after := by
  obtain ⟨g, formats, tidy⟩ := tidy_created clear format
  have kept : ∀ before call next, (∃ v, Tidy g v before) →
      Guarded (fun state call => call.Admissible ∧ ¬ LinksZero state call) Step before call next →
          ∃ v, Tidy g v next := by
    rintro before call next ⟨v, tidy⟩ ⟨⟨admissible, guard⟩, moved⟩
    exact tidy.step admissible.fits guard moved.returns
  exact ⟨g, formats, run.invariant kept ⟨_, tidy⟩⟩

/-- In every run of writes, reads and truncations on a freshly formatted store in
which no write hangs entry 0 behind another entry, the chains stay sound. -/
theorem chains_sound {nInodes : UInt32} {initial created after : State} {calls : List Call}
    (clear : nInodeblocks (initial.below.block 0) = 0) (format : fatdiskCreate nInodes initial = .done 0 created)
    (run : Run (Guarded (fun state call => call.Admissible ∧ ¬ LinksZero state call) Step) created calls after) :
    ChainsSound after := by
  obtain ⟨g, _, v, tidy⟩ := tidy_of_run clear format run
  exact tidy.sound

/-! A store of 260 blocks with one inode block: two FAT blocks and 257 usable entries. -/

def smallStore : State where
  below := { size := 260, block := fun _ => nullBlock, reported := by decide }
  fatblocks := 0
  failed := false

structure SmallGeometry (g : Geometry) : Prop where
  inodeblocks : g.inodeblocks = 1
  fatblocks : g.fatblocks = 2
  usable : g.usable = 257
  size : g.size = 260

theorem small_formats {g : Geometry} (formats : Formats g 1 smallStore.below) : SmallGeometry g := by
  have inodeblocks : g.inodeblocks = 1 := formats.inodeblocks
  have size : g.size = 260 := formats.size
  have tight := formats.tight
  have filled := formats.filled
  have covered := g.covered
  have within := g.within
  exact ⟨inodeblocks, by omega, by omega, size⟩

/-- The table is used up to its last entry, and the two entries of a truncated file are free. -/
private theorem grow_wraps {g : Geometry} (small : SmallGeometry g) {v : Volume} {inode : Nat} (free : v.free = 256)
    (zeros : ∀ entry < 512, v.next entry = 0 ↔ entry = 0 ∨ entry = 1 ∨ entry = 256) (empty : v.nblocks inode = 0) :
    ∃ w, v.grow g inode 1 = some w ∧ w.next 256 = 0 ∧ w.head inode = 256 ∧ w.nblocks inode = 2 := by
  have entries : g.entries = 512 := by rw [Geometry.entries, small.fatblocks]
  have first : v.nextFree g = some 0 := by
    have ahead : (List.range' 256 (512 - 256)).find?
        (fun entry => Function.update v.next 256 EOF entry == 0) = none := by
      refine List.find?_eq_none.mpr fun entry member => ?_
      have := List.mem_range'_1.mp member
      rw [beq_iff_eq]
      by_cases same : entry = 256
      · rw [same, Function.update_self]; exact EOF_ne_zero
      · rw [Function.update_of_ne same, zeros entry (by omega)]; omega
    have behind : (List.range' 0 (256 / 256 * 256)).find?
        (fun entry => Function.update v.next 256 EOF entry == 0) = some 0 := by
      refine List.find?_range'_eq_some.mpr ⟨?_, List.mem_range'_1.mpr (by omega),
        fun entry _ low => absurd low (by omega)⟩
      rw [beq_iff_eq, Function.update_of_ne (by decide)]
      exact (zeros 0 (by decide)).mpr (.inl rfl)
    rw [Volume.nextFree, scanOrder, free, entries, List.find?_append, ahead, behind]
    rfl
  obtain ⟨m, one⟩ : ∃ m, v.addBlock g inode 1 (v.lastEntry inode) = some m := by
    rw [Volume.addBlock, Volume.alloc, first]
    exact ⟨_, rfl⟩
  obtain ⟨_, found, pointer, _, nblocks, links⟩ := Volume.addBlock_eq_some one
  rw [first] at found
  cases found
  rw [if_pos empty, free] at links
  rw [empty] at nblocks
  have second : m.nextFree g = some 1 := by
    have ahead : (List.range' 0 (512 - 0)).find? (fun entry => Function.update m.next 0 EOF entry == 0) = some 1 := by
      refine List.find?_range'_eq_some.mpr ⟨?_, List.mem_range'_1.mpr (by omega), fun entry _ low => ?_⟩
      · rw [beq_iff_eq, links.1, Function.update_of_ne (by decide), Function.update_of_ne (by decide)]
        exact (zeros 1 (by decide)).mpr (.inr (.inl rfl))
      · obtain rfl : entry = 0 := by omega
        rfl
    rw [Volume.nextFree, scanOrder, pointer, entries, List.find?_append, ahead]
    rfl
  obtain ⟨w, two⟩ : ∃ w, m.addBlock g inode 1 256 = some w := by
    rw [Volume.addBlock, Volume.alloc, second]
    exact ⟨_, rfl⟩
  obtain ⟨_, found, _, _, nblocks', links'⟩ := Volume.addBlock_eq_some two
  rw [second] at found
  cases found
  rw [if_neg (by rw [nblocks, Function.update_self]; decide), pointer] at links'
  refine ⟨w, ?_, ?_, ?_, ?_⟩
  · rw [Volume.grow, empty, Volume.addBlocks, one, Option.bind_some, free, Volume.addBlocks, two]
    rfl
  · rw [links'.1, Function.update_self]
  · rw [links'.2, links.2, Function.update_self]
  · rw [nblocks', nblocks, Function.update_self, Function.update_self]
    rfl

/-- Three calls after which the table is used up to its last entry. -/
private theorem small_history : ∃ g v created after, fatdiskCreate 1 smallStore = .done 0 created ∧
    Run (Guarded (fun state call => call.Admissible ∧ ¬ LinksZero state call) Step) created
      [.write 0 1 nullBlock, .write 1 253 nullBlock, .setsize 0 0] after ∧
    SmallGeometry g ∧ Tidy g v after ∧ after.failed = false ∧ v.free = 256 ∧ v.nblocks 2 = 0 ∧
    ∀ entry < 512, v.next entry = 0 ↔ entry = 0 ∨ entry = 1 ∨ entry = 256 := by
  obtain ⟨g, created, format, formats, held, unfailed⟩ :=
    @fatdiskCreate_run smallStore 1 rfl (by decide)
  have small := small_formats formats
  have entries : g.entries = 512 := by rw [Geometry.entries, small.fatblocks]
  have inodes : g.inodes = 128 := by rw [Geometry.inodes, small.inodeblocks]
  have tidy := tidy_formatted held
  have fresh := formatted_fresh g smallStore.below.block
  obtain ⟨v₁, s₁, returned₁, tidy₁, fresh₁, unfailed₁, free₁, nblocks₁, _, lists₁⟩ := tidy.write_fresh fresh
    (show (0 : UInt32).toNat < g.inodes by rw [inodes]; decide)
      (show (1 : BlockNo).toNat < 2 ^ 31 - 1 by decide) nullBlock
    (by change 0 + (1 + 1 - 0) < g.usable; rw [small.usable]; decide)
  change v₁.free = 2 at free₁
  have sizes₁ : ∀ inode, v₁.nblocks inode = if inode = 0 then 2 else 0 := by
    intro inode
    rw [nblocks₁, Function.update_apply]
    rfl
  obtain ⟨v₂, s₂, returned₂, tidy₂, fresh₂, unfailed₂, free₂, nblocks₂, _, lists₂⟩ := tidy₁.write_fresh fresh₁
    (show (1 : UInt32).toNat < g.inodes by rw [inodes]; decide)
      (show (253 : BlockNo).toNat < 2 ^ 31 - 1 by decide) nullBlock
    (by
      change v₁.free + (253 + 1 - v₁.nblocks 1) < g.usable
      rw [small.usable, free₁, sizes₁]; decide)
  change v₂.free = v₁.free + (253 + 1 - v₁.nblocks 1) at free₂
  rw [free₁, sizes₁] at free₂
  have sizes₂ : ∀ inode, v₂.nblocks inode = if inode = 0 then 2 else if inode = 1 then 254 else 0 := by
    intro inode
    rw [nblocks₂, Function.update_apply, sizes₁, sizes₁]
    change (if inode = 1 then max (if 1 = 0 then 2 else 0) (253 + 1) else _) = _
    by_cases here : inode = 1
    · rw [here]; rfl
    · rw [if_neg here, if_neg here]
  have chain : nodes v₂.next v₂.head v₂.nblocks 0 = [0, 1] := by
    have first := congrFun lists₁ 0
    have second := congrFun lists₂ 0
    rw [Function.update_of_ne (by decide), first] at second
    exact second
  have shape : [v₂.head 0, v₂.next (v₂.head 0)] = [0, 1] := by
    rw [nodes, sizes₂] at chain
    exact chain
  obtain ⟨head, next⟩ : v₂.head 0 = 0 ∧ v₂.next (v₂.head 0) = 1 := by simpa using shape
  obtain ⟨v₃, truncated⟩ : ∃ w, v₂.truncate g 0 = some w := by
    have blocks : ∀ entry < 2, g.dataPos entry < g.size := by
      intro entry low
      rw [Geometry.dataPos, small.inodeblocks, small.fatblocks, small.size]; omega
    rw [Volume.truncate, sizes₂, if_neg (by decide), if_pos rfl, Volume.releaseChain, Volume.releaseChain, next, head,
      if_pos (blocks 0 (by decide)), if_pos (blocks 1 (by decide))]
    exact ⟨_, rfl⟩
  have freed := tidy₂.truncate (show (0 : UInt32).toNat < g.inodes by rw [inodes]; decide)
  rw [UInt32.toNat_zero, truncated] at freed
  obtain ⟨s₃, returned₃, tidy₃, unfailed₃⟩ := freed
  obtain ⟨_, nblocks₃, free₃, next₃⟩ := tidy₂.kept.truncate truncated
  have fine : ∀ {v : Volume} {state : State} {inode : UInt32} {offset : BlockNo}, Tidy g v state → v.Fresh g →
      inode.toNat < g.inodes → ¬ LinksZero state (.write inode offset nullBlock) :=
    fun tidy fresh known => fun bad => (tidy.linksZero_iff known _ _).mp bad (tidy.kept.clean_fresh fresh _ _)
  refine ⟨g, v₃, created, s₃, format, ?_, small, tidy₃, ?_, by rw [free₃, free₂]; rfl, ?_, fun entry low => ?_⟩
  · refine Run.cons ⟨⟨show (1 : BlockNo).toNat < 2 ^ 31 - 1 by decide, fine tidy fresh (by rw [inodes]; decide)⟩, _,
      Prog.bind_done returned₁, unfailed₁.trans unfailed⟩
      (Run.cons ⟨⟨show (253 : BlockNo).toNat < 2 ^ 31 - 1 by decide, fine tidy₁ fresh₁ (by rw [inodes]; decide)⟩, _,
        Prog.bind_done returned₂, ?_⟩
        (Run.cons ⟨⟨rfl, fun bad => bad⟩, _, Prog.bind_done returned₃, ?_⟩ .nil))
    · rw [unfailed₂, unfailed₁, unfailed]; rfl
    · rw [unfailed₃, unfailed₂, unfailed₁, unfailed]; rfl
  · rw [unfailed₃, unfailed₂, unfailed₁, unfailed]; rfl
  · rw [nblocks₃, Function.update_of_ne (by decide), sizes₂]; rfl
  · rw [next₃, chain]
    by_cases released : entry ∈ [0, 1]
    · rw [if_pos released]
      simp only [List.mem_cons, List.not_mem_nil, or_false] at released
      omega
    · rw [if_neg released, fresh₂ entry (by omega), free₂, small.usable]
      simp only [List.mem_cons, List.not_mem_nil, or_false] at released
      change 2 + (253 + 1 - 0) ≤ entry ∧ _ ↔ _
      omega

/-- A fourth call hangs entry 0 behind entry 256, which then looks free. -/
theorem chains_unsound : ¬ ∀ (nInodes : UInt32) (initial created after : State) (calls : List Call),
    nInodeblocks (initial.below.block 0) = 0 → fatdiskCreate nInodes initial = .done 0 created →
    Run (Guarded (fun _ call => call.Admissible) Step) created calls after → ChainsSound after := by
  intro always
  obtain ⟨g, v, created, before, format, run, small, tidy, unfailed, free, empty, zeros⟩ := small_history
  have inodes : g.inodes = 128 := by rw [Geometry.inodes, small.inodeblocks]
  have known : (2 : UInt32).toNat < g.inodes := by rw [inodes]; decide
  obtain ⟨w, grown, hung, head, size⟩ := grow_wraps small free zeros empty
  have step : w.next^[1] (w.head 2) = 0 := by rw [Function.iterate_one, head, hung]
  have sound : w.Sound g 2 := by
    intro index inside
    rw [size] at inside
    rw [small.usable]
    obtain rfl | rfl : index = 0 ∨ index = 1 := by omega
    · rw [Function.iterate_zero, id, head]; decide
    · rw [step]; decide
  have ran := fatdiskWrite_run tidy.held known (show (1 : BlockNo).toNat + 1 < 2 ^ 32 by decide) nullBlock
    (Nat.lt_of_lt_of_le tidy.kept.inside g.covered) (tidy.kept.sound 2)
    (fun grown' same => by
      cases grown.symm.trans same
      exact ⟨by change 1 < w.nblocks 2; rw [size]; decide, sound⟩)
  have stored : g.dataPos (w.next^[1] (w.head 2)) < g.size := by
    rw [step, Geometry.dataPos, small.inodeblocks, small.fatblocks, small.size]; decide
  have wrote : v.writeBlock g 2 1 nullBlock = some (true, w.setData (w.next^[1] (w.head 2)) nullBlock) := by
    rw [Volume.writeBlock, grown]
    simp only [Option.map_some, stored, if_true]
  change match v.writeBlock g 2 1 nullBlock with
    | some (stored, w) => _
    | none => _ at ran
  simp only [wrote] at ran
  obtain ⟨after, returned, held, failed⟩ := ran
  have longer := Run.snoc (run.mono fun _ _ _ moved => ⟨moved.1.1, moved.2⟩)
    (show Guarded (fun _ call => call.Admissible) Step before (.write 2 1 nullBlock) after from
      ⟨show (1 : BlockNo).toNat < 2 ^ 31 - 1 by decide, _, Prog.bind_done returned, by rw [failed, unfailed]; rfl⟩)
  have taken := (always 1 smallStore created after _ rfl format longer).taken 2 (by rw [held.inodes_eq, inodes]; decide)
  rw [held.chain_eq (by rw [inodes]; decide) sound] at taken
  have member : 256 ∈ nodes w.next w.head w.nblocks 2 :=
    head ▸ step_mem_nodes (show 0 < w.nblocks 2 by rw [size]; decide)
  refine (taken 256 member).2 ?_
  rw [held.volume_next (by rw [Geometry.entries, small.fatblocks]; decide)]
  exact hung

/-- The first three calls of that run leave the chains sound. -/
theorem chains_sound_small : ∃ created calls after, fatdiskCreate 1 smallStore = .done 0 created ∧
    Run (Guarded (fun _ call => call.Admissible) Step) created calls after ∧ calls.length = 3 ∧ ChainsSound after := by
  obtain ⟨_, _, created, after, format, run, _⟩ := small_history
  refine ⟨created, _, after, format, run.mono fun _ _ _ moved => ⟨moved.1.1, moved.2⟩, rfl, ?_⟩
  exact chains_sound rfl format run

end Egos.Fatdisk
