import Egos.Proofs.TreediskRuns

/-! Every inode is an array of blocks with holes. The array is what the calls on this inode
alone make of it, and the disk holds it whatever the calls on other inodes are. -/

namespace Egos.Treedisk
open Library Library.Prog Library.RefTree

variable {z : BlockSize}

structure File (z : BlockSize) where
  extent : Nat
  block : BlockNo → Block z

namespace File

def empty : File z := { extent := 0, block := fun _ => nullBlock }

def write (file : File z) (offset : BlockNo) (block : Block z) : File z :=
  { extent := max file.extent (offset.toNat + 1), block := Function.update file.block offset block }

/-- Only truncation to nothing changes a size downwards. -/
def setsize (file : File z) (nblocks : BlockNo) : File z := if nblocks = 0 then empty else file

def after (file : File z) : Call z → File z
  | .write _ offset block => file.write offset block
  | .setsize _ nblocks => file.setsize nblocks
  | .read .. | .nblocks _ => file

end File

/-- Blocks are written below the limit of the trace layer. -/
def Call.Low : Call z → Prop
  | .write _ offset _ => offset.toNat < 2 ^ 27
  | _ => True

theorem room_of_low {offset : BlockNo} (low : offset.toNat < 2 ^ 27) : offset + 1 ≠ 0 := by
  intro zero
  have value := congrArg UInt32.toNat zero
  rw [UInt32.toNat_add, UInt32.toNat_one, Nat.mod_eq_of_lt (by omega)] at value
  exact Nat.succ_ne_zero _ value

structure Files (n : BlockNo) (files : UInt32 → File z) (s : State z) : Prop where
  volume : ∃ nodes, Volume n nodes 0 s
  extent : ∀ i : UInt32, i.toNat < n.toNat * z.inodes → (s.sizeOf i).toNat = (files i).extent
  block : ∀ i : UInt32, i.toNat < n.toNat * z.inodes →
    ∀ offset : BlockNo, s.dataAt i offset.toNat = (files i).block offset
  rooted : ∀ i : UInt32, i.toNat < n.toNat * z.inodes → s.sizeOf i ≠ 0 → s.rootOf i ≠ 0
  small : ∀ i : UInt32, i.toNat < n.toNat * z.inodes → (files i).extent ≤ 2 ^ 27

namespace Files
variable {n : BlockNo} {files : UInt32 → File z} {s after : State z} {i : UInt32}

/-- One file has changed. -/
private theorem change {nodes more : List BlockNo} {file : File z} (held : Files n files s)
    (volume : Volume n nodes 0 s)
    (inside : i.toNat < n.toNat * z.inodes) (differs : Local i nodes s after) (kept : Volume n more 0 after)
    (extent : (after.sizeOf i).toNat = file.extent)
    (block : ∀ offset : BlockNo, after.dataAt i offset.toNat = file.block offset)
    (rooted : after.sizeOf i ≠ 0 → after.rootOf i ≠ 0) (small : file.extent ≤ 2 ^ 27) :
    Files n (Function.update files i file) after := by
  refine ⟨⟨more, kept⟩, fun j known => ?_, fun j known offset => ?_, fun j known => ?_, fun j known => ?_⟩
  all_goals by_cases same : j = i
  · subst same
    rw [Function.update_self, extent]
  · rw [Function.update_of_ne same, differs.sizeOf_other volume known inside same, held.extent j known]
  · subst same
    rw [Function.update_self, block]
  · rw [Function.update_of_ne same, differs.dataAt_other volume known inside same, held.block j known]
  · subst same
    exact rooted
  · rw [differs.sizeOf_other volume known inside same, differs.rootOf_other volume known inside same]
    exact held.rooted j known
  · subst same
    rw [Function.update_self]
    exact small
  · rw [Function.update_of_ne same]
    exact held.small j known

section Calls
variable (held : Files n files s) (inside : i.toNat < n.toNat * z.inodes)
include held inside

theorem nblocks : ∃ size : BlockNo, size.toNat = (files i).extent ∧ treediskNblocks i s = .done (some size) s := by
  obtain ⟨nodes, volume⟩ := held.volume
  exact ⟨s.sizeOf i, held.extent i inside, volume.nblocks_returns inside⟩

theorem read (offset : BlockNo) (buffer : Block z) : treediskRead i offset buffer s =
    .done (if offset.toNat < (files i).extent then (0, (files i).block offset) else (-1, buffer)) s := by
  obtain ⟨nodes, volume⟩ := held.volume
  have extent := held.extent i inside
  by_cases below : offset < s.sizeOf i
  · have less : offset.toNat < (files i).extent := extent ▸ UInt32.lt_iff_toNat_lt.mp below
    rw [if_pos less, volume.read_below inside below, held.block i inside]
  · have notLess : ¬ offset.toNat < (files i).extent := extent ▸ mt UInt32.lt_iff_toNat_lt.mpr below
    rw [if_neg notLess, volume.read_past inside (UInt32.not_lt.mp below)]

theorem write {offset : BlockNo} (low : offset.toNat < 2 ^ 27) (data : Block z) :
    Leaves (treediskWrite i offset data) s
      (fun code after => code = 0 ∧ Files n (Function.update files i ((files i).write offset data)) after)
      (fun reason _ => reason = full) := by
  obtain ⟨nodes, volume⟩ := held.volume
  have room := room_of_low low
  apply (write_leaves volume inside room data).weaken
  · rintro code after ⟨zero, more, stored⟩
    have size : (after.sizeOf i).toNat = ((files i).write offset data).extent := by
      rw [stored.size, grown_toNat room, held.extent i inside]
      rfl
    refine ⟨zero, held.change volume inside stored.differs stored.volume size (fun o => ?_) (fun _ => stored.rooted) ?_⟩
    · change after.dataAt i o.toNat = Function.update (files i).block offset data o
      by_cases same : o = offset
      · rw [same, Function.update_self]
        exact stored.here
      · rw [Function.update_of_ne same, stored.others _ fun equal => same (UInt32.toNat_inj.mp equal)]
        exact held.block i inside o
    · exact Nat.max_le.mpr ⟨held.small i inside, low⟩
  · rintro reason after ⟨stopped, _⟩
    exact stopped

/-- A file of size 0 is the empty array. -/
private theorem empty_file (empty : s.sizeOf i = 0) : files i = File.empty := by
  obtain ⟨nodes, volume⟩ := held.volume
  have extent := held.extent i inside
  rw [empty] at extent
  have block : (files i).block = fun _ => nullBlock := by
    funext offset
    rw [← held.block i inside]
    unfold State.dataAt
    rw [volume.empty_root inside empty]
    exact view_null _ _ _
  calc files i = ⟨(files i).extent, (files i).block⟩ := rfl
    _ = File.empty := by rw [← extent, block]; rfl

theorem setsize (count : BlockNo) : Ensures (Overflows z (s.sizeOf i)) (treediskSetsize i count) s fun answer after =>
    answer = (if count.toNat = (files i).extent then some count else if count = 0 then some 0 else none) ∧
      Files n (Function.update files i ((files i).setsize count)) after := by
  obtain ⟨nodes, volume⟩ := held.volume
  have extent := held.extent i inside
  by_cases same : count = s.sizeOf i
  · have idle : (files i).setsize count = files i := by
      unfold File.setsize
      split
      · rename_i zero
        exact (held.empty_file inside (same ▸ zero)).symm
      · rfl
    rw [idle, Function.update_eq_self, if_pos (same ▸ extent), same]
    exact Ensures.returns (setsize_same volume inside) ⟨rfl, held⟩
  · have apart : count.toNat ≠ (files i).extent := fun equal => same (UInt32.toNat_inj.mp (equal.trans extent.symm))
    rw [if_neg apart]
    by_cases zero : count = 0
    · subst zero
      have some := Ne.symm same
      apply (setsize_ensures volume inside some (held.rooted i inside some)).weaken
      rintro answer after ⟨zero, more, truncated⟩
      have root := truncated.volume.empty_root inside truncated.size
      refine ⟨zero, held.change volume inside truncated.differs truncated.volume ?_
        (fun offset => ?_) ?_ (Nat.zero_le _)⟩
      · rw [truncated.size]
        rfl
      · unfold State.dataAt
        rw [root]
        exact view_null _ _ _
      · exact fun nonzero => absurd truncated.size nonzero
    · have idle : (files i).setsize count = files i := if_neg zero
      rw [idle, Function.update_eq_self, if_neg zero]
      exact Ensures.returns (setsize_refused volume inside same zero) ⟨rfl, held⟩

end Calls

/-- With 512-byte blocks truncation returns. -/
theorem setsize_total {files : UInt32 → File .small} {s : State .small} (held : Files n files s)
    (inside : i.toNat < n.toNat * BlockSize.small.inodes) (count : BlockNo) :
    Ensures (fun _ => False) (treediskSetsize i count) s fun answer after =>
      answer = (if count.toNat = (files i).extent then some count else if count = 0 then some 0 else none) ∧
        Files n (Function.update files i ((files i).setsize count)) after := by
  have limit : (s.sizeOf i).toNat ≤ BlockSize.small.refs ^ BlockSize.small.top := by
    rw [held.extent i inside]
    exact Nat.le_trans (held.small i inside) (by decide)
  apply (held.setsize inside count).stops_mono
  rintro reason ⟨_, endless⟩
  obtain ⟨found, ended⟩ := capacityLoop_ends .small limit
  rw [endless] at ended
  cases ended

theorem perform {call : Call z} (held : Files n files s) (inside : call.inode.toNat < n.toNat * z.inodes)
    (low : call.Low) : Leaves call.perform s
      (fun _ after => Files n (Function.update files call.inode ((files call.inode).after call)) after)
          (fun _ _ => True) := by
  have idle : Function.update files call.inode (files call.inode) = files := Function.update_eq_self _ _
  cases call with
  | read i offset buffer =>
    apply Leaves.bind_returns (held.read inside offset buffer)
    exact Eq.mpr (congrArg (fun files => Files n files s) idle) held
  | nblocks i =>
    obtain ⟨size, _, counts⟩ := held.nblocks inside
    apply Leaves.bind_returns counts
    exact Eq.mpr (congrArg (fun files => Files n files s) idle) held
  | write i offset block =>
    apply Leaves.bind (held.write inside low block)
    · rintro code after ⟨_, written⟩
      exact written
    · exact fun _ _ _ => trivial
  | setsize i count =>
    apply Leaves.bind (Leaves.of_ensures (held.setsize inside count))
    · rintro answer after ⟨_, sized⟩
      exact sized
    · exact fun _ _ _ => trivial

end Files

/-- What the calls on one inode make of an empty file. -/
def fileOf (i : UInt32) (events : List (Event z)) : File z :=
  events.foldl (fun file event => match event with
    | .call call => if call.inode = i then file.after call else file
    | .opens _ | .aborts _ => file) .empty

/-- Steps that return, with block numbers below the limit of the trace layer. -/
def Within (_ : Session z) : Event z → Prop
  | .opens _ => True
  | .call call => call.Low
  | .aborts _ => False

instance (session : Session z) (event : Event z) : Decidable (Within session event) :=
  match event with
  | .opens _ => isTrue trivial
  | .call (.write _ offset _) => inferInstanceAs (Decidable (offset.toNat < 2 ^ 27))
  | .call (.read ..) | .call (.nblocks _) | .call (.setsize ..) => isTrue trivial
  | .aborts _ => isFalse id

private theorem fileOf_call (events : List (Event z)) (call : Call z) :
    (fun i => fileOf i (events ++ [.call call])) =
      Function.update (fun i => fileOf i events) call.inode ((fileOf call.inode events).after call) := by
  funext i
  unfold fileOf
  rw [List.foldl_append]
  by_cases mine : call.inode = i
  · subst mine
    rw [Function.update_self]
    exact if_pos rfl
  · rw [Function.update_of_ne (Ne.symm mine)]
    exact if_neg mine

private theorem fileOf_opens (events : List (Event z)) (inodeNo i : UInt32) :
    fileOf i (events ++ [.opens inodeNo]) = fileOf i events := by
  unfold fileOf
  rw [List.foldl_append]
  rfl

theorem Files.sound_at {n : BlockNo} {nodes : List BlockNo} {files : UInt32 → File z} {session : Session z}
    (held : Files n files session.disk) (opened : ∀ i ∈ session.opened, i.toNat < n.toNat * z.inodes)
    (volume : Volume n nodes 0 session.disk) :
    Sound n nodes 0 session := by
  refine ⟨volume, opened, fun i inside several => held.rooted i inside ?_⟩
  intro zero
  rw [zero] at several
  cases several

/-- Calls below the limit meet the conditions for keeping the file system. -/
theorem Files.careful {n : BlockNo} {files : UInt32 → File z} {s : State z} {call : Call z} (held : Files n files s)
    (inside : call.inode.toNat < n.toNat * z.inodes) (low : call.Low) : call.Room ∧ call.Rooted s := by
  cases call with
  | read | nblocks => exact ⟨trivial, trivial⟩
  | write i offset block => exact ⟨room_of_low low, trivial⟩
  | setsize i count => exact ⟨trivial, fun _ => held.rooted i inside⟩

theorem Formatted.files {n : BlockNo} {nodes : List BlockNo} {start created : State z}
    (formatted : Formatted n nodes start created) :
    Files n (fun _ => File.empty) created := by
  refine ⟨⟨nodes, formatted.volume⟩, fun i inside => ?_, fun i inside offset => ?_, fun i inside some => ?_,
    fun _ _ => Nat.zero_le _⟩
  · rw [formatted.empty i inside]
    rfl
  · unfold State.dataAt
    rw [formatted.volume.empty_root inside (formatted.empty i inside)]
    exact view_null _ _ _
  · exact absurd (formatted.empty i inside) some

theorem files_of_run {n : BlockNo} {nodes : List BlockNo} {start created : State z}
    (formatted : Formatted n nodes start created)
    {events : List (Event z)} {session : Session z} (run : Run (Guarded Within Step) ⟨created, []⟩ events session) :
    Files n (fun i => fileOf i events) session.disk ∧ (∀ i ∈ session.opened, i.toNat < n.toNat * z.inodes) ∧
      session.disk.below.size = created.below.size := by
  have kept : ∀ (events : List (Event z)) (before : Session z) (event : Event z) (after : Session z),
      (Files n (fun i => fileOf i events) before.disk ∧ (∀ i ∈ before.opened, i.toNat < n.toNat * z.inodes) ∧
        before.disk.below.size = created.below.size) →
      Guarded Within Step before event after → Files n (fun i => fileOf i (events ++ [event])) after.disk ∧
        (∀ i ∈ after.opened, i.toNat < n.toNat * z.inodes) ∧ after.disk.below.size = created.below.size := by
    rintro events before event after ⟨held, opened, size⟩ ⟨within, step⟩
    obtain ⟨nodes, volume⟩ := held.volume
    have sound := held.sound_at opened volume
    cases event with
    | opens inodeNo =>
      obtain ⟨same, opened⟩ := sound.opens step
      rw [same, funext (fileOf_opens events inodeNo)]
      exact ⟨held, opened, size⟩
    | call call =>
      obtain ⟨isOpen, ⟨answer, ran⟩, same⟩ := Step.called step
      have inside := opened _ isOpen
      obtain ⟨room, rooted⟩ := held.careful inside within
      obtain ⟨_, performed, _⟩ := sound.calls room rooted step
      rw [fileOf_call, same, performed.size]
      exact ⟨(held.perform inside within).done ran, opened, size⟩
    | aborts call => exact within.elim
  exact run.history kept ⟨formatted.files, fun _ none => absurd none List.not_mem_nil, rfl⟩

end Egos.Treedisk
