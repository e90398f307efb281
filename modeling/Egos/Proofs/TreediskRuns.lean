import Egos.Proofs.TreediskFormat
import Egos.Proofs.TreediskWrite
import Egos.Library.Transition

/-! What the steps of a session do to the disk. -/

namespace Egos.Treedisk
open Library Library.Prog Library.RefTree

variable {z : BlockSize} {n : BlockNo} {nodes : List BlockNo} {leaked : Multiset BlockNo}
    {s after : State z} {i : UInt32}

def Performed (n : BlockNo) (nodes : List BlockNo) (leaked : Multiset BlockNo) (s after : State z) : Call z → Prop
  | .write i offset block => ∃ more, Stored n nodes leaked i offset block s after more
  | .setsize i count => if count = 0 then ∃ more, Truncated n nodes leaked i s after more else after = s
  | _ => after = s

/-- The call does not end at a block number that wraps around. -/
def Call.Room : Call z → Prop
  | .write _ offset _ => offset + 1 ≠ 0
  | _ => True

/-- The file that is truncated has a root, unless it is empty. -/
def Call.Rooted (s : State z) : Call z → Prop
  | .setsize i count => count = 0 → s.sizeOf i ≠ 0 → s.rootOf i ≠ 0
  | _ => True

namespace Volume
variable (volume : Volume n nodes leaked s)
include volume

/-- Truncating an empty file does nothing. -/
private theorem truncated_empty (inside : i.toNat < n.toNat * z.inodes) (empty : s.sizeOf i = 0) :
    Truncated n nodes leaked i s s nodes := by
  have tree : s.tree i = 0 := by
    unfold State.tree
    rw [volume.empty_root inside empty, cells_null]
  refine ⟨volume, ⟨rfl, rfl, fun _ _ _ _ => rfl, fun _ _ _ => rfl⟩, empty, ?_, fun _ => .inl⟩
  rw [tree, zero_add]

theorem perform_leaves {call : Call z} (inside : call.inode.toNat < n.toNat * z.inodes) (room : call.Room)
    (rooted : call.Rooted s) :
    Leaves call.perform s (fun _ after => Performed n nodes leaked s after call)
      (fun reason after => reason = full →
        ∃ i offset block lost, call = .write i offset block ∧ Aborted n nodes leaked i offset s after lost) := by
  cases call with
  | read i offset buffer =>
    change i.toNat < _ at inside
    by_cases below : offset < s.sizeOf i
    · exact Leaves.bind_returns (volume.read_below inside below buffer) rfl
    · exact Leaves.bind_returns (volume.read_past inside (UInt32.not_lt.mp below) buffer) rfl
  | nblocks i => exact Leaves.bind_returns (volume.nblocks_returns inside) rfl
  | write i offset block =>
    apply Leaves.bind (write_leaves volume inside room block)
    · rintro code after ⟨_, stored⟩
      exact stored
    · rintro reason after ⟨_, lost, aborted⟩ _
      exact ⟨i, offset, block, lost, rfl, aborted⟩
  | setsize i count =>
    change i.toNat < _ at inside
    by_cases same : count = s.sizeOf i
    · subst same
      apply Leaves.bind_returns (setsize_same volume inside)
      change if s.sizeOf i = 0 then _ else _
      split
      · rename_i empty
        exact ⟨nodes, volume.truncated_empty inside empty⟩
      · rfl
    · by_cases zero : count = 0
      · subst zero
        have sets := setsize_ensures volume inside (Ne.symm same) (rooted rfl (Ne.symm same))
        apply Leaves.bind (Leaves.of_ensures sets)
        · rintro answer after ⟨_, truncated⟩
          exact truncated
        · rintro reason after ⟨rfl, _⟩ impossible
          cases impossible
      · apply Leaves.bind_returns (setsize_refused volume inside same zero)
        change if count = 0 then _ else _
        rw [if_neg zero]

end Volume

namespace Step
variable {session next : Session z} {call : Call z}

theorem called (step : Step session (.call call) next) :
    call.inode ∈ session.opened ∧ (∃ answer, call.perform session.disk = .done answer next.disk) ∧
        next.opened = session.opened := by
  unfold Step Session.next at step
  dsimp only at step
  split at step
  · rename_i isOpen
    split at step
    · rename_i answer disk ran
      cases step
      exact ⟨isOpen, ⟨answer, ran⟩, rfl⟩
    · cases step
  · cases step

theorem aborted (step : Step session (.aborts call) next) :
    call.inode ∈ session.opened ∧ call.perform session.disk = .halted full next.disk ∧ next.opened = [] := by
  unfold Step Session.next at step
  dsimp only at step
  split at step
  · rename_i isOpen
    split at step
    · cases step
    · rename_i reason disk ran
      split at step
      · rename_i same
        cases step
        exact ⟨isOpen, same ▸ ran, rfl⟩
      · cases step
  · cases step

end Step

/-- What holds of the disk and the process between two steps. Inodes with one block may lack a root. -/
structure Sound (n : BlockNo) (nodes : List BlockNo) (leaked : Multiset BlockNo) (session : Session z) : Prop where
  volume : Volume n nodes leaked session.disk
  opened : ∀ i ∈ session.opened, i.toNat < n.toNat * z.inodes
  rooted : ∀ i : UInt32, i.toNat < n.toNat * z.inodes → 1 < (session.disk.sizeOf i).toNat → session.disk.rootOf i ≠ 0

namespace Sound
variable {session next : Session z} (sound : Sound n nodes leaked session)
include sound

theorem opens {inodeNo : UInt32} (step : Step session (.opens inodeNo) next) :
    next.disk = session.disk ∧ ∀ i ∈ next.opened, i.toNat < n.toNat * z.inodes := by
  unfold Step Session.next treediskInit at step
  by_cases inside : inodeNo.toNat < n.toNat * z.inodes
  · simp only [bind_done (sound.volume.getSnapshot_returns inside)] at step
    cases step
    exact ⟨rfl, fun i member => (List.mem_cons.mp member).elim (fun same => same ▸ inside) (sound.opened i)⟩
  · simp only [bind_done (sound.volume.getSnapshot_fails (Nat.not_lt.mp inside))] at step
    cases step
    exact ⟨rfl, sound.opened⟩

/-- A call that returns. -/
theorem calls {call : Call z} (room : call.Room) (rooted : call.Rooted session.disk)
    (step : Step session (.call call) next) :
    call.inode.toNat < n.toNat * z.inodes ∧ Performed n nodes leaked session.disk next.disk call ∧
        next.opened = session.opened := by
  obtain ⟨isOpen, ⟨answer, ran⟩, opened⟩ := Step.called step
  have inside := sound.opened _ isOpen
  exact ⟨inside, (sound.volume.perform_leaves inside room rooted).done ran, opened⟩

/-- A call that finds the store full. -/
theorem aborts {call : Call z} (room : call.Room) (rooted : call.Rooted session.disk)
    (step : Step session (.aborts call) next) :
    call.inode.toNat < n.toNat * z.inodes ∧ next.opened = [] ∧
      ∃ i offset block lost, call = .write i offset block ∧
          Aborted n nodes leaked i offset session.disk next.disk lost := by
  obtain ⟨isOpen, ran, opened⟩ := Step.aborted step
  have inside := sound.opened _ isOpen
  exact ⟨inside, opened, (sound.volume.perform_leaves inside room rooted).halted ran rfl⟩

end Sound

/-- What is left of `Sound` after a call that returned. -/
theorem Performed.volume {call : Call z} (performed : Performed n nodes leaked s after call)
    (volume : Volume n nodes leaked s) :
    ∃ more, Volume n more leaked after := by
  cases call with
  | read | nblocks => exact performed ▸ ⟨nodes, volume⟩
  | write i offset block =>
    obtain ⟨more, stored⟩ := performed
    exact ⟨more, stored.volume⟩
  | setsize i count =>
    change if count = 0 then _ else _ at performed
    split at performed
    · obtain ⟨more, truncated⟩ := performed
      exact ⟨more, truncated.volume⟩
    · exact performed ▸ ⟨nodes, volume⟩

/-- Files with several blocks have a root. -/
private theorem rooted_other {j : UInt32} (differs : Local j nodes s after) (volume : Volume n nodes leaked s)
    (rooted : ∀ i : UInt32, i.toNat < n.toNat * z.inodes → 1 < (s.sizeOf i).toNat → s.rootOf i ≠ 0)
    (inside : j.toNat < n.toNat * z.inodes) (mine : 1 < (after.sizeOf j).toNat → after.rootOf j ≠ 0) :
    ∀ i : UInt32, i.toNat < n.toNat * z.inodes → 1 < (after.sizeOf i).toNat → after.rootOf i ≠ 0 := by
  intro i known several
  by_cases same : i = j
  · subst same
    exact mine several
  · rw [differs.rootOf_other volume known inside same]
    rw [differs.sizeOf_other volume known inside same] at several
    exact rooted i known several

theorem Performed.rooted {call : Call z} (performed : Performed n nodes leaked s after call)
    (volume : Volume n nodes leaked s)
    (inside : call.inode.toNat < n.toNat * z.inodes)
    (rooted : ∀ i : UInt32, i.toNat < n.toNat * z.inodes → 1 < (s.sizeOf i).toNat → s.rootOf i ≠ 0) :
    ∀ i : UInt32, i.toNat < n.toNat * z.inodes → 1 < (after.sizeOf i).toNat → after.rootOf i ≠ 0 := by
  cases call with
  | read | nblocks => exact performed ▸ rooted
  | write i offset block =>
    obtain ⟨more, stored⟩ := performed
    exact rooted_other stored.differs volume rooted inside fun _ => stored.rooted
  | setsize i count =>
    change if count = 0 then _ else _ at performed
    split at performed
    · obtain ⟨more, truncated⟩ := performed
      refine rooted_other truncated.differs volume rooted inside fun several => ?_
      rw [truncated.size] at several
      cases several
    · exact performed ▸ rooted

/-- Blocks are freed in the data area only. -/
theorem Performed.freed {call : Call z} (performed : Performed n nodes leaked s after call) :
    ∀ t ∈ after.freed, t ∈ s.freed ∨ n < t ∧ t < s.below.size := by
  cases call with
  | read | nblocks => exact performed ▸ fun t => .inl
  | write i offset block =>
    obtain ⟨more, stored⟩ := performed
    exact stored.freed ▸ fun t => .inl
  | setsize i count =>
    change if count = 0 then _ else _ at performed
    split at performed
    · obtain ⟨more, truncated⟩ := performed
      exact truncated.freed
    · exact performed ▸ fun t => .inl

theorem Performed.size {call : Call z} (performed : Performed n nodes leaked s after call) :
    after.below.size = s.below.size := by
  cases call with
  | read | nblocks => exact congrArg (fun s : State z => s.below.size) performed
  | write i offset block =>
    obtain ⟨more, stored⟩ := performed
    exact stored.differs.size
  | setsize i count =>
    change if count = 0 then _ else _ at performed
    split at performed
    · obtain ⟨more, truncated⟩ := performed
      exact truncated.differs.size
    · exact congrArg (fun s : State z => s.below.size) performed

/-- No block number wraps around, and no file that has blocks but no root is truncated. -/
def Careful (session : Session z) : Event z → Prop
  | .opens _ => True
  | .call call | .aborts call => call.Room ∧ call.Rooted session.disk

/-- Steps keep the file system, also those that end the process. -/
theorem Sound.step {session next : Session z} {event : Event z} (sound : Sound n nodes leaked session)
    (careful : Careful session event) (step : Step session event next) :
    (∃ more lost, Sound n more lost next) ∧ next.disk.below.size = session.disk.below.size ∧
      ∀ t ∈ next.disk.freed, t ∈ session.disk.freed ∨ n < t ∧ t < session.disk.below.size := by
  cases event with
  | opens inodeNo =>
    obtain ⟨same, opened⟩ := sound.opens step
    refine ⟨⟨nodes, leaked, ?_, opened, ?_⟩, congrArg (fun s : State z => s.below.size) same, ?_⟩
    · exact same ▸ sound.volume
    · exact same ▸ sound.rooted
    · exact same ▸ fun t => .inl
  | call call =>
    obtain ⟨inside, performed, opened⟩ := sound.calls careful.1 careful.2 step
    obtain ⟨more, volume⟩ := performed.volume sound.volume
    exact ⟨⟨more, leaked, volume, opened ▸ sound.opened, performed.rooted sound.volume inside sound.rooted⟩,
      performed.size, performed.freed⟩
  | aborts call =>
    obtain ⟨inside, opened, i, offset, block, lost, rfl, aborted⟩ := sound.aborts careful.1 careful.2 step
    have known : ∀ j ∈ next.opened, j.toNat < n.toNat * z.inodes := by
      rw [opened]
      exact fun _ none => absurd none List.not_mem_nil
    refine ⟨⟨[], _, aborted.volume, known, ?_⟩, aborted.differs.size, aborted.freed ▸ fun t => .inl⟩
    exact rooted_other aborted.differs sound.volume sound.rooted inside (aborted.rooted (sound.rooted i inside))

/-- The process that has formatted the store. -/
theorem Formatted.sound {nodes : List BlockNo} {start created : State z} (formatted : Formatted n nodes start created) :
    Sound n nodes 0 ⟨created, []⟩ := by
  refine ⟨formatted.volume, fun _ none => absurd none List.not_mem_nil, fun i inside several => ?_⟩
  rw [formatted.empty i inside] at several
  cases several

def Session.on (nInodes : UInt32) (store : Store z) : Option (Session z) :=
  match treediskCreate nInodes ⟨store, []⟩ with
  | .done _ disk => some ⟨disk, []⟩
  | .halted .. => none

theorem Session.on_formats {nInodes : UInt32} {store : Store z}
    (room : (inodeBlocks z nInodes).toNat + 2 ≤ store.size.toNat)
    (clear : nInodeblocks (store.block 0) = 0) :
    ∃ created, treediskCreate nInodes ⟨store, []⟩ = .done 0 created ∧
        Session.on nInodes store = some ⟨created, []⟩ := by
  obtain ⟨code, created, ran, rfl, _⟩ := (@create_ensures z nInodes ⟨store, []⟩ room clear).total
  refine ⟨created, ran, ?_⟩
  unfold Session.on
  rw [ran]

def sampleStore : Store .small := { size := 8, block := fun _ => nullBlock, reported := by decide }

/-- A store that looks formatted and has a file of five blocks. -/
def presetStore : Store .small :=
  { size := 8, block := fun b => if b = 0 then setRef nullBlock 0 1 else if b =
    1 then setRef nullBlock 1 5 else nullBlock,
    reported := by decide }

end Egos.Treedisk
