import Egos.Proofs.TreediskRuns

/-! Writes that end in the middle because the store is full. What they leave on disk is a
file system again, except that a file may have a size of one block and no root. -/

namespace Egos.Treedisk
open Library Library.Prog Library.RefTree

variable {z : BlockSize}

/-- What could be read before a write that found the store full can be read after it. -/
private theorem Aborted.reads {n : BlockNo} {nodes : List BlockNo} {leaked lost : Multiset BlockNo}
    {s after : State z} {i j : UInt32}
    {offset at_ : BlockNo} (aborted : Aborted n nodes leaked j at_ s after lost) (volume : Volume n nodes leaked s)
    (inside : j.toNat < n.toNat * z.inodes) (room : at_ + 1 ≠ 0) {buffer data : Block z}
    (reads : treediskRead i offset buffer s = .done (0, data) s) :
    treediskRead i offset buffer after = .done (0, data) after := by
  by_cases known : i.toNat < n.toNat * z.inodes
  · by_cases below : offset < s.sizeOf i
    · rw [volume.read_below known below] at reads
      have found : s.dataAt i offset.toNat = data := by
        cases reads
        rfl
      by_cases same : i = j
      · subst same
        have later : offset < after.sizeOf i := by
          rcases aborted.size with kept | grew
          · rw [kept]
            exact below
          · rw [UInt32.lt_iff_toNat_lt] at below ⊢
            rw [grew, grown_toNat room]
            exact Nat.lt_of_lt_of_le below (Nat.le_max_left _ _)
        rw [aborted.volume.read_below known later, aborted.data, found]
      · have later : offset < after.sizeOf i := by
          rw [aborted.differs.sizeOf_other volume known inside same]
          exact below
        rw [aborted.volume.read_below known later, aborted.differs.dataAt_other volume known inside same, found]
    · rw [volume.read_past known (UInt32.not_lt.mp below)] at reads
      cases reads
  · unfold treediskRead at reads
    rw [bind_done (volume.getSnapshot_fails (Nat.not_lt.mp known))] at reads
    cases reads

/-- In every run in which no file without root is truncated, all blocks that are freed are in the data
area, the file system stays one, and a write that ends in the middle does not change what can be read. -/
theorem aborts_harmless {nInodes : UInt32} {store : Store z} {created : State z} {events : List (Event z)}
    {session : Session z}
    (clear : nInodeblocks (store.block 0) = 0) (format : treediskCreate nInodes ⟨store, []⟩ = .done 0 created)
    (run : Run (Guarded Careful Step) ⟨created, []⟩ events session) :
    (∀ t ∈ session.disk.freed, inodeBlocks z nInodes < t ∧ t < store.size) ∧
      (∃ nodes leaked, Volume (inodeBlocks z nInodes) nodes leaked session.disk) ∧
      ∀ call next, Guarded Careful Step session (.aborts call) next → ∀ i offset buffer data,
        treediskRead i offset buffer session.disk = .done (0, data) session.disk →
          treediskRead i offset buffer next.disk = .done (0, data) next.disk := by
  obtain ⟨first, formatted⟩ := @formatted_of_create z nInodes ⟨store, []⟩ created clear format
  have kept : ∀ (before : Session z) (event : Event z) (after : Session z),
    (∃ nodes leaked, Sound (inodeBlocks z nInodes) nodes leaked before) ∧
      before.disk.below.size = store.size ∧ (∀ t ∈ before.disk.freed, inodeBlocks z nInodes < t ∧ t < store.size) →
      Guarded Careful Step before event after → (∃ nodes leaked, Sound (inodeBlocks z nInodes) nodes leaked after) ∧
      after.disk.below.size = store.size ∧ ∀ t ∈ after.disk.freed, inodeBlocks z nInodes < t ∧ t < store.size := by
    rintro before event after ⟨⟨nodes, leaked, sound⟩, size, freed⟩ ⟨careful, step⟩
    obtain ⟨sound, same, more⟩ := sound.step careful step
    exact ⟨sound, same.trans size, fun t member => (more t member).elim (freed t) fun area => size ▸ area⟩
  have start : ∀ t ∈ created.freed, inodeBlocks z nInodes < t ∧ t < store.size := by
    rw [formatted.freed]
    exact fun _ none => absurd none List.not_mem_nil
  obtain ⟨⟨nodes, leaked, sound⟩, _, freed⟩ := run.invariant kept ⟨⟨first, 0, formatted.sound⟩, formatted.size, start⟩
  refine ⟨freed, ⟨nodes, leaked, sound.volume⟩, ?_⟩
  rintro call next ⟨careful, step⟩ i offset buffer data reads
  obtain ⟨inside, _, j, at_, block, lost, rfl, aborted⟩ := sound.aborts careful.1 careful.2 step
  exact aborted.reads sound.volume inside careful.1 reads

instance (call : Call z) : Decidable call.Room :=
  match call with
  | .write _ offset _ => inferInstanceAs (Decidable (offset + 1 ≠ 0))
  | .read .. | .nblocks _ | .setsize .. => isTrue trivial

instance (s : State z) (call : Call z) : Decidable (call.Rooted s) :=
  match call with
  | .setsize i count => inferInstanceAs (Decidable (count = 0 → s.sizeOf i ≠ 0 → s.rootOf i ≠ 0))
  | .read .. | .nblocks _ | .write .. => isTrue trivial

instance (session : Session z) (event : Event z) : Decidable (Careful session event) :=
  match event with
  | .opens _ => isTrue trivial
  | .call call | .aborts call => inferInstanceAs (Decidable (call.Room ∧ call.Rooted session.disk))

/-- A store of three blocks: with one inode block there is one block for data. -/
def tinyStore : Store .small := { size := 3, block := fun _ => nullBlock, reported := by decide }

/-- The second file gets a size but no root, and then the first one gives back its block. -/
def fillingEvents : List (Event .small) :=
  [.opens 0, .opens 1, .call (.write 0 0 fun _ => 7), .aborts (.write 1 0 fun _ => 8), .opens 0, .opens 1,
    .call (.setsize 0 0)]

theorem aborts_harmless_tiny : ∃ created session, treediskCreate 1 ⟨tinyStore, []⟩ = .done 0 created ∧
    Run (Guarded Careful Step) ⟨created, []⟩ fillingEvents session ∧
        ∀ t ∈ session.disk.freed, inodeBlocks .small 1 < t ∧ t < 3 := by
  obtain ⟨created, format, same⟩ := @Session.on_formats .small 1 tinyStore (by decide +kernel) rfl
  have ran : ((Session.on 1 tinyStore).bind fun start => fillingEvents.foldlM
    (fun s event => if Careful s event then s.next event else none) start).isSome =
      true := by decide +kernel
  rw [same, Option.bind_some] at ran
  obtain ⟨session, reached⟩ := Option.isSome_iff_exists.mp ran
  have run : Run (Guarded Careful Step) ⟨created, []⟩ fillingEvents session := by
    refine Run.of_foldlM ?_ reached
    intro before event after moved
    exact Option.ite_none_right_eq_some.mp moved
  exact ⟨created, session, format, run, (aborts_harmless rfl format run).1⟩

def freeingEvents : List (Event .small) := fillingEvents ++ [.call (.setsize 1 0)]

theorem frees_superblock : ∃ created session, treediskCreate 1 ⟨tinyStore, []⟩ = .done 0 created ∧
    Run Step ⟨created, []⟩ freeingEvents session ∧ 0 ∈ session.disk.freed ∧ nInodeblocks (session.disk.mem 0) = 0 := by
  obtain ⟨created, format, same⟩ := @Session.on_formats .small 1 tinyStore (by decide +kernel) rfl
  have ran : (((Session.on 1 tinyStore).bind fun start => freeingEvents.foldlM Session.next start).any fun session =>
      decide (0 ∈ session.disk.freed ∧ nInodeblocks (session.disk.mem 0) = 0)) = true := by decide +kernel
  rw [same, Option.bind_some] at ran
  cases reached : freeingEvents.foldlM Session.next ⟨created, []⟩ with
  | none =>
    rw [reached] at ran
    cases ran
  | some session =>
    rw [reached] at ran
    exact ⟨created, session, format, Run.of_foldlM id reached, of_decide_eq_true ran⟩

end Egos.Treedisk
