import Egos.Proofs.FatdiskLayout

/-! When fatdisk_alloc finds the disk full. Its search starts at the free pointer and ends
before it comes back to the FAT block it started in, so that it never gets to the entries
before the pointer in this block. -/

namespace Egos.Fatdisk
open Library Disk

namespace State
variable (state : State)

/-- The entry is free, and it is not the one that fatdisk_alloc hands out. -/
def Spare (entry : Nat) : Prop := state.Free entry ∧ entry ≠ state.volume.free

/-- The entry stands before the free pointer in the FAT block of the pointer. -/
def Skipped (entry : Nat) : Prop := state.volume.free / 256 * 256 ≤ entry ∧ entry < state.volume.free

/-- fatdisk_alloc returns if an entry is left for the free pointer. -/
def AllocCompletes : Prop :=
  (∃ entry, state.Spare entry) → ∀ snapshot : Snapshot, snapshot.superblock = state.below.block 0 →
  ∃ value after, fatdiskAlloc snapshot state = .done value after

end State

/-- Formatting, then calls that return: no write at the last offset, none that hangs entry 0 behind another entry. -/
abbrev Used (created : State) (calls : List Call) (after : State) : Prop :=
  Run (Guarded (fun state call => call.Fits ∧ ¬ LinksZero state call) Returns) created calls after

theorem tidy_of_used {nInodes : UInt32} {initial created after : State} {calls : List Call}
    (clear : nInodeblocks (initial.below.block 0) = 0) (format : fatdiskCreate nInodes initial = .done 0 created)
    (used : Used created calls after) : ∃ g, Formats g nInodes initial.below ∧ ∃ v, Tidy g v after := by
  obtain ⟨g, formats, tidy⟩ := tidy_created clear format
  have kept : ∀ before call next, (∃ v, Tidy g v before) →
      Guarded (fun state call => call.Fits ∧ ¬ LinksZero state call) Returns before call next → ∃ v, Tidy g v next := by
    rintro before call next ⟨v, tidy⟩ ⟨⟨fits, guard⟩, returned⟩
    exact tidy.step fits guard returned
  exact ⟨g, formats, Run.invariant kept used ⟨_, tidy⟩⟩

section Search
variable {g : Geometry} {v : Volume} {state : State}

theorem mem_scanOrder {start entry : Nat} :
    entry ∈ scanOrder g start ↔ (start ≤ entry ∧ entry < g.entries) ∨ entry < start / 256 * 256 := by
  unfold scanOrder
  rw [List.mem_append, List.mem_range'_1, List.mem_range'_1]
  omega

/-- The search finds an entry if and only if a free one is not among those it skips. -/
theorem Represents.nextFree_isSome (held : Represents g v state) (pointer : v.free < g.entries) :
    (v.nextFree g).isSome ↔ ∃ entry, state.Spare entry ∧ ¬ state.Skipped entry := by
  have free : state.volume.free = v.free := held.free
  unfold Volume.nextFree State.Spare State.Skipped
  rw [List.find?_isSome, free]
  refine exists_congr fun entry => ?_
  rw [mem_scanOrder, beq_iff_eq, held.free_iff]
  by_cases same : entry = v.free
  · subst same
    rw [Function.update_self]
    exact ⟨fun found => absurd found.2 EOF_ne_zero, fun spare => absurd rfl spare.1.2⟩
  · rw [Function.update_of_ne same]
    omega

theorem Represents.completes_iff (held : Represents g v state) (pointer : v.free < g.entries) :
    state.AllocCompletes ↔ ((∃ entry, state.Spare entry) → ∃ entry, state.Spare entry ∧ ¬ state.Skipped entry) := by
  unfold State.AllocCompletes
  refine imp_congr_right fun _ => ?_
  rw [← held.nextFree_isSome pointer]
  constructor
  · intro completes
    obtain ⟨value, after, returned⟩ := completes ⟨state.below.block 0, nullBlock, 0, 0⟩ rfl
    have ran := @fatdiskAlloc_run g v state held pointer ⟨state.below.block 0, nullBlock, 0, 0⟩ rfl
    cases found : v.nextFree g with
    | some free => rfl
    | none =>
      rw [Volume.alloc, found] at ran
      obtain ⟨stopped, halted⟩ := ran
      cases returned.symm.trans halted
  · intro found snapshot fresh
    obtain ⟨free, here⟩ := Option.isSome_iff_exists.mp found
    have ran := fatdiskAlloc_run held pointer fresh
    rw [Volume.alloc, here] at ran
    obtain ⟨moved, returned, _⟩ := ran
    exact ⟨_, moved, returned⟩

end Search

/-- In every run on a freshly formatted store fatdisk_alloc returns while an entry is left for the
free pointer, if and only if not all such entries are among those the search skips. -/
theorem allocCompletes_iff {nInodes : UInt32} {initial created after : State} {calls : List Call}
    (clear : nInodeblocks (initial.below.block 0) = 0) (format : fatdiskCreate nInodes initial = .done 0 created)
    (used : Used created calls after) :
    after.AllocCompletes ↔ ((∃ entry, after.Spare entry) → ∃ entry, after.Spare entry ∧ ¬ after.Skipped entry) := by
  obtain ⟨g, _, v, tidy⟩ := tidy_of_used clear format used
  exact tidy.held.completes_iff (Nat.lt_of_lt_of_le tidy.kept.inside g.covered)

/-! A store of 5 blocks has one FAT block, with three entries. -/

def tinyStore : State where
  below := { size := 5, block := fun _ => nullBlock, reported := by decide }
  fatblocks := 0
  failed := false

/-- Two files of one block each, of which the first is truncated: its entry is behind the free pointer. -/
def tinyCalls : List Call := [.write 0 0 nullBlock, .write 1 0 nullBlock, .setsize 0 0]

private theorem tiny_history :
    ∃ created after, fatdiskCreate 1 tinyStore = .done 0 created ∧ Used created tinyCalls after ∧
    after.volume.free = 2 ∧ ∀ entry, after.Free entry ↔ entry = 0 ∨ entry = 2 := by
  obtain ⟨g, created, format, formats, held, _⟩ := @fatdiskCreate_run tinyStore 1 rfl (by decide)
  have inodeblocks : g.inodeblocks = 1 := formats.inodeblocks
  have size : g.size = 5 := formats.size
  obtain ⟨fatblocks, usable⟩ : g.fatblocks = 1 ∧ g.usable = 3 := by
    have within := g.within
    have covered := g.covered
    have tight := formats.tight
    have filled := formats.filled
    have even := formats.even
    omega
  have entries : g.entries = 256 := by rw [Geometry.entries, fatblocks]
  have inodes : g.inodes = 128 := by rw [Geometry.inodes, inodeblocks]
  have tidy := tidy_formatted held
  have fresh := formatted_fresh g tinyStore.below.block
  obtain ⟨v₁, s₁, returned₁, tidy₁, fresh₁, _, free₁, nblocks₁, _, lists₁⟩ := tidy.write_fresh fresh
    (show (0 : UInt32).toNat < g.inodes by rw [inodes]; decide)
      (show (0 : BlockNo).toNat < 2 ^ 31 - 1 by decide) nullBlock
    (by change 0 + (0 + 1 - 0) < g.usable; rw [usable]; decide)
  change v₁.free = 1 at free₁
  have sizes₁ : ∀ inode, v₁.nblocks inode = if inode = 0 then 1 else 0 := by
    intro inode
    rw [nblocks₁, Function.update_apply]
    rfl
  obtain ⟨v₂, s₂, returned₂, tidy₂, fresh₂, _, free₂, nblocks₂, _, lists₂⟩ := tidy₁.write_fresh fresh₁
    (show (1 : UInt32).toNat < g.inodes by rw [inodes]; decide)
      (show (0 : BlockNo).toNat < 2 ^ 31 - 1 by decide) nullBlock
    (by change v₁.free + (0 + 1 - v₁.nblocks 1) < g.usable; rw [usable, free₁, sizes₁]; decide)
  change v₂.free = v₁.free + (0 + 1 - v₁.nblocks 1) at free₂
  rw [free₁, sizes₁] at free₂
  have size₂ : v₂.nblocks 0 = 1 := by
    rw [nblocks₂, Function.update_of_ne (by decide), sizes₁]
    rfl
  have chain : nodes v₂.next v₂.head v₂.nblocks 0 = [0] := by
    have first := congrFun lists₁ 0
    have second := congrFun lists₂ 0
    rw [Function.update_of_ne (by decide), first] at second
    exact second
  have head : v₂.head 0 = 0 := by
    rw [nodes, size₂] at chain
    exact List.head_eq_of_cons_eq chain
  obtain ⟨v₃, truncated⟩ : ∃ w, v₂.truncate g 0 = some w := by
    have stored : g.dataPos (v₂.head 0) < g.size := by
      rw [head, Geometry.dataPos, inodeblocks, fatblocks, size]
      decide
    rw [Volume.truncate, size₂, if_neg (by decide), Volume.releaseChain, if_pos stored]
    exact ⟨_, rfl⟩
  have freed := tidy₂.truncate (show (0 : UInt32).toNat < g.inodes by rw [inodes]; decide)
  rw [UInt32.toNat_zero, truncated] at freed
  obtain ⟨s₃, returned₃, tidy₃, _⟩ := freed
  obtain ⟨_, _, free₃, next₃⟩ := tidy₂.kept.truncate truncated
  have fine : ∀ {v : Volume} {state : State} {inode : UInt32} {offset : BlockNo}, Tidy g v state → v.Fresh g →
      inode.toNat < g.inodes → ¬ LinksZero state (.write inode offset nullBlock) :=
    fun tidy fresh known => fun bad => (tidy.linksZero_iff known _ _).mp bad (tidy.kept.clean_fresh fresh _ _)
  refine ⟨created, s₃, format, ?_, ?_, fun entry => ?_⟩
  · exact Run.cons ⟨⟨show (0 : BlockNo).toNat + 1 < 2 ^ 32 by decide, fine tidy fresh (by rw [inodes]; decide)⟩,
      _, Prog.bind_done returned₁⟩
      (Run.cons ⟨⟨show (0 : BlockNo).toNat + 1 < 2 ^ 32 by decide, fine tidy₁ fresh₁ (by rw [inodes]; decide)⟩,
        _, Prog.bind_done returned₂⟩
        (Run.cons ⟨⟨trivial, id⟩, _, Prog.bind_done returned₃⟩ .nil))
  · exact tidy₃.held.free.trans (free₃.trans free₂)
  · rw [tidy₃.held.free_iff, entries, next₃, chain]
    by_cases released : entry = 0
    · simp [released]
    · rw [if_neg (by simpa using released)]
      constructor
      · rintro ⟨inside, zero⟩
        have range := (fresh₂ entry (by omega)).mp zero
        rw [free₂, usable] at range
        change 2 ≤ entry ∧ entry < 3 at range
        omega
      · rintro (zero | rfl)
        · exact absurd zero released
        · refine ⟨by decide, (fresh₂ 2 (by omega)).mpr ?_⟩
          rw [free₂, usable]
          decide

/-- Entry 0 is free, but the search for an entry after entry 2 panics. -/
theorem alloc_panics : ¬ ∀ (nInodes : UInt32) (initial created after : State) (calls : List Call),
    nInodeblocks (initial.below.block 0) = 0 → fatdiskCreate nInodes initial = .done 0 created →
    Run Returns created calls after → after.AllocCompletes := by
  intro always
  obtain ⟨created, after, format, used, pointer, free⟩ := tiny_history
  have completes := always 1 tinyStore created after _ rfl format (Run.mono (fun _ _ _ moved => moved.2) used)
  have spare : after.Spare 0 := ⟨(free 0).mpr (.inl rfl), by rw [pointer]; decide⟩
  obtain ⟨g, _, v, tidy⟩ := tidy_of_used rfl format used
  have exact_ := tidy.held.completes_iff (Nat.lt_of_lt_of_le tidy.kept.inside g.covered)
  obtain ⟨entry, ⟨found, other⟩, searched⟩ := exact_.mp completes ⟨0, spare⟩
  rw [pointer] at other
  rcases (free entry).mp found with rfl | rfl
  · exact searched (by simp [State.Skipped, pointer])
  · exact other rfl

/-- After the truncation. -/
theorem allocCompletes_tiny :
    ∃ created after, fatdiskCreate 1 tinyStore = .done 0 created ∧ Used created tinyCalls after ∧
    (after.AllocCompletes ↔ ((∃ entry, after.Spare entry) → ∃ entry, after.Spare entry ∧ ¬ after.Skipped entry)) := by
  obtain ⟨created, after, format, used, _⟩ := tiny_history
  exact ⟨created, after, format, used, allocCompletes_iff rfl format used⟩

end Egos.Fatdisk
