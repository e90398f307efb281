import Egos.Proofs.FatdiskRestart
import Egos.Proofs.FatdiskSearch

/-! Where fatdisk_write stores the block of its caller. A chain walk reports its failure with
the entry -1, and the data block of this entry is the last FAT block. -/

namespace Egos.Fatdisk
open Library Disk

/-- The block is a data block, and not one of another inode. -/
structure Placed (state : State) (inode : Nat) (target : Nat) : Prop where
  low : state.dataStart ≤ target
  high : target < state.below.size.toNat
  others : ∀ other < state.inodes, other ≠ inode → ∀ entry ∈ state.chain other, target ≠ state.dataStart + entry

/-- A block that a write at the offset stores is placed in the data region. -/
def StoresInside (state : State) (inode : UInt32) (offset : BlockNo) : Prop :=
  ∀ target middle, fatdiskPlace inode offset state = .done (some target) middle → target < middle.below.size →
    Placed middle inode.toNat target.toNat

/-- A call that returns, or a new process. -/
inductive Event where
  | call (call : Call)
  | restart

def Moves (before : State) : Event → State → Prop
  | .call call, after => Returns before call after
  | .restart, after => after = restart before

/-- The write is not at the last offset, and hangs no entry 0 behind another entry. -/
def Careful (state : State) : Event → Prop
  | .call call => call.Fits ∧ ¬ LinksZero state call
  | .restart => True

/-- A sound volume, in the process that has formatted it or in a later one. -/
def Mounted (g : Geometry) (state : State) : Prop :=
  ∃ v formatted, Tidy g v formatted ∧ (state = formatted ∨ state = restart formatted)

section Sound
variable {g : Geometry} {v : Volume} {state : State}

theorem Mounted.step (mounted : Mounted g state) {event : Event} {after : State} (careful : Careful state event)
    (moved : Moves state event after) : Mounted g after := by
  obtain ⟨v, formatted, tidy, here⟩ := mounted
  cases event with
  | restart =>
    refine ⟨v, formatted, tidy, .inr (moved.trans ?_)⟩
    rcases here with rfl | rfl <;> rfl
  | call call =>
    obtain ⟨fits, guard⟩ := careful
    rcases here with rfl | rfl
    · obtain ⟨w, tidy'⟩ := tidy.step fits guard moved
      exact ⟨w, after, tidy', .inl rfl⟩
    · obtain ⟨result, returned⟩ := moved
      have stays : ¬ Grows formatted call := by
        intro grows
        obtain ⟨reason, stopped, halted⟩ := perform_stops grows
        cases returned.symm.trans halted
      have same := perform_stays stays
      cases ran : call.perform formatted with
      | done value middle =>
        rw [returned, ran] at same
        cases same
        obtain ⟨w, tidy'⟩ := tidy.step fits guard ⟨_, ran⟩
        exact ⟨w, middle, tidy', .inr rfl⟩
      | halted reason middle =>
        rw [returned, ran] at same
        cases same

/-- The entry of a chain is not on another one, so its block is in the data region and in no other file. -/
theorem Tidy.placed (tidy : Tidy g v state) {inode : UInt32} {offset : BlockNo} (fits : offset.toNat + 1 < 2 ^ 32)
    (guard : ¬ LinksZero state (.write inode offset nullBlock)) : StoresInside state inode offset := by
  intro target middle placed inside
  by_cases known : inode.toNat < g.inodes
  · have clean := not_not.mp (mt (tidy.linksZero_iff known offset nullBlock).mpr guard)
    have place := fatdiskPlace_run tidy.held known fits (Nat.lt_of_lt_of_le tidy.kept.inside g.covered)
      (tidy.kept.sound inode.toNat)
      fun w grown => by
        obtain ⟨keeps, sizes, _⟩ := tidy.kept.grow grown clean
        refine ⟨?_, keeps.sound inode.toNat⟩
        rw [sizes, Function.update_self]
        omega
    cases grown : v.grow g inode.toNat offset.toNat with
    | none =>
      simp only [grown] at place
      obtain ⟨stopped, halted⟩ := place
      cases placed.symm.trans halted
    | some w =>
      simp only [grown] at place
      obtain ⟨_, _, ran, held, _, position⟩ := place
      cases placed.symm.trans ran
      obtain ⟨keeps, sizes, _⟩ := tidy.kept.grow grown clean
      have start := held.dataStart_eq
      have reached : offset.toNat < w.nblocks inode.toNat := by
        rw [sizes, Function.update_self]
        omega
      refine ⟨?_, UInt32.lt_iff_toNat_lt.mp inside, fun other small different entry member => ?_⟩
      · rw [start, position]
        unfold Geometry.dataPos
        omega
      · rw [held.chain_eq (held.inodes_eq ▸ small) (keeps.sound other)] at member
        have apart := keeps.linked.apart other inode.toNat different entry member
        intro same
        rw [start, position] at same
        unfold Geometry.dataPos at same
        have equal : entry = w.next^[offset.toNat] (w.head inode.toNat) := by omega
        exact apart (equal ▸ step_mem_nodes reached)
  · rw [fatdiskPlace, Prog.bind_done (fatdiskGetSnapshot_unknown tidy.held (Nat.not_lt.mp known))] at placed
    cases placed

theorem Mounted.placed (mounted : Mounted g state) {inode : UInt32} {offset : BlockNo}
    (fits : offset.toNat + 1 < 2 ^ 32)
    (guard : ¬ LinksZero state (.write inode offset nullBlock)) : StoresInside state inode offset := by
  obtain ⟨v, formatted, tidy, rfl | rfl⟩ := mounted
  · exact tidy.placed fits guard
  · intro target middle placed inside
    by_cases grows : Grows formatted (.write inode offset nullBlock)
    · obtain ⟨reason, stopped, halted⟩ :=
        @fatdiskPlace_stops (restart formatted) rfl inode offset nullBlock grows.restarted
      cases placed.symm.trans halted
    · have same := fatdiskPlace_stays grows
      cases ran : fatdiskPlace inode offset formatted with
      | halted reason after =>
        rw [placed, ran] at same
        cases same
      | done place after =>
        rw [placed, ran] at same
        cases same
        have stored := tidy.placed fits guard target after ran inside
        exact ⟨stored.low, stored.high, stored.others⟩

/-- At the last offset the size overflows to 0 and the walk fails. -/
theorem Tidy.place_last (tidy : Tidy g v state) {inode : UInt32} (known : inode.toNat < g.inodes) :
    ∃ target, fatdiskPlace inode (-1) state = .done (some target) state ∧ target.toNat + 1 = state.dataStart := by
  have held := tidy.held
  obtain ⟨snapshot, taken, rfl, same⟩ := fatdiskGetSnapshot_run held known
  obtain ⟨last, found, _⟩ := findLastEntry_run held same known (tidy.kept.sound _)
  have fails : fatdiskTraverse snapshot.inodeNo (-1) state = .done (-1) state := by
    have past : (-1 : BlockNo) ≥ snapshot.nblocks := by
      have := snapshot.nblocks.toNat_lt
      rw [ge_iff_le, UInt32.le_iff_toNat_le]
      change _ ≤ 2 ^ 32 - 1
      omega
    rw [fatdiskTraverse, Prog.bind_done taken]
    simp only [past, if_true]
    rfl
  refine ⟨nInodeblocks (state.below.block 0) + 1 + nFatblocks (state.below.block 0) + -1, ?_, ?_⟩
  · rw [fatdiskPlace, Prog.bind_done taken]
    have short : ¬ (-1 : BlockNo) + 1 > snapshot.nblocks := by
      rw [gt_iff_lt, UInt32.lt_iff_toNat_lt]
      exact Nat.not_lt_zero _
    simp only [short, if_false]
    rw [Prog.bind_done found]
    change (do
      let entryForData ← fatdiskTraverse snapshot.inodeNo (-1)
      let dataBlock ← fatentryToDatablock entryForData
      return some dataBlock : Fat (Option BlockNo)) state = _
    have located : fatentryToDatablock (-1) state =
        .done (nInodeblocks (state.below.block 0) + 1 + nFatblocks (state.below.block 0) + -1) state := by
      rw [fatentryToDatablock, Prog.bind_done held.read_super]
      rfl
    rw [Prog.bind_done fails, Prog.bind_done located]
    rfl
  · have fits := g.fits
    have bounded := g.bounded
    have last : (-1 : UInt32).toNat = 2 ^ 32 - 1 := by decide
    unfold State.dataStart
    rw [held.inodeblocks, held.fatblocks, UInt32.toNat_add, UInt32.toNat_add, UInt32.toNat_add,
      held.nInodeblocks_eq, held.nFatblocks_eq,
      UInt32.toNat_one, last]
    omega

/-- The block stored there overwrites the last FAT block. -/
theorem Mounted.misplaced (mounted : Mounted g state) {inode : UInt32} (known : inode.toNat < state.inodes) :
    ¬ StoresInside state inode (-1) := by
  intro inside
  obtain ⟨v, formatted, tidy, here⟩ := mounted
  have held := tidy.held
  have fits := g.fits
  have start := held.dataStart_eq
  have size := held.size
  obtain ⟨target, placed, last⟩ := @Tidy.place_last g v formatted tidy inode
    (by rcases here with rfl | rfl <;> exact held.inodes_eq ▸ known)
  have stored : target < formatted.below.size := by
    rw [UInt32.lt_iff_toNat_lt]
    unfold Geometry.dataPos at start
    omega
  rcases here with rfl | rfl
  · have low := (inside target state placed stored).low
    omega
  · have short : ¬ Grows formatted (.write inode (-1) nullBlock) := by
      rintro ⟨snapshot, after, _, longer⟩
      exact absurd (UInt32.lt_iff_toNat_lt.mp longer) (Nat.not_lt_zero _)
    have same := fatdiskPlace_stays short
    rw [placed] at same
    have low := (inside target (restart formatted) same stored).low
    change formatted.dataStart ≤ _ at low
    omega

end Sound

/-- In every run on a freshly formatted store in which no write is at the last offset and none hangs
entry 0 behind another entry, a further write that hangs it nowhere stores its block in the data
region and in no other file if and only if it is not at the last offset either. -/
theorem writes_inside {nInodes : UInt32} {initial created state : State} {events : List Event}
    (clear : nInodeblocks (initial.below.block 0) = 0) (format : fatdiskCreate nInodes initial = .done 0 created)
    (run : Run (Guarded Careful Moves) created events state) {inode : UInt32}
    (known : inode.toNat < state.inodes) {offset : BlockNo}
    {block : Block} (guard : ¬ LinksZero state (.write inode offset block)) :
    StoresInside state inode offset ↔ offset.toNat + 1 < 2 ^ 32 := by
  obtain ⟨g, _, tidy⟩ := tidy_created clear format
  have kept : ∀ before event after, Mounted g before → Guarded Careful Moves before event after → Mounted g after :=
    fun _ _ _ mounted moved => mounted.step moved.1 moved.2
  have mounted := run.invariant kept ⟨_, created, tidy, .inl rfl⟩
  refine ⟨fun inside => ?_, fun fits => mounted.placed fits guard⟩
  by_contra last
  have same : offset = -1 := by
    apply UInt32.toNat_inj.mp
    have := offset.toNat_lt
    have value : (-1 : UInt32).toNat = 2 ^ 32 - 1 := by decide
    omega
  exact mounted.misplaced known (same ▸ inside)

/-- The first write to a file. -/
theorem writes_inside_tiny : ∃ created, fatdiskCreate 1 tinyStore = .done 0 created ∧ StoresInside created 0 0 := by
  obtain ⟨g, created, format, formats, held, _⟩ := @fatdiskCreate_run tinyStore 1 rfl (by decide)
  have tidy := tidy_formatted held
  have inodes : g.inodes = 128 := by
    rw [Geometry.inodes, formats.inodeblocks]
    rfl
  have known : (0 : UInt32).toNat < g.inodes := by rw [inodes]; decide
  have guard : ¬ LinksZero created (.write 0 0 nullBlock) := fun bad =>
    (tidy.linksZero_iff known 0 nullBlock).mp bad (tidy.kept.clean_fresh (formatted_fresh g _) _ _)
  exact ⟨created, format, (writes_inside rfl format .nil (held.inodes_eq ▸ known) guard).mpr (by decide)⟩

/-- A write at the last offset of an empty file. -/
theorem writes_outside :
    ¬ ∀ (nInodes : UInt32) (initial created state : State) (events : List Event) (inode : UInt32) (offset : BlockNo),
    nInodeblocks (initial.below.block 0) = 0 → fatdiskCreate nInodes initial = .done 0 created →
      Run Moves created events state →
    StoresInside state inode offset := by
  intro always
  obtain ⟨g, created, format, formats, held, _⟩ := @fatdiskCreate_run tinyStore 1 rfl (by decide)
  have mounted : Mounted g created := ⟨_, created, tidy_formatted held, .inl rfl⟩
  refine @Mounted.misplaced g created mounted 0 ?_ (always 1 tinyStore created created [] 0 (-1) rfl format .nil)
  rw [held.inodes_eq, Geometry.inodes, formats.inodeblocks]
  decide

end Egos.Fatdisk
