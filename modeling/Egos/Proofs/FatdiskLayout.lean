import Egos.Proofs.FatdiskChains

/-! The data blocks of a freshly formatted store. One counter counts the entries and the FAT
blocks that list them, so that the last FAT block has one entry too many unless it is full. -/

namespace Egos.Fatdisk
open Library Disk

namespace State
variable (state : State)

def dataStart : Nat := wordAt (state.below.block 0) 0 + 1 + wordAt (state.below.block 0) 1

def Free (entry : Nat) : Prop := entry < state.entries ∧ state.volume.next entry = 0

/-- The free entries and the blocks behind the FAT correspond one to one. -/
structure OneToOne : Prop where
  inside : ∀ entry : FatEntryNo, state.Free entry.toNat → ∃ bno, fatentryToDatablock entry state = .done bno state ∧
    state.dataStart ≤ bno.toNat ∧ bno < state.below.size
  onto : ∀ bno, state.dataStart ≤ bno.toNat → bno < state.below.size →
    ∃ entry : FatEntryNo, state.Free entry.toNat ∧ fatentryToDatablock entry state = .done bno state
  apart : ∀ {first second : FatEntryNo} {bno}, fatentryToDatablock first state = .done bno state →
    fatentryToDatablock second state = .done bno state → first = second

end State

variable {g : Geometry} {v : Volume} {state : State}

theorem Represents.dataStart_eq (held : Represents g v state) : state.dataStart = g.dataPos 0 := by
  unfold State.dataStart Geometry.dataPos
  rw [held.inodeblocks, held.fatblocks]
  rfl

theorem Represents.free_iff (held : Represents g v state) {entry : Nat} :
    state.Free entry ↔ entry < g.entries ∧ v.next entry = 0 := by
  unfold State.Free
  rw [held.entries_eq]
  exact and_congr_right fun inside => by rw [held.volume_next inside]

theorem Represents.fatentry_injective (held : Represents g v state) {first second : FatEntryNo} {bno : BlockNo}
    (left : fatentryToDatablock first state = .done bno state)
    (right : fatentryToDatablock second state = .done bno state) :
    first = second := by
  rw [fatentryToDatablock, Prog.bind_done held.read_super] at left right
  have same := (Outcome.done.inj left).1.trans (Outcome.done.inj right).1.symm
  exact (UInt32.add_right_inj _).mp same

theorem formatted_free {block : Nat → Block} (held : Represents g (formatted g block) state) {entry : Nat} :
    state.Free entry ↔ entry < g.usable := by
  have covered : g.usable ≤ g.entries := g.covered
  rw [held.free_iff]
  change entry < g.entries ∧ (if entry < g.usable then 0 else EOF) = 0 ↔ _
  split
  · rename_i usable
    exact ⟨fun _ => usable, fun _ => ⟨Nat.lt_of_lt_of_le usable covered, rfl⟩⟩
  · rename_i past
    exact ⟨fun free => absurd free.2 EOF_ne_zero, fun usable => absurd usable past⟩

/-- The FAT has no entry too many if and only if its last block is full. -/
theorem Formats.even_iff {nInodes : UInt32} {store : Store} (formats : Formats g nInodes store) :
    g.dataPos g.usable ≤ g.size ↔ 257 ∣ store.size.toNat - ((inodeblocksFor nInodes).toNat + 1) := by
  have fits := g.fits
  have covered := g.covered
  have within := g.within
  have tight := formats.tight
  have filled := formats.filled
  have even := formats.even
  rw [← formats.size, ← formats.inodeblocks, Geometry.dataPos]
  constructor
  · intro exact_
    refine ⟨g.fatblocks, ?_⟩
    have := even exact_
    omega
  · rintro ⟨count, rest⟩
    omega

/-- The data block of an entry that formatting frees. -/
theorem Represents.data_block (held : Represents g v state) {entry : FatEntryNo} (usable : entry.toNat < g.usable) :
    ∃ bno, fatentryToDatablock entry state = .done bno state ∧ bno.toNat = g.dataPos entry.toNat := by
  have bound := g.dataPos_le usable
  have bounded := g.bounded
  exact held.fatentryToDatablock_run (by omega)

section Correspondence
variable {nInodes : UInt32} {store : Store}

/-- The last free entry has a data block only if the last FAT block is full. -/
theorem State.OneToOne.divides (formats : Formats g nInodes store) (tidy : Tidy g (formatted g store.block) state)
    (oneToOne : state.OneToOne) :
    FAT_PER_BLOCK.toNat + 1 ∣ store.size.toNat - ((inodeblocksFor nInodes).toNat + 1) := by
  have size := tidy.held.size
  have nonempty := g.nonempty
  have addressable := g.addressable
  have covered := g.covered
  apply formats.even_iff.mp
  have last : (UInt32.ofNat (g.usable - 1)).toNat = g.usable - 1 :=
    UInt32.toNat_ofNat_of_lt' (show g.usable - 1 < 2 ^ 32 by omega)
  have free : state.Free (UInt32.ofNat (g.usable - 1)).toNat := (formatted_free tidy.held).mpr (by omega)
  obtain ⟨bno, found, _, inside⟩ := oneToOne.inside _ free
  obtain ⟨same, found', value⟩ := @Represents.data_block g _ state tidy.held (UInt32.ofNat (g.usable - 1)) (by omega)
  cases found.symm.trans found'
  rw [UInt32.lt_iff_toNat_lt, value, last, size] at inside
  unfold Geometry.dataPos at inside ⊢
  omega

theorem oneToOne_of_divides (formats : Formats g nInodes store) (tidy : Tidy g (formatted g store.block) state)
    (divides : FAT_PER_BLOCK.toNat + 1 ∣ store.size.toNat - ((inodeblocksFor nInodes).toNat + 1)) : state.OneToOne := by
  have exact_ := formats.even_iff.mpr divides
  have held := tidy.held
  have size := held.size
  have start := held.dataStart_eq
  have bounded := g.bounded
  refine ⟨fun entry free => ?_, fun bno low high => ?_, held.fatentry_injective⟩
  · have usable := (formatted_free held).mp free
    obtain ⟨bno, found, value⟩ := held.data_block usable
    rw [start]
    refine ⟨bno, found, ?_, ?_⟩
    · rw [value]
      unfold Geometry.dataPos
      omega
    · rw [UInt32.lt_iff_toNat_lt, value, size]
      unfold Geometry.dataPos at exact_ ⊢
      omega
  · rw [start] at low
    rw [UInt32.lt_iff_toNat_lt, size] at high
    have filled := formats.filled
    generalize position : bno.toNat - g.dataPos 0 = entry
    have usable : entry < g.usable := by
      unfold Geometry.dataPos at low position
      omega
    have word : (UInt32.ofNat entry).toNat = entry := UInt32.toNat_ofNat_of_lt' (show entry < 2 ^ 32 by omega)
    obtain ⟨target, found, value⟩ := @Represents.data_block g _ state held (UInt32.ofNat entry) (word.symm ▸ usable)
    have same : target = bno := by
      apply UInt32.toNat_inj.mp
      rw [value, word]
      unfold Geometry.dataPos at low position ⊢
      omega
    exact ⟨UInt32.ofNat entry, (formatted_free held).mpr (word.symm ▸ usable), same ▸ found⟩

end Correspondence

/-- After formatting, free entries and data blocks correspond if and only if the blocks behind
the inodes divide into FAT blocks each with a data block for every entry. -/
theorem oneToOne_iff {nInodes : UInt32} {initial created : State} (clear : nInodeblocks (initial.below.block 0) = 0)
    (format : fatdiskCreate nInodes initial = .done 0 created) :
    created.OneToOne ↔ FAT_PER_BLOCK.toNat + 1 ∣ initial.below.size.toNat - ((inodeblocksFor nInodes).toNat + 1) := by
  obtain ⟨g, formats, tidy⟩ := tidy_created clear format
  exact ⟨State.OneToOne.divides formats tidy, oneToOne_of_divides formats tidy⟩

/-- A store of 259 blocks: one inode block, one FAT block and 256 data blocks. -/
theorem oneToOne_full : ∃ created, fatdiskCreate 1 ⟨⟨259, fun _ => nullBlock, by decide⟩, 0, false⟩ = .done 0 created ∧
    created.OneToOne := by
  obtain ⟨g, created, format, _⟩ := @fatdiskCreate_run ⟨⟨259, fun _ => nullBlock, by decide⟩, 0,
    false⟩ 1 rfl (by decide)
  exact ⟨created, format, (oneToOne_iff rfl format).mpr (by decide)⟩

/-- One block more, and entry 256 is free although its block lies past the end. -/
theorem oneToOne_fails : ¬ ∀ (nInodes : UInt32) (initial created : State), nInodeblocks (initial.below.block 0) = 0 →
    fatdiskCreate nInodes initial = .done 0 created → created.OneToOne := by
  intro always
  obtain ⟨g, created, format, _⟩ := @fatdiskCreate_run smallStore 1 rfl (by decide)
  obtain ⟨g, formats, tidy⟩ := tidy_created rfl format
  exact absurd ((always 1 smallStore created rfl format).divides formats tidy) (by decide)

end Egos.Fatdisk
