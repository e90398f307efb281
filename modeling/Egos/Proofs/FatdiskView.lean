import Egos.Block.Fatdisk
import Mathlib.Logic.Function.Basic

/-! A formatted store seen through its layout. A volume lists what the FAT, the
inode table and the data region hold, addressed by entry and inode number; each
write of the code changes one entry, one inode, the free pointer or one data block. -/

namespace Egos.Fatdisk
open Library Disk

/-- The sizes fixed by formatting. Entries from `usable` on are marked -1 by
`setup_fatfreelist`; the block of the last usable one may lie past the store. -/
structure Geometry where
  inodeblocks : Nat
  fatblocks : Nat
  size : Nat
  usable : Nat
  fits : inodeblocks + 1 + fatblocks ≤ size
  bounded : size < 2 ^ 31
  covered : usable ≤ fatblocks * 256
  addressable : fatblocks * 256 ≤ 2 ^ 32
  within : inodeblocks + 1 + fatblocks + usable ≤ size + 1
  nonempty : 0 < usable

namespace Geometry
variable (g : Geometry)

def entries : Nat := g.fatblocks * 256

def inodes : Nat := g.inodeblocks * 128

def fatPos (entry : Nat) : Nat := g.inodeblocks + 1 + entry / 256

def dataPos (entry : Nat) : Nat := g.inodeblocks + 1 + g.fatblocks + entry

end Geometry

def inodePos (inode : Nat) : Nat := 1 + inode / 128

/-- The mark of the last entry of a file, -1 as an unsigned word. -/
def EOF : Nat := 2 ^ 32 - 1

structure Volume where
  free : Nat
  next : Nat → Nat
  head : Nat → Nat
  nblocks : Nat → Nat
  data : Nat → Block

/-- A word of a block, by its index modulo the number of words. -/
def wordAt (block : Block) (index : Nat) : Nat := (block (Fin.ofNat WORDS index)).toNat

structure Represents (g : Geometry) (v : Volume) (state : State) : Prop where
  size : state.below.size.toNat = g.size
  static : state.fatblocks.toNat = g.fatblocks
  inodeblocks : wordAt (state.below.block 0) 0 = g.inodeblocks
  fatblocks : wordAt (state.below.block 0) 1 = g.fatblocks
  free : wordAt (state.below.block 0) 2 = v.free
  next : ∀ entry, entry < g.entries → wordAt (state.below.block (g.fatPos entry)) entry = v.next entry
  head : ∀ inode, inode < g.inodes → wordAt (state.below.block (inodePos inode)) (2 * (inode % 128)) = v.head inode
  nblocks : ∀ inode, inode < g.inodes →
    wordAt (state.below.block (inodePos inode)) (2 * (inode % 128) + 1) = v.nblocks inode
  data : ∀ entry, g.dataPos entry < g.size → state.below.block (g.dataPos entry) = v.data entry

theorem toNat_word (block : Block) (index : UInt32) : (word block index).toNat = wordAt block index.toNat := rfl

private theorem ofNat_eq_iff (first second : Nat) :
    (Fin.ofNat WORDS first = Fin.ofNat WORDS second) ↔ first % 256 = second % 256 := by
  rw [Fin.ext_iff]; exact Iff.rfl

theorem wordAt_mod (block : Block) (index : Nat) : wordAt block (index % 256) = wordAt block index := by
  have same : Fin.ofNat WORDS (index % 256) = Fin.ofNat WORDS index := (ofNat_eq_iff _ _).mpr (Nat.mod_mod _ _)
  rw [wordAt, same, wordAt]

theorem wordAt_setWord (block : Block) (index value : UInt32) (other : Nat) :
    wordAt (setWord block index value) other =
      if other % 256 = index.toNat % 256 then value.toNat else wordAt block other := by
  simp only [wordAt, setWord, Function.update_apply, ofNat_eq_iff]
  split <;> rfl

theorem toNat_mod_entries (entry : UInt32) : (entry % FAT_PER_BLOCK).toNat = entry.toNat % 256 := rfl

theorem toNat_mod_inodes (inode : UInt32) : (inode % INODES_PER_BLOCK).toNat = inode.toNat % 128 := rfl

theorem read_inside {store : Store} {offset : BlockNo} (inside : offset.toNat < store.size.toNat) :
    store.read offset = some (store.block offset.toNat) := by
  simp only [Store.read, UInt32.lt_iff_toNat_lt, inside, if_true]

theorem read_outside {store : Store} {offset : BlockNo} (outside : store.size.toNat ≤ offset.toNat) :
    store.read offset = none := by
  simp only [Store.read, UInt32.lt_iff_toNat_lt, Nat.not_lt.mpr outside, if_false]

def State.put (state : State) (position : Nat) (block : Block) : State :=
  { state with below := { state.below with block := Function.update state.below.block position block } }

@[simp] theorem State.put_size (state : State) (position : Nat) (block : Block) :
    (state.put position block).below.size = state.below.size := rfl

@[simp] theorem State.put_failed (state : State) (position : Nat) (block : Block) :
    (state.put position block).failed = state.failed := rfl

@[simp] theorem State.put_fatblocks (state : State) (position : Nat) (block : Block) :
    (state.put position block).fatblocks = state.fatblocks := rfl

@[simp] theorem State.put_block (state : State) (position other : Nat) (block : Block) :
    (state.put position block).below.block other = if other = position then block else state.below.block other :=
  Function.update_apply _ _ _ _

theorem belowRead_inside {state : State} {offset : BlockNo} (inside : offset.toNat < state.below.size.toNat) :
    belowRead offset state = .done (some (state.below.block offset.toNat)) state := by
  rw [belowRead, read_inside inside]

theorem belowRead_outside {state : State} {offset : BlockNo} (outside : state.below.size.toNat ≤ offset.toNat) :
    belowRead offset state = .done none { state with failed := true } := by
  rw [belowRead, read_outside outside]

theorem belowWrite_inside {state : State} {offset : BlockNo} (block : Block)
    (inside : offset.toNat < state.below.size.toNat) :
    belowWrite offset block state = .done true (state.put offset.toNat block) := by
  simp only [belowWrite, Store.write, UInt32.lt_iff_toNat_lt, inside, if_true, State.put]

theorem belowWrite_outside {state : State} {offset : BlockNo} (block : Block)
    (outside : state.below.size.toNat ≤ offset.toNat) :
    belowWrite offset block state = .done false { state with failed := true } := by
  simp only [belowWrite, Store.write, UInt32.lt_iff_toNat_lt, Nat.not_lt.mpr outside, if_false]

/-! Where the entries and inodes of a volume lie. -/

namespace Geometry
variable (g : Geometry)

theorem fatPos_lt {entry : Nat} (inside : entry < g.entries) : g.fatPos entry < g.inodeblocks + 1 + g.fatblocks := by
  have := g.fits; unfold entries at inside; unfold fatPos; omega

theorem inodePos_le {inode : Nat} (inside : inode < g.inodes) : inodePos inode ≤ g.inodeblocks := by
  unfold inodes at inside; unfold inodePos; omega

theorem positive : 0 < g.size := by have := g.fits; omega

end Geometry

namespace Represents
variable {g : Geometry} {v : Volume} {state : State}

theorem read_super (held : Represents g v state) : belowRead 0 state = .done (some (state.below.block 0)) state := by
  have := g.positive
  exact belowRead_inside (by simpa only [held.size, UInt32.toNat_zero] using this)

theorem nInodeblocks_eq (held : Represents g v state) : (nInodeblocks (state.below.block 0)).toNat = g.inodeblocks := by
  exact held.inodeblocks

theorem nFatblocks_eq (held : Represents g v state) : (nFatblocks (state.below.block 0)).toNat = g.fatblocks := by
  exact held.fatblocks

theorem fatFreeList_eq (held : Represents g v state) : (fatFreeList (state.below.block 0)).toNat = v.free := by
  exact held.free

/-- The FAT block of an entry. -/
theorem findFatBlockno_run (held : Represents g v state) {entry : UInt32} (inside : entry.toNat < g.entries) :
    ∃ bno : BlockNo, findFatBlockno entry state = .done bno state ∧ bno.toNat = g.fatPos entry.toNat ∧
      bno.toNat < state.below.size.toNat := by
  refine ⟨nInodeblocks (state.below.block 0) + entry / FAT_PER_BLOCK + 1, ?_, ?_⟩
  · rw [findFatBlockno, Prog.bind_done held.read_super]; rfl
  · have small := g.fatPos_lt inside
    have fits := g.fits
    have bounded := g.bounded
    have : (entry / FAT_PER_BLOCK).toNat = entry.toNat / 256 := rfl
    have value : (nInodeblocks (state.below.block 0) + entry / FAT_PER_BLOCK + 1).toNat = g.fatPos entry.toNat := by
      rw [UInt32.toNat_add, UInt32.toNat_add, held.nInodeblocks_eq, this]
      unfold Geometry.fatPos at small ⊢
      simp only [UInt32.toNat_one]
      omega
    exact ⟨value, by rw [value, held.size]; omega⟩

/-- The data block of an entry whose number does not overflow. -/
theorem fatentryToDatablock_run (held : Represents g v state) {entry : UInt32}
    (small : g.dataPos entry.toNat < 2 ^ 32) :
    ∃ bno : BlockNo, fatentryToDatablock entry state = .done bno state ∧ bno.toNat = g.dataPos entry.toNat := by
  refine ⟨nInodeblocks (state.below.block 0) + 1 + nFatblocks (state.below.block 0) + entry, ?_, ?_⟩
  · rw [fatentryToDatablock, Prog.bind_done held.read_super]; rfl
  · rw [UInt32.toNat_add, UInt32.toNat_add, UInt32.toNat_add, held.nInodeblocks_eq, held.nFatblocks_eq]
    unfold Geometry.dataPos at small ⊢
    simp only [UInt32.toNat_one]
    omega

/-- Writing an entry of the FAT. -/
theorem put_next (held : Represents g v state) {entry : UInt32} (inside : entry.toNat < g.entries) (value : UInt32) :
    Represents g { v with next := Function.update v.next entry.toNat value.toNat }
      (state.put (g.fatPos entry.toNat)
        (setWord (state.below.block (g.fatPos entry.toNat)) (entry % FAT_PER_BLOCK) value)) := by
  have small := g.fatPos_lt inside
  have fits := g.fits
  have nonzero : 0 ≠ g.fatPos entry.toNat := by unfold Geometry.fatPos; omega
  have inodes : ∀ inode, inode < g.inodes → inodePos inode ≠ g.fatPos entry.toNat := by
    intro inode known
    have := g.inodePos_le known
    unfold Geometry.fatPos; omega
  refine ⟨held.size, held.static, ?_, ?_, ?_, ?_, ?_, ?_, ?_⟩
  · simpa only [State.put_block, nonzero, if_false] using held.inodeblocks
  · simpa only [State.put_block, nonzero, if_false] using held.fatblocks
  · simpa only [State.put_block, nonzero, if_false] using held.free
  · intro other known
    simp only [State.put_block, Function.update_apply]
    split
    next same =>
      rw [wordAt_setWord, toNat_mod_entries, Nat.mod_mod, ← held.next other known, same]
      have same : other / 256 = entry.toNat / 256 := by unfold Geometry.fatPos at same; omega
      by_cases equal : other = entry.toNat
      · subst other; simp
      · have different : other % 256 ≠ entry.toNat % 256 := by omega
        simp only [different, equal, if_false]
    next different =>
      have : other ≠ entry.toNat := by rintro rfl; exact different rfl
      simpa only [this, if_false] using held.next other known
  · intro inode known
    simpa only [State.put_block, inodes inode known, if_false] using held.head inode known
  · intro inode known
    simpa only [State.put_block, inodes inode known, if_false] using held.nblocks inode known
  · intro other known
    have : g.dataPos other ≠ g.fatPos entry.toNat := by unfold Geometry.dataPos; omega
    simpa only [State.put_block, this, if_false] using held.data other known

/-- Writing the free pointer of the super block. -/
theorem put_free (held : Represents g v state) (value : UInt32) :
    Represents g { v with free := value.toNat } (state.put 0 (setWord (state.below.block 0) 2 value)) := by
  have fat : ∀ entry, g.fatPos entry ≠ 0 := by intro entry; unfold Geometry.fatPos; omega
  have inodes : ∀ inode, inodePos inode ≠ 0 := by intro inode; unfold inodePos; omega
  refine ⟨held.size, held.static, ?_, ?_, ?_, ?_, ?_, ?_, ?_⟩
  · simpa only [State.put_block, if_true, wordAt_setWord] using! held.inodeblocks
  · simpa only [State.put_block, if_true, wordAt_setWord] using! held.fatblocks
  · simp only [State.put_block, if_true, wordAt_setWord]; rfl
  · intro entry known
    simpa only [State.put_block, fat entry, if_false] using held.next entry known
  · intro inode known
    simpa only [State.put_block, inodes inode, if_false] using held.head inode known
  · intro inode known
    simpa only [State.put_block, inodes inode, if_false] using held.nblocks inode known
  · intro other known
    have : g.dataPos other ≠ 0 := by unfold Geometry.dataPos; omega
    simpa only [State.put_block, this, if_false] using held.data other known

/-- Writing the block of an inode with its two fields replaced. -/
theorem put_inode (held : Represents g v state) {inode : Nat} (inside : inode < g.inodes) {block : Block}
    {head nblocks : Nat} (hasHead : wordAt block (2 * (inode % 128)) = head)
    (hasNblocks : wordAt block (2 * (inode % 128) + 1) = nblocks)
    (kept : ∀ index < 256, index / 2 ≠ inode % 128 →
      wordAt block index = wordAt (state.below.block (inodePos inode)) index) :
    Represents g { v with head := Function.update v.head inode head, nblocks := Function.update v.nblocks inode nblocks }
      (state.put (inodePos inode) block) := by
  have small := g.inodePos_le inside
  have nonzero : 0 ≠ inodePos inode := by unfold inodePos; omega
  have fat : ∀ entry, g.fatPos entry ≠ inodePos inode := by intro entry; unfold Geometry.fatPos; omega
  have apart : ∀ other, other ≠ inode → inodePos other = inodePos inode → other % 128 ≠ inode % 128 := by
    intro other different same; unfold inodePos at same; omega
  refine ⟨held.size, held.static, ?_, ?_, ?_, ?_, ?_, ?_, ?_⟩
  · simpa only [State.put_block, nonzero, if_false] using held.inodeblocks
  · simpa only [State.put_block, nonzero, if_false] using held.fatblocks
  · simpa only [State.put_block, nonzero, if_false] using held.free
  · intro entry known
    simpa only [State.put_block, fat entry, if_false] using held.next entry known
  · intro other known
    simp only [State.put_block, Function.update_apply]
    by_cases equal : other = inode
    · subst other; simpa using hasHead
    · simp only [equal, if_false]
      split
      next same =>
        rw [kept _ (by omega) (by have := apart other equal same; omega), ← same]
        exact held.head other known
      next => exact held.head other known
  · intro other known
    simp only [State.put_block, Function.update_apply]
    by_cases equal : other = inode
    · subst other; simpa using hasNblocks
    · simp only [equal, if_false]
      split
      next same =>
        rw [kept _ (by omega) (by have := apart other equal same; omega), ← same]
        exact held.nblocks other known
      next => exact held.nblocks other known
  · intro other known
    have : g.dataPos other ≠ inodePos inode := by unfold Geometry.dataPos; omega
    simpa only [State.put_block, this, if_false] using held.data other known

/-- Writing a data block. -/
theorem put_data (held : Represents g v state) (entry : Nat) (block : Block) :
    Represents g { v with data := Function.update v.data entry block } (state.put (g.dataPos entry) block) := by
  have nonzero : 0 ≠ g.dataPos entry := by unfold Geometry.dataPos; omega
  refine ⟨held.size, held.static, ?_, ?_, ?_, ?_, ?_, ?_, ?_⟩
  · simpa only [State.put_block, nonzero, if_false] using held.inodeblocks
  · simpa only [State.put_block, nonzero, if_false] using held.fatblocks
  · simpa only [State.put_block, nonzero, if_false] using held.free
  · intro other known
    have := g.fatPos_lt known
    have : g.fatPos other ≠ g.dataPos entry := by unfold Geometry.dataPos; omega
    simpa only [State.put_block, this, if_false] using held.next other known
  · intro inode known
    have := g.inodePos_le known
    have : inodePos inode ≠ g.dataPos entry := by unfold Geometry.dataPos; omega
    simpa only [State.put_block, this, if_false] using held.head inode known
  · intro inode known
    have := g.inodePos_le known
    have : inodePos inode ≠ g.dataPos entry := by unfold Geometry.dataPos; omega
    simpa only [State.put_block, this, if_false] using held.nblocks inode known
  · intro other known
    simp only [State.put_block, Function.update_apply]
    by_cases equal : other = entry
    · subst other; simp
    · have : g.dataPos other ≠ g.dataPos entry := by unfold Geometry.dataPos; omega
      simpa only [this, equal, if_false] using held.data other known

end Represents
end Egos.Fatdisk
