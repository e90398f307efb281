import Egos.Proofs.FatdiskVolume
import Mathlib.Data.List.Find

/-! The allocator of fatdisk.c on a represented volume: the two nested loops of
`find_free_entry` search `scanOrder`, and `fatdisk_alloc` takes the entry at the
free pointer. -/

namespace Egos.Fatdisk
open Library Disk

def scanned (found : Option Nat) (state : State) : Outcome State Halt FatEntryNo :=
  match found with
  | some entry => .done (UInt32.ofNat entry) state
  | none => .halted (.panic "fatdisk_find_free_entry: The disk is full\n") state

theorem scanEntries_eq (block : Block) (left : Nat) : ∀ i : UInt32, i.toNat + left ≤ 256 →
    scanEntries block left i = ((List.range' i.toNat left).find? fun j => wordAt block j == 0).map UInt32.ofNat := by
  induction left with
  | zero => intro i inside; rfl
  | succ left ih =>
    intro i inside
    rw [scanEntries, List.range'_succ, List.find?_cons]
    have zero : (word block i = 0) ↔ (wordAt block i.toNat == 0) = true := by
      rw [← UInt32.toNat_inj, toNat_word, beq_iff_eq]; rfl
    by_cases free : word block i = 0
    · simp only [free, zero.mp free, if_true, Option.map_some, UInt32.ofNat_toNat]
    · have taken : (wordAt block i.toNat == 0) = false := by simpa using mt zero.mpr free
      have next : (i + 1).toNat = i.toNat + 1 := by
        rw [UInt32.toNat_add]; simp only [UInt32.toNat_one]; omega
      simp only [free, taken, if_false]
      rw [ih (i + 1) (by omega), next]

/-- The entries searched in `blocks` FAT blocks, from index `i` of block `b` on. -/
def scanList (fatblocks : Nat) : (blocks : Nat) → (b i : Nat) → List Nat
  | 0, _, _ => []
  | blocks + 1, b, i =>
    List.range' (b * 256 + i) (256 - i) ++ scanList fatblocks blocks (if b + 1 ≥ fatblocks then 0 else b + 1) 0

/-- The loop over FAT blocks. -/
theorem scanBlocks_run {g : Geometry} {v : Volume} {state : State} (held : Represents g v state) (blocks : Nat) :
    ∀ (b : Nat) (bno : BlockNo) (i : UInt32), b < g.fatblocks → bno.toNat = g.inodeblocks + 1 + b → i.toNat ≤ 256 →
      scanBlocks (state.below.block 0) blocks bno i state =
        scanned ((scanList g.fatblocks blocks b i.toNat).find? fun entry => v.next entry == 0) state := by
  have fits := g.fits
  have bounded := g.bounded
  have nib := held.nInodeblocks_eq
  induction blocks with
  | zero => intro b bno i _ _ _; rfl
  | succ blocks ih =>
    intro b bno i inside position small
    have readable : bno.toNat < state.below.size.toNat := by rw [position, held.size]; omega
    have left : (FAT_PER_BLOCK - i).toNat = 256 - i.toNat := by
      rw [UInt32.toNat_sub_of_le]
      · rfl
      · exact small
    have entries : scanEntries (state.below.block bno.toNat) (256 - i.toNat) i =
        ((List.range' i.toNat (256 - i.toNat)).find? fun j => v.next (b * 256 + j) == 0).map UInt32.ofNat := by
      rw [scanEntries_eq _ _ _ (by omega)]
      congr 1
      apply List.find?_congr
      intro j member
      have member := List.mem_range'_1.mp member
      have entry : b * 256 + j < g.entries := by unfold Geometry.entries; omega
      have stored := held.next (b * 256 + j) entry
      have block : g.fatPos (b * 256 + j) = bno.toNat := by unfold Geometry.fatPos; omega
      rw [block, ← wordAt_mod, show (b * 256 + j) % 256 = j by omega] at stored
      rw [stored]
    have shifted : List.range' (b * 256 + i.toNat) (256 - i.toNat) =
        (List.range' i.toNat (256 - i.toNat)).map (b * 256 + ·) := by
      rw [List.map_add_range', Nat.add_comm]
    rw [scanBlocks, Prog.bind_done (belowRead_inside readable)]
    simp only [left, entries]
    rw [scanList, List.find?_append, shifted, List.find?_map]
    cases seen : (List.range' i.toNat (256 - i.toNat)).find? fun j => v.next (b * 256 + j) == 0 with
    | some j =>
      have member := List.mem_range'_1.mp (List.mem_of_find?_eq_some seen)
      have found : (List.find? ((fun entry => v.next entry == 0) ∘ (b * 256 + ·))
          (List.range' i.toNat (256 - i.toNat))) = some j := seen
      rw [found]
      have entry : b * 256 + j < g.fatblocks * 256 := by omega
      have addressable := g.addressable
      have value : (bno - 1 - nInodeblocks (state.below.block 0)) * FAT_PER_BLOCK + UInt32.ofNat j =
          UInt32.ofNat (b * 256 + j) := by
        apply UInt32.toNat_inj.mp
        have index : (UInt32.ofNat j).toNat = j := UInt32.toNat_ofNat_of_lt' (by unfold UInt32.size; omega)
        have first : (bno - 1).toNat = g.inodeblocks + b := by
          rw [UInt32.toNat_sub_of_le _ _ (by rw [UInt32.le_iff_toNat_le, position, UInt32.toNat_one]; omega),
            position, UInt32.toNat_one]; omega
        have second : (bno - 1 - nInodeblocks (state.below.block 0)).toNat = b := by
          rw [UInt32.toNat_sub_of_le _ _ (by rw [UInt32.le_iff_toNat_le, first, nib]; omega), first, nib]; omega
        rw [UInt32.toNat_add, UInt32.toNat_mul, second, index, UInt32.toNat_ofNat_of_lt' (by unfold UInt32.size; omega)]
        change (b * 256 % 2 ^ 32 + j) % 2 ^ 32 = _
        omega
      simp only [Option.map_some, Prog.pure_run, value, Option.some_or, scanned]
    | none =>
      have found : (List.find? ((fun entry => v.next entry == 0) ∘ (b * 256 + ·))
          (List.range' i.toNat (256 - i.toNat))) = none := seen
      rw [found]
      simp only [Option.map_none, Option.none_or, Prog.bind_done (Prog.get_run state)]
      have limit : (1 + nInodeblocks (state.below.block 0) + state.fatblocks).toNat =
          1 + g.inodeblocks + g.fatblocks := by
        rw [UInt32.toNat_add, UInt32.toNat_add, nib, held.static, UInt32.toNat_one]; omega
      have advanced : (bno + 1).toNat = g.inodeblocks + 1 + (b + 1) := by
        rw [UInt32.toNat_add, position, UInt32.toNat_one]; omega
      have wraps : (bno + 1 ≥ 1 + nInodeblocks (state.below.block 0) + state.fatblocks) ↔ b + 1 ≥ g.fatblocks := by
        rw [ge_iff_le, UInt32.le_iff_toNat_le, limit, advanced]; omega
      by_cases last : b + 1 ≥ g.fatblocks
      · simp only [wraps.mpr last, last, if_true]
        exact ih 0 _ 0 (by omega) (by rw [UInt32.toNat_add, nib, UInt32.toNat_one]; omega) (by decide)
      · simp only [mt wraps.mp last, last, if_false]
        exact ih (b + 1) _ 0 (by omega) advanced (by decide)

private theorem scanList_straight (fatblocks blocks : Nat) : ∀ b, b + blocks ≤ fatblocks →
    scanList fatblocks blocks b 0 = List.range' (b * 256) (blocks * 256) := by
  induction blocks with
  | zero => intro b inside; rfl
  | succ blocks ih =>
    intro b inside
    rw [scanList]
    by_cases last : b + 1 ≥ fatblocks
    · have none : blocks = 0 := by omega
      subst none
      simp [scanList]
    · simp only [last, if_false, Nat.add_zero, Nat.sub_zero]
      rw [ih (b + 1) (by omega), show (b + 1) * 256 = b * 256 + 256 by omega, List.range'_append_1]
      congr 1
      omega

private theorem scanList_wraps (fatblocks more ahead : Nat) : ∀ b i, i ≤ 256 → b + (ahead + 1) = fatblocks →
    scanList fatblocks (ahead + 1 + more) b i =
      List.range' (b * 256 + i) (fatblocks * 256 - (b * 256 + i)) ++ scanList fatblocks more 0 0 := by
  induction ahead with
  | zero =>
    intro b i small here
    rw [Nat.zero_add, Nat.add_comm, scanList]
    simp only [show b + 1 ≥ fatblocks by omega, if_true]
    congr 2
    omega
  | succ ahead ih =>
    intro b i small here
    rw [show ahead + 1 + 1 + more = ahead + 1 + more + 1 by omega, scanList]
    simp only [show ¬ b + 1 ≥ fatblocks by omega, if_false]
    rw [ih (b + 1) 0 (by decide) (by omega), ← List.append_assoc]
    congr 1
    rw [show (b + 1) * 256 + 0 = b * 256 + i + (256 - i) by omega, List.range'_append_1]
    congr 1
    omega

/-- Starting at the FAT block of an entry, the loop sees the entries of `scanOrder`. -/
theorem scanList_eq (g : Geometry) {start : Nat} (inside : start < g.entries) :
    scanList g.fatblocks g.fatblocks (start / 256) (start % 256) = scanOrder g start := by
  unfold Geometry.entries at inside
  have split : g.fatblocks = (g.fatblocks - start / 256 - 1) + 1 + start / 256 := by omega
  have wraps := scanList_wraps g.fatblocks (start / 256) (g.fatblocks - start / 256 - 1) (start / 256) (start % 256)
    (by omega) (by omega)
  rw [← split] at wraps
  rw [wraps, scanList_straight _ _ _ (by omega), scanOrder, Nat.zero_mul, Geometry.entries,
    show start / 256 * 256 + start % 256 = start by omega]

section
variable {g : Geometry} {v : Volume} {state : State}

theorem findFreeEntry_run (held : Represents g v state) (inside : v.free < g.entries) {bno : BlockNo}
    (position : bno.toNat = g.fatPos v.free) :
    findFreeEntry bno state = scanned ((scanOrder g v.free).find? fun entry => v.next entry == 0) state := by
  have index : (fatFreeList (state.below.block 0) % FAT_PER_BLOCK).toNat = v.free % 256 := by
    rw [toNat_mod_entries, held.fatFreeList_eq]
  have block : v.free / 256 < g.fatblocks := by unfold Geometry.entries at inside; omega
  rw [findFreeEntry, Prog.bind_done held.read_super]
  simp only [Prog.bind_done (Prog.get_run state)]
  rw [scanBlocks_run held _ _ _ _ block position (by rw [index]; omega), held.static, index, scanList_eq g inside]

/-- `fatdisk_alloc` hands out the entry at the free pointer, if another one is free. -/
theorem fatdiskAlloc_run (held : Represents g v state) (inside : v.free < g.entries) {snapshot : Snapshot}
    (fresh : snapshot.superblock = state.below.block 0) :
    match v.alloc g with
    | some after => ∃ moved, fatdiskAlloc snapshot state =
        .done (fatFreeList snapshot.superblock, { snapshot with superblock := moved.below.block 0 }) moved ∧
        Represents g after moved ∧ moved.failed = state.failed ∧
        ∀ inode < g.inodes, moved.below.block (inodePos inode) = state.below.block (inodePos inode)
    | none => ∃ stopped, fatdiskAlloc snapshot state =
        .halted (.panic "fatdisk_find_free_entry: The disk is full\n") stopped := by
  have pointer : (fatFreeList snapshot.superblock).toNat = v.free := by rw [fresh, held.fatFreeList_eq]
  obtain ⟨bno, located, position, readable⟩ :=
    held.findFatBlockno_run (show (fatFreeList snapshot.superblock).toNat < g.entries by rw [pointer]; exact inside)
  have marked := held.put_next (show (fatFreeList snapshot.superblock).toNat < g.entries by rw [pointer]; exact inside)
    (-1)
  rw [pointer] at position marked
  rw [← position] at marked
  have search := findFreeEntry_run marked inside position
  have wrote := belowWrite_inside (setWord (state.below.block bno.toNat)
    (fatFreeList snapshot.superblock % FAT_PER_BLOCK) (-1)) readable
  have nonzero : (0 : Nat) ≠ bno.toNat := by rw [position]; unfold Geometry.fatPos; omega
  have looked : v.nextFree g =
      (scanOrder g v.free).find? fun entry => Function.update v.next v.free (-1 : UInt32).toNat entry == 0 := rfl
  rw [fatdiskAlloc, Prog.bind_done located, Prog.bind_done (belowRead_inside readable)]
  simp only [Prog.bind_done wrote, Bool.not_true, Bool.false_eq_true, if_false]
  rw [Volume.alloc, looked]
  cases seen : (scanOrder g v.free).find? fun entry => Function.update v.next v.free (-1 : UInt32).toNat entry == 0 with
  | none =>
    simp only [seen] at search
    exact ⟨_, Prog.bind_halted search⟩
  | some free =>
    simp only [seen, scanned] at search
    have small : free < 2 ^ 32 := by
      have addressable := g.addressable
      have member := List.mem_of_find?_eq_some seen
      unfold scanOrder Geometry.entries at member
      unfold Geometry.entries at inside
      rcases List.mem_append.mp member with member | member <;>
        · have := List.mem_range'_1.mp member
          omega
    have writable : (0 : BlockNo).toNat < (state.put bno.toNat
        (setWord (state.below.block bno.toNat) (fatFreeList snapshot.superblock % FAT_PER_BLOCK)
            (-1))).below.size.toNat := by
      rw [State.put_size, held.size]; exact g.positive
    have stored := belowWrite_inside (setWord snapshot.superblock 2 (UInt32.ofNat free)) writable
    have represented := marked.put_free (UInt32.ofNat free)
    rw [UInt32.toNat_ofNat_of_lt' small, State.put_block, if_neg nonzero, ← fresh] at represented
    refine ⟨_, ?_, represented, rfl, ?_⟩
    · simp only [Prog.bind_done search, Prog.bind_done stored, Bool.not_true, Bool.false_eq_true, if_false,
        Prog.pure_run, UInt32.toNat_zero, State.put_block, if_true]
    · intro inode known
      have low := g.inodePos_le known
      have first : inodePos inode ≠ 0 := by unfold inodePos; omega
      have second : inodePos inode ≠ bno.toNat := by rw [position]; unfold Geometry.fatPos; omega
      simp only [State.put_block, first, second, if_false]

end
end Egos.Fatdisk
