import Egos.Proofs.BlkfileCalls

/-! Offsets have 64 bits and sizes 32, and block numbers are cut off to 32: which requests of the
block file server come out as the numbers in them say. -/

namespace Egos.Blkfile
open Library Files
open Grass (Pid Uid)
open Disk (BLOCK_SIZE)

/-! The numbers on the way. -/

section Values
variable {fileSize offset : UInt64} {size : UInt32}

/-- The byte behind a write, the numbers of its blocks, how many there are and the size of the
buffer for them come out of blkfile_put as they are. -/
structure PutValues (fileSize offset : UInt64) (size : UInt32) : Prop where
  finish : (offset + size.toUInt64).toNat = offset.toNat + size.toNat
  number : ∀ j ≤ (offset.toNat + size.toNat) / BLOCK_SIZE - offset.toNat / BLOCK_SIZE,
    ((extent fileSize offset size).startBlock.toUInt32 + UInt32.ofNat j).toNat = offset.toNat / BLOCK_SIZE + j
  count : (extent fileSize offset size).rows.toUInt32.toNat =
    (offset.toNat + size.toNat) / BLOCK_SIZE - offset.toNat / BLOCK_SIZE + 1
  room : ((extent fileSize offset size).rows * UInt64.ofNat BLOCK_SIZE).toNat =
    ((offset.toNat + size.toNat) / BLOCK_SIZE - offset.toNat / BLOCK_SIZE + 1) * BLOCK_SIZE

theorem putValues_iff : PutValues fileSize offset size ↔ offset.toNat + size.toNat < 2 ^ 42 := by
  have small := size.toNat_lt
  obtain ⟨start, -⟩ := extent_blocks fileSize offset size
  have first : (extent fileSize offset size).startBlock.toUInt32.toNat = offset.toNat / 1024 % 2 ^ 32 := by
    rw [start, UInt64.toNat_toUInt32, row_toNat]
  have number (j : Nat) : ((extent fileSize offset size).startBlock.toUInt32 + UInt32.ofNat j).toNat =
      (offset.toNat / 1024 + j) % 2 ^ 32 := by
    rw [UInt32.toNat_add, first, UInt32.toNat_ofNat']
    omega
  constructor
  · intro values
    have last := values.number _ (Nat.le_refl _)
    rw [number] at last
    change (_ + (_ / 1024 - _ / 1024)) % 2 ^ 32 = _ / 1024 + (_ / 1024 - _ / 1024) at last
    omega
  · intro fits
    have finish : (offset + size.toUInt64).toNat = offset.toNat + size.toNat := by
      rw [UInt64.toNat_add, UInt32.toNat_toUInt64]
      omega
    have rows : (extent fileSize offset size).rows.toNat =
        (offset.toNat + size.toNat) / 1024 - offset.toNat / 1024 + 1 := by
      rw [rows_toNat]
      omega
    refine ⟨finish, fun j inside => ?_, ?_, ?_⟩
    · change _ ≤ _ / 1024 - _ / 1024 at inside
      rw [number]
      change _ = _ / 1024 + _
      omega
    · rw [UInt64.toNat_toUInt32, rows]
      change _ = _ / 1024 - _ / 1024 + 1
      omega
    · rw [capacity_toNat, rows]
      change _ = (_ / 1024 - _ / 1024 + 1) * 1024
      omega

/-- The number of bytes that blkfile_do_read reads before the end of the file. -/
def readSize (fileSize offset : UInt64) (size : UInt32) : UInt32 :=
  if size < (fileSize - offset).toUInt32 then size else (fileSize - offset).toUInt32

def readFirst (offset : UInt64) : UInt32 := (offset / UInt64.ofNat BLOCK_SIZE).toUInt32

def readLast (fileSize offset : UInt64) (size : UInt32) : UInt32 :=
  ((offset + (readSize fileSize offset size).toUInt64) / UInt64.ofNat BLOCK_SIZE).toUInt32

def readRows (fileSize offset : UInt64) (size : UInt32) : UInt32 := readLast fileSize offset size - readFirst offset + 1

def readCount (fileSize offset : UInt64) (size : UInt32) : Nat := min size.toNat (fileSize.toNat - offset.toNat)

def readSpan (fileSize offset : UInt64) (size : UInt32) : Nat :=
  (offset.toNat + readCount fileSize offset size) / BLOCK_SIZE - offset.toNat / BLOCK_SIZE + 1

/-- The number of bytes up to the end of the file, the numbers of the blocks, how many there are and
the size of the buffer for them come out of blkfile_do_read as they are. -/
structure ReadValues (fileSize offset : UInt64) (size : UInt32) : Prop where
  left : (fileSize - offset).toUInt32.toNat = fileSize.toNat - offset.toNat
  number : ∀ j < readSpan fileSize offset size,
    (readFirst offset + UInt32.ofNat j).toNat = offset.toNat / BLOCK_SIZE + j
  last : (readLast fileSize offset size).toNat = (offset.toNat + readCount fileSize offset size) / BLOCK_SIZE
  count : (readRows fileSize offset size).toNat = readSpan fileSize offset size
  room : (readRows fileSize offset size * UInt32.ofNat BLOCK_SIZE).toNat = readSpan fileSize offset size * BLOCK_SIZE

structure ReadFits (fileSize offset : UInt64) (size : UInt32) : Prop where
  left : fileSize.toNat - offset.toNat < 2 ^ 32
  finish : offset.toNat + readCount fileSize offset size < 2 ^ 42
  room : readSpan fileSize offset size * BLOCK_SIZE < 2 ^ 32

theorem readSize_toNat (left : (fileSize - offset).toUInt32.toNat = fileSize.toNat - offset.toNat) :
    (readSize fileSize offset size).toNat = readCount fileSize offset size := by
  unfold readSize readCount
  split_ifs with less
  · rw [UInt32.lt_iff_toNat_lt] at less
    omega
  · rw [UInt32.lt_iff_toNat_lt] at less
    omega

theorem rows32_toNat (rows : UInt32) : (rows * UInt32.ofNat BLOCK_SIZE).toNat = rows.toNat * 1024 % 2 ^ 32 := by
  rw [UInt32.toNat_mul]
  rfl

theorem readValues_iff (before : offset < fileSize) :
    ReadValues fileSize offset size ↔ ReadFits fileSize offset size := by
  rw [UInt64.lt_iff_toNat_lt] at before
  have large := fileSize.toNat_lt
  have difference : (fileSize - offset).toNat = fileSize.toNat - offset.toNat :=
    UInt64.toNat_sub_of_le _ _ (UInt64.le_iff_toNat_le.mpr before.le)
  have left : (fileSize - offset).toUInt32.toNat = (fileSize.toNat - offset.toNat) % 2 ^ 32 := by
    rw [UInt64.toNat_toUInt32, difference]
  have first : (readFirst offset).toNat = offset.toNat / 1024 % 2 ^ 32 := by
    unfold readFirst
    rw [UInt64.toNat_toUInt32, row_toNat]
  have le : readCount fileSize offset size ≤ fileSize.toNat - offset.toNat := Nat.min_le_right _ _
  have last (exact : (readSize fileSize offset size).toNat = readCount fileSize offset size) :
      (readLast fileSize offset size).toNat = (offset.toNat + readCount fileSize offset size) / 1024 % 2 ^ 32 := by
    have whole : (offset + (readSize fileSize offset size).toUInt64).toNat =
        offset.toNat + readCount fileSize offset size := by
      rw [UInt64.toNat_add, UInt32.toNat_toUInt64, exact]
      omega
    unfold readLast
    rw [UInt64.toNat_toUInt32, row_toNat, whole]
  constructor
  · intro values
    have number := values.last
    have count := values.room
    rw [last (readSize_toNat values.left)] at number
    change _ = (offset.toNat + readCount fileSize offset size) / 1024 at number
    refine ⟨?_, ?_, ?_⟩
    · have word := values.left
      rw [left] at word
      omega
    · omega
    · rw [← count]
      exact UInt32.toNat_lt _
  · rintro ⟨small, fits, room⟩
    have word : (fileSize - offset).toUInt32.toNat = fileSize.toNat - offset.toNat := by
      rw [left]
      omega
    have last := last (readSize_toNat word)
    have span : readSpan fileSize offset size =
      (offset.toNat + readCount fileSize offset size) / 1024 - offset.toNat / 1024 + 1 := rfl
    have count : (readRows fileSize offset size).toNat = readSpan fileSize offset size := by
      unfold readRows
      rw [UInt32.toNat_add, UInt32.toNat_sub, last, first, UInt32.toNat_one, span]
      omega
    refine ⟨word, fun j inside => ?_, ?_, count, ?_⟩
    · rw [UInt32.toNat_add, first, UInt32.toNat_ofNat']
      change _ = offset.toNat / 1024 + j
      omega
    · rw [last]
      change _ = _ / 1024
      omega
    · rw [rows32_toNat, count]
      exact Nat.mod_eq_of_lt room

end Values

/-! What a write does to the bytes of its inode. -/

section Written
variable {fileSize offset : UInt64} {size : UInt32} {s : InodeStore} {ino : UInt32} {data : List UInt8}

theorem readsOld_iff : ReadsOld fileSize (extent fileSize offset size) ↔
    offset.toNat / BLOCK_SIZE ≤ fileSize.toNat / BLOCK_SIZE ∧ fileSize ≠ 0 := by
  obtain ⟨start, -⟩ := extent_blocks fileSize offset size
  have same : fileSize / UInt64.ofNat BLOCK_SIZE < (extent fileSize offset size).startBlock ↔
      ¬ offset.toNat / BLOCK_SIZE ≤ fileSize.toNat / BLOCK_SIZE := by
    rw [start, UInt64.lt_iff_toNat_lt, row_toNat, row_toNat, Nat.not_le]
    rfl
  unfold ReadsOld
  rw [same, not_or, not_not]

/-- How many old blocks a write wants to read. -/
theorem nblocks_toNat (fits : offset.toNat + size.toNat < 2 ^ 42)
    (reads : ReadsOld fileSize (extent fileSize offset size)) :
    (extent fileSize offset size).nblocks.toNat =
      min (fileSize.toNat / BLOCK_SIZE) ((offset.toNat + size.toNat) / BLOCK_SIZE) - offset.toNat / BLOCK_SIZE + 1 := by
  have small := size.toNat_lt
  obtain ⟨behind, -⟩ := readsOld_iff.mp reads
  have finish := (@putValues_iff fileSize offset size).mpr fits |>.finish
  change _ / 1024 ≤ _ / 1024 at behind
  change _ = min (_ / 1024) (_ / 1024) - _ / 1024 + 1
  by_cases extends_ : fileSize < offset + size.toUInt64
  · have less := UInt64.lt_iff_toNat_lt.mp extends_
    rw [finish] at less
    have count : (extent fileSize offset size).nblocks.toNat =
        (fileSize.toNat / 1024 - offset.toNat / 1024 + 1) % 2 ^ 32 := by
      unfold extent
      dsimp only
      rw [if_pos extends_, UInt64.toNat_toUInt32, UInt64.toNat_add, UInt64.toNat_sub, row_toNat, row_toNat,
        UInt64.toNat_one]
      omega
    rw [count]
    omega
  · have count : (extent fileSize offset size).nblocks = (extent fileSize offset size).rows.toUInt32 := by
      unfold Extent.rows extent
      dsimp only
      rw [if_neg extends_]
    have le := UInt64.le_iff_toNat_le.mp (UInt64.not_lt.mp extends_)
    rw [finish] at le
    rw [count, ((@putValues_iff fileSize offset size).mpr fits).count]
    change _ / 1024 - _ / 1024 + 1 = _
    omega

abbrev absent (s : InodeStore) (ino : UInt32) : UInt32 → Bool := missing s ino fun _ => false

theorem absent_iff {b : UInt32} : absent s ino b = true ↔ (s.blocks ino).length ≤ b.toNat := by
  unfold absent missing
  rw [Bool.false_or, decide_eq_true_iff]

/-- A byte of a block that is not there is zero. -/
theorem byte_absent {i : Nat} (gone : (s.blocks ino).length ≤ i / BLOCK_SIZE) : s.byte ino i = 0 := by
  unfold InodeStore.byte
  rw [List.getD_eq_getElem?_getD, List.getElem?_eq_none gone]
  rfl

theorem place_back {first : UInt32} {i : Nat} (le : first.toNat ≤ i / BLOCK_SIZE) (word : i / BLOCK_SIZE < 2 ^ 32) :
    place first (i - first.toNat * BLOCK_SIZE) = i := by
  obtain ⟨row, -⟩ := place_row le
  have low : first.toNat * BLOCK_SIZE ≤ i := (Nat.mul_le_mul_right _ le).trans (Nat.div_mul_le_self i BLOCK_SIZE)
  have same : (i - first.toNat * BLOCK_SIZE) % BLOCK_SIZE = i % BLOCK_SIZE := by
    rw [Nat.mul_comm, Nat.sub_mul_mod (by rwa [Nat.mul_comm])]
  have sum : (first + UInt32.ofNat (i / BLOCK_SIZE - first.toNat)).toNat = i / BLOCK_SIZE := by
    rw [UInt32.toNat_add, UInt32.toNat_ofNat']
    omega
  unfold place
  rw [row, same, sum]
  exact Nat.div_add_mod' i BLOCK_SIZE

variable {cache : Cache} {stat : FileStat} {after : InodeStore}

/-- The end of a loop that no call fails. -/
theorem served_all (first : UInt32) (left : Nat) : served (fun _ => false) first left = left := by
  induction left generalizing first with
  | zero => rfl
  | succ left ih => exact congrArg Nat.succ (ih _)

/-- After a write whose numbers fit, the bytes are the data, zeros in blocks that have not been
read, and else the old ones. -/
theorem Puts.byte_eq (puts : Puts InodeStore.serve (fun _ => false)
    (fun _ => false) cache ino stat offset data size s after)
    (fits : offset.toNat + size.toNat < 2 ^ 42) (sized : size.toNat = data.length) (i : Nat) : after.byte ino i =
      if offset.toNat ≤ i ∧ i < offset.toNat + data.length then data.getD (i - offset.toNat) 0
      else if offset.toNat / BLOCK_SIZE + oldBlocks s ino
        (fun _ => false) stat.stSize (extent stat.stSize offset size) ≤ i / BLOCK_SIZE ∧
        i / BLOCK_SIZE ≤ (offset.toNat + data.length) / BLOCK_SIZE then 0
      else s.byte ino i := by
  have values := (@putValues_iff stat.stSize offset size).mpr fits
  obtain ⟨uid, sent, others, -, -, new, old⟩ := puts.wrote
  have first := values.number 0 (Nat.zero_le _)
  rw [show (extent stat.stSize offset size).startBlock.toUInt32 + UInt32.ofNat 0 = _ from UInt32.add_zero _,
    Nat.add_zero] at first
  rw [served_all, values.count] at new old
  rw [sized] at new old fits
  have whole := Nat.div_add_mod' offset.toNat BLOCK_SIZE
  have column := Nat.mod_lt offset.toNat (show 0 < BLOCK_SIZE by decide)
  have low : offset.toNat ≤ i → offset.toNat / BLOCK_SIZE ≤ i / BLOCK_SIZE := fun le => Nat.div_le_div_right le
  have high : i < offset.toNat + data.length →
    i / BLOCK_SIZE ≤ (offset.toNat + data.length) / BLOCK_SIZE := fun less => Nat.div_le_div_right less.le
  have top : (offset.toNat + data.length) / BLOCK_SIZE < 2 ^ 32 :=
    Nat.div_lt_of_lt_mul (Nat.lt_of_lt_of_le fits (by decide))
  by_cases inside : offset.toNat / BLOCK_SIZE ≤ i / BLOCK_SIZE ∧
    i / BLOCK_SIZE ≤ (offset.toNat + data.length) / BLOCK_SIZE
  · have below : offset.toNat / BLOCK_SIZE * BLOCK_SIZE ≤ i :=
      (Nat.mul_le_mul_right _ inside.1).trans (Nat.div_mul_le_self i BLOCK_SIZE)
    obtain ⟨row, -⟩ := place_row inside.1
    have back := @place_back (extent stat.stSize offset size).startBlock.toUInt32 i
      (by rw [first]; exact inside.1) (by omega)
    rw [first] at back
    have byte := new (i - offset.toNat / BLOCK_SIZE * BLOCK_SIZE) (by omega)
    rw [back] at byte
    rw [byte]
    unfold putByte
    rw [row, back]
    by_cases written : offset.toNat ≤ i ∧ i < offset.toNat + data.length
    · rw [if_pos (by omega), if_pos written]
      congr 1
      omega
    · rw [if_neg (by omega), if_neg written]
      by_cases read : i / BLOCK_SIZE - offset.toNat / BLOCK_SIZE < oldBlocks s ino
        (fun _ => false) stat.stSize (extent stat.stSize offset size)
      · rw [if_pos read, if_neg (by omega)]
      · rw [if_neg read, if_pos (by omega)]
  · have ordered : offset.toNat / BLOCK_SIZE ≤ (offset.toNat + data.length) / BLOCK_SIZE :=
      Nat.div_le_div_right (Nat.le_add_right _ _)
    rw [if_neg fun written => inside ⟨low written.1, high written.2⟩, if_neg (by omega)]
    refine old i fun j less => ?_
    rw [values.number j (by rw [sized]; omega)]
    omega

def writtenByte (s : InodeStore) (ino : UInt32) (fileSize offset : UInt64) (data : List UInt8) (i : Nat) : UInt8 :=
  if offset.toNat ≤ i ∧ i < offset.toNat + data.length then data.getD (i - offset.toNat) 0
  else if i < fileSize.toNat then s.byte ino i else 0

/-- The bytes stored from the end of the file up to the write are zeros. A write that starts in a
block behind the file, or in an empty file, does not keep the bytes of that block. -/
def GapZero (s : InodeStore) (ino : UInt32) (fileSize offset : UInt64) : Prop :=
  ∀ i < offset.toNat, fileSize.toNat ≤ i →
    offset.toNat / BLOCK_SIZE ≤ fileSize.toNat / BLOCK_SIZE ∧ fileSize ≠ 0 ∨
      i < offset.toNat / BLOCK_SIZE * BLOCK_SIZE → s.byte ino i = 0

/-- If the first block cannot be read, the gap is behind the last block. -/
theorem gapZero_of_unreadable (unreadable : Unreadable s ino (fun _ => false) fileSize (extent fileSize offset size))
    (fits : offset.toNat + size.toNat < 2 ^ 42) : GapZero s ino fileSize offset := by
  obtain ⟨reads, -, gone⟩ := unreadable
  obtain ⟨behind, -⟩ := readsOld_iff.mp reads
  have first := (@putValues_iff fileSize offset size).mpr fits |>.number 0 (Nat.zero_le _)
  rw [show (extent fileSize offset size).startBlock.toUInt32 + UInt32.ofNat 0 = _ from UInt32.add_zero _,
    Nat.add_zero] at first
  have gone := absent_iff.mp gone
  rw [first] at gone
  intro i less le _
  refine byte_absent (gone.trans ?_)
  exact behind.trans (Nat.div_le_div_right le)

/-- The first block has been read if it is needed. -/
theorem oldBlocks_pos (reads : ReadsOld fileSize (extent fileSize offset size))
    (fits : offset.toNat + size.toNat < 2 ^ 42)
    (readable : ¬ Unreadable s ino (fun _ => false) fileSize (extent fileSize offset size)) :
    0 < oldBlocks s ino (fun _ => false) fileSize (extent fileSize offset size) := by
  have count := nblocks_toNat fits reads
  unfold oldBlocks
  rw [if_pos reads, Nat.pos_iff_ne_zero]
  intro none
  have some : (extent fileSize offset size).nblocks ≠ 0 := by
    intro zero
    rw [zero, UInt32.toNat_zero] at count
    omega
  exact readable ⟨reads, some, served_none_iff.mp none (by omega)⟩

/-- A block of the file that has not been read is not stored. -/
theorem unread_absent (reads : ReadsOld fileSize (extent fileSize offset size))
    (fits : offset.toNat + size.toNat < 2 ^ 42) {b : Nat}
    (unread : offset.toNat / BLOCK_SIZE + oldBlocks s ino (fun _ => false) fileSize (extent fileSize offset size) ≤ b)
    (inside : b ≤ min (fileSize.toNat / BLOCK_SIZE) ((offset.toNat + size.toNat) / BLOCK_SIZE)) :
    (s.blocks ino).length ≤ b := by
  have count := nblocks_toNat fits reads
  have values := (@putValues_iff fileSize offset size).mpr fits
  unfold oldBlocks at unread
  rw [if_pos reads] at unread
  obtain ⟨-, stopped⟩ := served_spec (missing s ino fun _ => false) (extent fileSize offset size).startBlock.toUInt32
    (extent fileSize offset size).nblocks.toNat
  have gone := absent_iff.mp (stopped (by omega))
  rw [values.number _ (by omega)] at gone
  exact gone.trans unread

/-- The bytes are those that the write is to leave exactly if the gap in front of it is stored as zeros. -/
theorem Puts.exact_iff (puts : Puts InodeStore.serve (fun _ => false)
    (fun _ => false) cache ino stat offset data size s after)
    (fits : offset.toNat + size.toNat < 2 ^ 42) (sized : size.toNat = data.length)
    (readable : ¬ Unreadable s ino (fun _ => false) stat.stSize (extent stat.stSize offset size)) :
    (∀ i < max stat.stSize.toNat (offset.toNat + size.toNat),
      after.byte ino i = writtenByte s ino stat.stSize offset data i) ↔
      GapZero s ino stat.stSize offset := by
  have byte := puts.byte_eq fits sized
  constructor
  · intro same i less le kept
    have here := same i (by omega)
    unfold writtenByte at here
    have before : ¬ (offset.toNat ≤ i ∧ i < offset.toNat + data.length) := fun written => Nat.not_le.mpr less written.1
    rw [byte, if_neg before, if_neg before, if_neg (Nat.not_lt.mpr le)] at here
    rwa [if_neg] at here
    rintro ⟨above, -⟩
    have row : i / BLOCK_SIZE ≤ offset.toNat / BLOCK_SIZE := Nat.div_le_div_right less.le
    rcases kept with reads | early
    · have some := oldBlocks_pos (readsOld_iff.mpr reads) fits readable
      omega
    · have earlier := Nat.div_lt_of_lt_mul (Nat.mul_comm .. ▸ early)
      omega
  · intro zero i below
    unfold writtenByte
    rw [byte]
    by_cases written : offset.toNat ≤ i ∧ i < offset.toNat + data.length
    · rw [if_pos written, if_pos written]
    rw [if_neg written, if_neg written]
    by_cases cleared : offset.toNat / BLOCK_SIZE + oldBlocks s ino
      (fun _ => false) stat.stSize (extent stat.stSize offset size) ≤ i / BLOCK_SIZE ∧
        i / BLOCK_SIZE ≤ (offset.toNat + data.length) / BLOCK_SIZE
    · rw [if_pos cleared]
      split_ifs with old
      · have row : i / BLOCK_SIZE ≤ stat.stSize.toNat / BLOCK_SIZE := Nat.div_le_div_right old.le
        have reads : ReadsOld stat.stSize (extent stat.stSize offset size) := by
          refine readsOld_iff.mpr ⟨by omega, ?_⟩
          intro none
          rw [none] at old
          exact Nat.not_lt_zero _ old
        exact (byte_absent (unread_absent reads fits cleared.1 (by rw [sized]; omega))).symm
      · rfl
    · rw [if_neg cleared]
      split_ifs with old
      · rfl
      · have less : i < offset.toNat := by omega
        refine zero i less (Nat.not_lt.mp old) ?_
        by_contra unkept
        obtain ⟨unread, late⟩ := not_or.mp unkept
        have none : oldBlocks s ino (fun _ => false) stat.stSize (extent stat.stSize offset size) = 0 :=
          if_neg (mt readsOld_iff.mp unread)
        have first : offset.toNat / BLOCK_SIZE ≤ i / BLOCK_SIZE :=
          (Nat.le_div_iff_mul_le (by decide)).mpr (Nat.not_lt.mp late)
        have last : i / BLOCK_SIZE ≤ (offset.toNat + data.length) / BLOCK_SIZE := Nat.div_le_div_right (by omega)
        exact cleared ⟨by omega, last⟩

end Written

/-! Requests. -/

def Answered (s : InodeStore) (src : Pid) (good : FileReply → Cache → InodeStore → Prop) (after : Cache)
    (t : InodeStore) : Prop :=
  ∀ reply, t.sent = s.sent ++ [(src, reply)] → reply.status = .error ∨ good reply after t

/-- The file has the data at its place and zeros in a gap before it, and nothing else has changed. -/
structure WroteExactly (cache : Cache) (s : InodeStore) (req : FileRequest) (data : List UInt8)
    (stat : FileStat) (after : Cache) (t : InodeStore) :
    Prop where
  entries : after = cache.put req.ino { stat with stSize := UInt64.ofNat (max stat.stSize.toNat (req.offset.toNat + req.size.toNat)) }
  others : ∀ f, f ≠ 0 → f ≠ req.ino → t.blocks f = s.blocks f
  bytes : req.ino ≠ 0 → ∀ i < max stat.stSize.toNat (req.offset.toNat + req.size.toNat),
    t.byte req.ino i = writtenByte s req.ino stat.stSize req.offset data i

/-- The reply has the bytes from the offset on, up to the size of the request or of the file. -/
def bytesRead (s : InodeStore) (req : FileRequest) (stat : FileStat) : FileReply :=
  readReply (UInt64.ofNat (readCount stat.stSize req.offset req.size))
    ((List.range (readCount stat.stSize req.offset req.size)).map fun i => s.byte req.ino (req.offset.toNat + i))

section Requests
variable {cache : Cache} {s : InodeStore} {req : FileRequest} {data : List UInt8} {src : Pid} {stat : FileStat}

theorem answered_iff {good : FileReply → Cache → InodeStore → Prop} {after : Cache} {t : InodeStore} {reply : FileReply}
    (new : t.sent = s.sent ++ [(src, reply)]) :
    Answered s src good after t ↔ (reply.status = .error ∨ good reply after t) := by
  refine ⟨fun answered => answered reply new, fun holds other again => ?_⟩
  have same := List.append_cancel_left (new.symm.trans again)
  cases same
  exact holds

theorem answered_refused (good : FileReply → Cache → InodeStore → Prop) :
    Refusable InodeStore.serve cache s src (Answered s src good) where
  delivers := InodeStore.delivers
  refused := (answered_iff rfl).mpr (.inl rfl)

theorem finalSize_eq {fileSize offset : UInt64} {size : UInt32} (fits : offset.toNat + size.toNat < 2 ^ 42) :
    (extent fileSize offset size).finalSize = UInt64.ofNat (max fileSize.toNat (offset.toNat + size.toNat)) := by
  have finish := (@putValues_iff fileSize offset size).mpr fits |>.finish
  unfold extent
  dsimp only
  by_cases extends_ : fileSize < offset + size.toUInt64
  · have less := UInt64.lt_iff_toNat_lt.mp extends_
    rw [finish] at less
    rw [if_pos extends_, Nat.max_eq_right less.le, ← finish, UInt64.ofNat_toNat]
  · have le := UInt64.le_iff_toNat_le.mp (UInt64.not_lt.mp extends_)
    rw [finish] at le
    rw [if_neg extends_, Nat.max_eq_left le, UInt64.ofNat_toNat]

/-- The end of a write that can read what it needs. -/
theorem write_returns (inside : req.ino.toNat < MAX_INODES) (cache : Cache) (src : Pid)
    (readable : ¬ Unreadable s req.ino (fun _ => false) stat.stSize (extent stat.stSize req.offset req.size)) :
    ∃ middle last, Puts InodeStore.serve (fun _ => false)
      (fun _ => false) cache req.ino stat req.offset data req.size s middle ∧ Flushed middle last ∧
      (do
        match ← put cache req.ino stat req.offset data req.size with
        | none => refuse cache src
        | some cache => do
          respond .ok src
          pure cache : Server Cache).run InodeStore.serve s =
        .done (cache.put req.ino { stat with stSize := (extent stat.stSize req.offset req.size).finalSize })
            (InodeStore.reply last src (.cleared .ok)) := by
  obtain ⟨middle, puts⟩ := @put_serves InodeStore.serve req.ino _ _ (fun _ => false)
    (fun _ => false) s req.offset req.size data stat
    (InodeStore.serves inside) (InodeStore.serves (by decide)) cache readable
  obtain ⟨last, ran, kept⟩ := puts.returns (served_all _ _)
  refine ⟨middle, last, puts, kept, ?_⟩
  rw [Effect.run_bind, Prog.bind_done ran]
  unfold respond
  dsimp only
  rw [Effect.run_bind, Prog.bind_done (send_delivers InodeStore.delivers _)]
  rfl

/-- The end of a write, from blkfile_put on, when its numbers fit. -/
theorem write_exact_iff (found : cache.allocated req.ino = some stat)
    (fits : req.offset.toNat + req.size.toNat < 2 ^ 42)
    (sized : req.size.toNat = data.length) :
    Ends InodeStore.serve s (Answered s src fun _ after t => ∃ stat, cache.allocated req.ino = some stat ∧
        WroteExactly cache s req data stat after t) (do
      match ← put cache req.ino stat req.offset data req.size with
      | none => refuse cache src
      | some cache => do
        respond .ok src
        pure cache) ↔ (req.ino ≠ 0 → GapZero s req.ino stat.stSize req.offset) := by
  obtain ⟨inside, -, -⟩ := allocated_eq found
  by_cases unreadable : Unreadable s req.ino (fun _ => false) stat.stSize (extent stat.stSize req.offset req.size)
  · rw [ends_bind (put_unreadable (InodeStore.serves inside) cache unreadable)]
    exact ⟨fun _ _ => gapZero_of_unreadable unreadable fits, fun _ => (answered_refused _).refuse⟩
  obtain ⟨middle, last, puts, kept, ends⟩ := @write_returns s req data stat inside cache src unreadable
  have new : (InodeStore.reply last src (.cleared .ok)).sent = s.sent ++ [(src, .cleared .ok)] := by
    change last.sent ++ _ = _
    rw [kept.sent, puts.wrote.sent]
  have bytes (some : req.ino ≠ 0) (i : Nat) : (InodeStore.reply last src (.cleared .ok)).byte req.ino i =
      middle.byte req.ino i := by
    unfold InodeStore.byte
    rw [show (InodeStore.reply last src (.cleared .ok)).blocks req.ino = middle.blocks req.ino from kept.blocks _ some]
  rw [ends_done ends, answered_iff new]
  constructor
  · rintro (error | ⟨other, found', wrote⟩) some
    · cases error
    · rw [found] at found'
      cases found'
      refine (puts.exact_iff fits sized unreadable).mp fun i below => ?_
      rw [← bytes some]
      exact wrote.bytes some i below
  · intro gap
    refine .inr ⟨stat, found, ?_, fun f some apart => ?_, fun some i below => ?_⟩
    · rw [finalSize_eq fits]
    · exact (kept.blocks f some).trans (puts.wrote.others f apart)
    · rw [bytes some]
      exact (puts.exact_iff fits sized unreadable).mpr (gap some) i below

/-- The bytes of a read are in its blocks. -/
theorem slice_exact {contents : Buffer} (values : ReadValues stat.stSize req.offset req.size)
    (bytes : ∀ k, k / BLOCK_SIZE < readSpan stat.stSize req.offset req.size →
    contents.byte k = s.byte req.ino (place (readFirst req.offset) k)) :
    contents.slice (req.offset.toNat % BLOCK_SIZE) (readSize stat.stSize req.offset req.size).toNat =
      (List.range (readCount stat.stSize req.offset req.size)).map fun i => s.byte req.ino (req.offset.toNat + i) := by
  unfold Buffer.slice
  rw [readSize_toNat values.left]
  refine List.map_congr_left fun i member => ?_
  have below := List.mem_range.mp member
  have sum : req.offset.toNat / BLOCK_SIZE + (req.offset.toNat % BLOCK_SIZE + i) / BLOCK_SIZE =
      (req.offset.toNat + i) / BLOCK_SIZE := by
    change _ / 1024 + (_ % 1024 + i) / 1024 = _ / 1024
    omega
  have column : (req.offset.toNat % BLOCK_SIZE + i) % BLOCK_SIZE = (req.offset.toNat + i) % BLOCK_SIZE :=
    Nat.mod_add_mod ..
  have row : (req.offset.toNat % BLOCK_SIZE + i) / BLOCK_SIZE < readSpan stat.stSize req.offset req.size := by
    have last : (req.offset.toNat + i) / BLOCK_SIZE ≤
        (req.offset.toNat + readCount stat.stSize req.offset req.size) / BLOCK_SIZE :=
      Nat.div_le_div_right (by omega)
    unfold readSpan
    omega
  have here : place (readFirst req.offset) (req.offset.toNat % BLOCK_SIZE + i) = req.offset.toNat + i := by
    unfold place
    rw [values.number _ row, column, sum]
    exact Nat.div_add_mod' ..
  rw [bytes _ row, here]

def ReadExactly (cache : Cache) (s : InodeStore) (req : FileRequest) (stat : FileStat) (reply : FileReply)
    (outcome : Outcome InodeStore Halt Cache) :
    Prop :=
  reply = bytesRead s req stat ∧ outcome.state.blocks = s.blocks ∧ ∀ after t, outcome = .done after t → after = cache

/-- The sender gets an error or what it should, also if the server stops afterwards. -/
def Replied (s : InodeStore) (src : Pid) (good : FileReply → Outcome InodeStore Halt Cache → Prop)
    (outcome : Outcome InodeStore Halt Cache) : Prop :=
  ∀ reply, outcome.state.sent = s.sent ++ [(src, reply)] → reply.status = .error ∨ good reply outcome

theorem replied_iff {good : FileReply → Outcome InodeStore Halt Cache → Prop}
    {outcome : Outcome InodeStore Halt Cache} {reply : FileReply}
    (new : outcome.state.sent = s.sent ++ [(src, reply)]) :
    Replied s src good outcome ↔ (reply.status = .error ∨ good reply outcome) := by
  refine ⟨fun replied => replied reply new, fun holds other again => ?_⟩
  cases List.append_cancel_left (new.symm.trans again)
  exact holds

theorem replied_refused {good : FileReply → Outcome InodeStore Halt Cache → Prop} :
    Replied s src good ((refuse cache src).run InodeStore.serve s) := by
  rw [refuse_delivers InodeStore.delivers]
  exact (replied_iff rfl).mpr (.inl rfl)

/-- No reply is sent. -/
theorem replied_silent {good : FileReply → Outcome InodeStore Halt Cache → Prop} {reason : Halt} :
    Replied s src good (.halted reason s) := by
  intro reply new
  have none := List.self_eq_append_right.mp (show s.sent = _ from new)
  cases none

/-- The reply is freed, or the server stops. -/
theorem freeReply_cases (ext : UInt32) (s : InodeStore) :
    (freeReply ext).run InodeStore.serve s = .done () s ∨
        (freeReply ext).run InodeStore.serve s = .halted .overflow s := by
  unfold freeReply
  split_ifs
  · exact .inl rfl
  · exact .inr rfl

theorem replied_freed {good : FileReply → Outcome InodeStore Halt Cache → Prop} {ext : UInt32} :
    Replied s src good ((freeReply ext >>= fun _ => refuse cache src).run InodeStore.serve s) := by
  rw [Effect.run_bind]
  rcases freeReply_cases ext s with freed | overruns
  · rw [Prog.bind_done freed]
    exact replied_refused
  · rw [Prog.bind_halted overruns]
    exact replied_silent

theorem replied_read {ext : UInt32} : Replied s src (ReadExactly cache s req stat)
    ((freeReply ext >>= fun _ => pure cache).run InodeStore.serve (InodeStore.reply s src (bytesRead s req stat))) := by
  rw [Effect.run_bind]
  rcases freeReply_cases ext (InodeStore.reply s src (bytesRead s req stat)) with freed | overruns
  · rw [Prog.bind_done freed]
    refine (replied_iff rfl).mpr (.inr ⟨rfl, rfl, fun after t ran => ?_⟩)
    cases ran
    rfl
  · rw [Prog.bind_halted overruns]
    exact (replied_iff rfl).mpr (.inr ⟨rfl, rfl, fun _ _ => nofun⟩)

theorem readContents_eq : readContents cache req stat src = (do
    match ← multiblockRead req.ino (readFirst req.offset)
      (.clear (readRows stat.stSize req.offset req.size * UInt32.ofNat BLOCK_SIZE).toNat)
      (readRows stat.stSize req.offset req.size) with
    | none => do
      freeReply req.size
      refuse cache src
    | some (count, contents) =>
      if count ≠ (readRows stat.stSize req.offset req.size).toNat then do
        freeReply req.size
        refuse cache src
      else if contents.capacity < req.offset.toNat % BLOCK_SIZE +
        (readSize stat.stSize req.offset req.size).toNat then .halt .overflow
      else do
        call (.send src (readReply (readSize stat.stSize req.offset req.size).toUInt64
          (contents.slice (req.offset.toNat % BLOCK_SIZE) (readSize stat.stSize req.offset req.size).toNat)))
        freeReply req.size
        pure cache) := rfl

/-- A read whose numbers fit is refused if a block is missing. -/
theorem readContents_serves (inside : req.ino.toNat < MAX_INODES)
    (values : ReadValues stat.stSize req.offset req.size) :
    (readContents cache req stat src).run InodeStore.serve s =
      if served (absent s req.ino) (readFirst req.offset) (readSpan stat.stSize req.offset req.size) =
        readSpan stat.stSize req.offset req.size
        then (freeReply req.size >>= fun _ => pure cache).run InodeStore.serve
          (InodeStore.reply s src (bytesRead s req stat))
        else (freeReply req.size >>= fun _ => refuse cache src).run InodeStore.serve s := by
  obtain ⟨filled, ran, capacity, bytes⟩ := @readBlocks_serves InodeStore.serve req.ino _ _ s (InodeStore.serves inside)
    (readRows stat.stSize req.offset req.size).toNat 0 (readFirst req.offset)
    (.clear (readRows stat.stSize req.offset req.size * UInt32.ofNat BLOCK_SIZE).toNat)
    (by rw [Nat.zero_add, values.count]; exact values.room.ge)
  simp only [Nat.zero_add, Nat.zero_le, true_and, Nat.zero_mul, Nat.sub_zero, values.count] at ran bytes
  have read : (multiblockRead req.ino (readFirst req.offset)
    (.clear (readRows stat.stSize req.offset req.size * UInt32.ofNat BLOCK_SIZE).toNat)
      (readRows stat.stSize req.offset req.size)).run InodeStore.serve s =
        .done (if served (absent s req.ino) (readFirst req.offset) (readSpan stat.stSize req.offset req.size) = 0 ∧
          readRows stat.stSize req.offset req.size ≠ 0 then none
        else some (served (absent s req.ino) (readFirst req.offset) (readSpan stat.stSize req.offset req.size), filled))
            s := by
    unfold multiblockRead
    rw [values.count, Effect.run_bind, Prog.bind_done ran]
    rfl
  rw [readContents_eq, Effect.run_bind, Prog.bind_done read]
  by_cases all : served (absent s req.ino) (readFirst req.offset) (readSpan stat.stSize req.offset req.size) =
    readSpan stat.stSize req.offset req.size
  · have some : ¬ (served (absent s req.ino) (readFirst req.offset) (readSpan stat.stSize req.offset req.size) = 0 ∧
        readRows stat.stSize req.offset req.size ≠ 0) := fun none => Nat.succ_ne_zero _ (all.symm.trans none.1)
    have enough : ¬ filled.capacity < req.offset.toNat % BLOCK_SIZE +
        (readSize stat.stSize req.offset req.size).toNat := by
      rw [capacity]
      change ¬ (readRows stat.stSize req.offset req.size * UInt32.ofNat BLOCK_SIZE).toNat < _
      rw [values.room, readSize_toNat values.left]
      unfold readSpan
      change ¬ (_ / 1024 - _ / 1024 + 1) * 1024 < _ % 1024 + _
      omega
    have slice := slice_exact values fun k row => by rw [bytes k, if_pos (by rwa [all])]
    rw [if_neg some, if_pos all]
    dsimp only
    rw [values.count, if_neg (not_not.mpr all), if_neg enough, Effect.run_bind,
      Prog.bind_done (send_delivers InodeStore.delivers _), slice,
      ← UInt64.ofNat_uInt32ToNat, readSize_toNat values.left]
    rfl
  · rw [if_neg all]
    split_ifs
    · rfl
    · dsimp only
      rw [values.count, if_pos all]

theorem readContents_exact (inside : req.ino.toNat < MAX_INODES) (fits : ReadFits stat.stSize req.offset req.size)
    (before : req.offset < stat.stSize) :
    Replied s src (ReadExactly cache s req stat) ((readContents cache req stat src).run InodeStore.serve s) := by
  rw [readContents_serves inside ((readValues_iff before).mpr fits)]
  split_ifs
  · exact replied_read
  · exact replied_freed

/-- A read of nothing, or behind the file. -/
theorem bytesRead_nothing (nothing : ¬ (req.size ≠ 0 ∧ req.offset < stat.stSize)) :
    bytesRead s req stat = readReply 0 [] := by
  have none : readCount stat.stSize req.offset req.size = 0 := by
    unfold readCount
    rcases not_and_or.mp nothing with zero | behind
    · rw [not_not.mp zero]
      exact Nat.zero_min _
    · rw [UInt64.not_lt, UInt64.le_iff_toNat_le] at behind
      omega
  unfold bytesRead
  rw [none]
  rfl

theorem read_nothing (nothing : ¬ (req.size ≠ 0 ∧ req.offset < stat.stSize)) :
    Replied s src (ReadExactly cache s req stat) ((do
      call (.send src (readReply 0 []))
      freeReply req.size
      pure cache : Server Cache).run InodeStore.serve s) := by
  rw [Effect.run_bind, Prog.bind_done (send_delivers InodeStore.delivers _), ← bytesRead_nothing nothing]
  exact replied_read

/-- The numbers on the way of a request that is carried out are exact, and it ends with an error or
with the bytes at their places. -/
def OffsetsExact (cache : Cache) (s : InodeStore) (req : FileRequest) (data : List UInt8) (src : Pid) : Prop :=
  match req.type with
  | .write =>
    (∀ stat u, cache.allocated req.ino = some stat → s.uid src = some u →
      Permitted P_FILE_OWNER_WRITE P_FILE_OTHER_WRITE u stat →
      req.size.toNat = data.length → PutValues stat.stSize req.offset req.size) ∧
    Ends InodeStore.serve s (Answered s src fun _ after t => ∃ stat, cache.allocated req.ino = some stat ∧
      WroteExactly cache s req data stat after t)
      (handle cache req data src)
  | .read =>
    (∀ stat u, cache.allocated req.ino = some stat → s.uid src = some u →
      Permitted P_FILE_OWNER_READ P_FILE_OTHER_READ u stat →
      req.size ≠ 0 ∧ req.offset < stat.stSize → ReadValues stat.stSize req.offset req.size) ∧
    Replied s src (fun reply outcome => ∃ stat, cache.allocated req.ino = some stat ∧
      ReadExactly cache s req stat reply outcome)
      ((handle cache req data src).run InodeStore.serve s)
  | _ => True

/-- The numbers of a request are small enough, and the bytes between the end of the file and a write are zeros. -/
def RequestFits (s : InodeStore) (req : FileRequest) (data : List UInt8) (stat : FileStat) (u : Uid) : Prop :=
  (req.type = .write → Permitted P_FILE_OWNER_WRITE P_FILE_OTHER_WRITE u stat → req.size.toNat = data.length →
    req.offset.toNat + req.size.toNat < 2 ^ 42 ∧ (req.ino ≠ 0 → GapZero s req.ino stat.stSize req.offset)) ∧
  (req.type = .read → Permitted P_FILE_OWNER_READ P_FILE_OTHER_READ u stat → req.size ≠ 0 ∧ req.offset < stat.stSize →
    ReadFits stat.stSize req.offset req.size)

def OffsetsFit (cache : Cache) (s : InodeStore) (req : FileRequest) (data : List UInt8) (src : Pid) : Prop :=
  ∀ stat u, cache.allocated req.ino = some stat → s.uid src = some u → RequestFits s req data stat u

theorem write_fits (write : req.type = .write) (fits : OffsetsFit cache s req data src) : Ends InodeStore.serve s
    (Answered s src fun _ after t => ∃ stat, cache.allocated req.ino = some stat ∧
      WroteExactly cache s req data stat after t)
    (handle cache req data src) := by
  unfold handle
  rw [write]
  refine (answered_refused _).file.mpr fun stat found => (answered_refused _).cond.mpr
    fun sized => (answered_refused _).granted.mpr
    fun u live permitted => ?_
  obtain ⟨small, gap⟩ := (fits stat u found live).1 write permitted (not_not.mp sized)
  exact (write_exact_iff found small (not_not.mp sized)).mpr gap

theorem read_fits (read : req.type = .read) (fits : OffsetsFit cache s req data src) :
    Replied s src (fun reply outcome => ∃ stat, cache.allocated req.ino = some stat ∧
      ReadExactly cache s req stat reply outcome)
      ((handle cache req data src).run InodeStore.serve s) := by
  unfold handle
  rw [read]
  unfold doRead readAllowed
  dsimp only
  cases found : cache.allocated req.ino with
  | none => exact replied_refused
  | some stat =>
    dsimp only
    rw [Effect.run_bind]
    cases live : s.uid src with
    | none =>
      rw [Prog.bind_halted (allowed_gone InodeStore.delivers live _ _ _)]
      exact replied_silent
    | some u =>
      rw [Prog.bind_done (allowed_delivers InodeStore.delivers live _ _ stat)]
      by_cases permitted : Permitted P_FILE_OWNER_READ P_FILE_OTHER_READ u stat
      · rw [decide_eq_true permitted]
        obtain ⟨inside, -, -⟩ := allocated_eq found
        have exact_ : Replied s src (ReadExactly cache s req stat) ((if req.size ≠ 0 ∧ req.offset < stat.stSize
            then readContents cache req stat src else do
              call (.send src (readReply 0 []))
              freeReply req.size
              pure cache : Server Cache).run InodeStore.serve s) := by
          split_ifs with reads
          · exact readContents_exact inside ((fits stat u found live).2 read permitted reads) reads.2
          · exact read_nothing reads
        exact fun reply new => (exact_ reply new).imp_right fun exactly => ⟨stat, rfl, exactly⟩
      · rw [decide_eq_false permitted]
        exact replied_refused

/-- For every file, offset and size. -/
theorem offsets_exact_iff (cache : Cache) (s : InodeStore) (req : FileRequest) (data : List UInt8) (src : Pid) :
    OffsetsExact cache s req data src ↔ OffsetsFit cache s req data src := by
  constructor
  · intro exact_ stat u found live
    unfold OffsetsExact at exact_
    refine ⟨fun write permitted sized => ?_, fun read permitted reads => ?_⟩
    · rw [write] at exact_
      obtain ⟨values, ends⟩ := exact_
      unfold handle at ends
      rw [write] at ends
      have fits := putValues_iff.mp (values stat u found live permitted sized)
      have ends := (answered_refused _).cond.mp ((answered_refused _).file.mp ends stat found) (not_not.mpr sized)
      have ends := (answered_refused _).granted.mp ends u live permitted
      exact ⟨fits, (write_exact_iff found fits sized).mp ends⟩
    · rw [read] at exact_
      exact (readValues_iff reads.2).mp (exact_.1 stat u found live permitted reads)
  · intro fits
    unfold OffsetsExact
    cases kind : req.type with
    | write =>
      refine ⟨fun stat u found live permitted sized => ?_, write_fits kind fits⟩
      exact putValues_iff.mpr ((fits stat u found live).1 kind permitted sized).1
    | read =>
      refine ⟨fun stat u found live permitted reads => ?_, read_fits kind fits⟩
      exact (readValues_iff reads.2).mpr ((fits stat u found live).2 kind permitted reads)
    | _ => trivial

end Requests

/-! A write far behind a file of one byte. -/

def shortCache : Cache :=
  Cache.put (fun _ => .zero) 1 { stAlloc := true, stSize := 1, stUid := 9, stMode := P_FILE_OWNER_WRITE }

def shortStore : InodeStore := { blocks := fun _ => [fun _ => 5], uid := fun _ => some 9, sent := [] }

def farWrite : FileRequest := { type := .write, ino := 1, offset := 2 ^ 42, size := 1, uid := 0, mode := 0 }

theorem far_write_wraps : ¬ OffsetsExact shortCache shortStore farWrite [7] 4 := by
  rintro ⟨values, -⟩
  have fits := putValues_iff.mp (values { stAlloc := true, stSize := 1, stUid := 9, stMode := P_FILE_OWNER_WRITE } 9 rfl
    rfl (by decide) rfl)
  exact absurd fits (by decide)

/-- It replaces the first byte. -/
example : ((handle shortCache farWrite [7] 4).run InodeStore.serve shortStore).state.byte 1 0 = 7 := by decide +kernel

end Egos.Blkfile
