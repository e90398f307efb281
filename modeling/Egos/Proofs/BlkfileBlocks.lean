import Egos.Grass.InodeStore

/-! What the loops of the block file server over blocks do to the bytes of an inode. -/

namespace Egos.Files.InodeStore
open Library
open Disk (BLOCK_SIZE)

variable {s : InodeStore} {ino : UInt32}

section Blocks
variable {blocks : List DataBlock} {offset : Nat} {block : DataBlock}

theorem extended_length : (extended blocks offset block).length = max blocks.length (offset + 1) := by
  unfold extended
  rw [List.length_set, List.length_append, List.length_replicate]
  omega

theorem extended_getD (k : Nat) :
    (extended blocks offset block).getD k zeroBlock = if k = offset then block else blocks.getD k zeroBlock := by
  unfold extended
  rw [List.getD_eq_getElem?_getD, List.getElem?_set, List.length_append, List.length_replicate]
  by_cases here : offset = k
  · rw [if_pos here, if_pos (by omega), if_pos here.symm]
    rfl
  · rw [if_neg here, if_neg (Ne.symm here), List.getElem?_append]
    by_cases old : k < blocks.length
    · rw [if_pos old, List.getD_eq_getElem?_getD]
    · rw [if_neg old, List.getElem?_replicate, List.getD_eq_getElem?_getD, List.getElem?_eq_none (Nat.not_lt.mp old)]
      split_ifs <;> rfl

end Blocks

/-- The bytes of a row of BLOCK_SIZE bytes. -/
theorem row_iff {i k : Nat} : i * BLOCK_SIZE ≤ k ∧ k < (i + 1) * BLOCK_SIZE ↔ k / BLOCK_SIZE = i := by
  change i * 1024 ≤ k ∧ k < (i + 1) * 1024 ↔ k / 1024 = i
  omega

theorem row_add (first k : Nat) : (first * BLOCK_SIZE + k) / BLOCK_SIZE = first + k / BLOCK_SIZE := by
  rw [Nat.mul_comm, Nat.mul_add_div (by decide)]

theorem column_add (first k : Nat) : Fin.ofNat BLOCK_SIZE (first * BLOCK_SIZE + k) = Fin.ofNat BLOCK_SIZE k := by
  apply Fin.ext
  rw [Fin.val_ofNat, Fin.val_ofNat, Nat.mul_add_mod_self_right]

theorem column_row {i k : Nat} (row : k / BLOCK_SIZE = i) :
    Fin.ofNat BLOCK_SIZE (k - i * BLOCK_SIZE) = Fin.ofNat BLOCK_SIZE k := by
  have low := (row_iff.mpr row).1
  rw [← column_add i (k - i * BLOCK_SIZE), Nat.add_sub_cancel' low]

structure Wrote (s : InodeStore) (ino : UInt32) (first count : Nat) (written : Nat → UInt8)
    (after : InodeStore) : Prop where
  uid : after.uid = s.uid
  sent : after.sent = s.sent
  others : ∀ other, other ≠ ino → after.blocks other = s.blocks other
  length : (after.blocks ino).length = if count = 0 then (s.blocks ino).length
    else max (s.blocks ino).length (first + count)
  byte : ∀ i, after.byte ino i = if first ≤ i / BLOCK_SIZE ∧
    i / BLOCK_SIZE < first + count then written i else s.byte ino i

namespace Wrote
variable {first count : Nat} {written : Nat → UInt8} {middle after : InodeStore}

theorem none : Wrote s ino first 0 written s where
  uid := rfl
  sent := rfl
  others _ _ := rfl
  length := rfl
  byte _ := (if_neg fun inside => Nat.lt_irrefl _ (Nat.lt_of_le_of_lt inside.1 inside.2)).symm

theorem one {block : DataBlock} (same : ∀ i, i / BLOCK_SIZE = first → written i = block (Fin.ofNat BLOCK_SIZE i)) :
    Wrote s ino first 1 written (s.write ino first block) where
  uid := rfl
  sent := rfl
  others other different := Function.update_of_ne different _ _
  length := by
    unfold write
    dsimp only
    rw [Function.update_self, extended_length, if_neg Nat.one_ne_zero]
  byte i := by
    have blocks : (s.write ino first block).blocks ino = extended (s.blocks ino) first block := Function.update_self ..
    unfold InodeStore.byte
    rw [blocks, extended_getD]
    by_cases here : i / BLOCK_SIZE = first
    · rw [if_pos here, if_pos ⟨Nat.le_of_eq here.symm, Nat.lt_succ_of_le (Nat.le_of_eq here)⟩, same i here]
    · rw [if_neg here, if_neg fun inside => here (Nat.le_antisymm (Nat.le_of_lt_succ inside.2) inside.1)]

theorem trans (left : Wrote s ino first 1 written middle) (right : Wrote middle ino (first + 1) count written after) :
    Wrote s ino first (count + 1) written after where
  uid := right.uid.trans left.uid
  sent := right.sent.trans left.sent
  others other different := (right.others other different).trans (left.others other different)
  length := by
    rw [right.length, left.length, if_neg Nat.one_ne_zero, if_neg (Nat.succ_ne_zero count)]
    split_ifs <;> omega
  byte i := by
    rw [right.byte i, left.byte i]
    generalize i / BLOCK_SIZE = row
    by_cases later : first + 1 ≤ row ∧ row < first + 1 + count
    · rw [if_pos later, if_pos (by omega)]
    · rw [if_neg later]
      by_cases here : first ≤ row ∧ row < first + 1
      · rw [if_pos here, if_pos (by omega)]
      · rw [if_neg here, if_neg (by omega)]

end Wrote

end Egos.Files.InodeStore

namespace Egos.Blkfile
open Library Files
open Disk (BLOCK_SIZE)

variable {s : InodeStore} {ino : UInt32}

theorem read_call (inside : ino.toNat < MAX_INODES) {offset : UInt32} (stored : offset.toNat < (s.blocks ino).length) :
    (call (.blockRead ino offset)).run InodeStore.serve s =
        .done (some ((s.blocks ino).getD offset.toNat zeroBlock)) s := by
  unfold call
  rw [Effect.run_perform]
  unfold InodeStore.serve
  dsimp only
  rw [if_pos inside, List.getD_eq_getElem?_getD, List.getElem?_eq_getElem stored]
  rfl

theorem write_call (inside : ino.toNat < MAX_INODES) (offset : UInt32) (block : DataBlock) :
    (call (.blockWrite ino offset block)).run InodeStore.serve s = .done true (s.write ino offset.toNat block) := by
  unfold call
  rw [Effect.run_perform]
  exact if_pos inside

/-- Consecutive blocks that are stored are read into the buffer. -/
theorem readBlocks_run (inside : ino.toNat < MAX_INODES) {first i left : Nat} {offset : UInt32}
    (at_ : offset.toNat = first + i)
    (stored : first + i + left ≤ (s.blocks ino).length) (word : first + i + left < 2 ^ 32) {addr : Buffer}
    (room : (i + left) * BLOCK_SIZE ≤ addr.capacity) :
    ∃ filled : Buffer, (readBlocks ino left i offset addr).run InodeStore.serve s = .done (i + left, filled) s ∧
      filled.capacity = addr.capacity ∧
      ∀ k, filled.byte k = if i ≤ k / BLOCK_SIZE ∧
          k / BLOCK_SIZE < i + left then s.byte ino (first * BLOCK_SIZE + k) else addr.byte k := by
  induction left generalizing i offset addr with
  | zero => exact ⟨addr, rfl, rfl, fun k =>
      (if_neg fun inside => Nat.lt_irrefl _ (Nat.lt_of_le_of_lt inside.1 inside.2)).symm⟩
  | succ left ih =>
    have read := @read_call s ino inside offset (by omega)
    have next : (offset + 1).toNat = first + (i + 1) := by
      rw [UInt32.toNat_add, UInt32.toNat_one, at_]
      omega
    obtain ⟨filled, ran, capacity, bytes⟩ := @ih (i + 1) (offset + 1) next (by omega) (by omega)
      (addr.putBlock i ((s.blocks ino).getD offset.toNat zeroBlock)) (by rw [Nat.add_right_comm]; exact room)
    refine ⟨filled, ?_, capacity, fun k => ?_⟩
    · have enough : (i + 1) * BLOCK_SIZE ≤ addr.capacity := (Nat.mul_le_mul_right _ (by omega)).trans room
      unfold readBlocks
      rw [Effect.run_bind, Prog.bind_done read]
      dsimp only
      rw [if_neg (Nat.not_lt.mpr enough), ran, Nat.add_right_comm]
      rfl
    · rw [bytes k]
      by_cases here : k / BLOCK_SIZE = i
      · rw [if_neg (by omega), if_pos (by omega)]
        have put : (addr.putBlock i ((s.blocks ino).getD offset.toNat zeroBlock)).byte k =
            (s.blocks ino).getD offset.toNat zeroBlock (Fin.ofNat BLOCK_SIZE (k - i * BLOCK_SIZE)) :=
              if_pos (InodeStore.row_iff.mpr here)
        rw [put, InodeStore.column_row here]
        unfold InodeStore.byte
        rw [at_, InodeStore.row_add, InodeStore.column_add, here]
      · have put : (addr.putBlock i ((s.blocks ino).getD offset.toNat zeroBlock)).byte k = addr.byte k :=
          if_neg fun inside => here (InodeStore.row_iff.mp inside)
        rw [put]
        generalize k / BLOCK_SIZE = row at here
        by_cases later : i + 1 ≤ row ∧ row < i + 1 + left
        · rw [if_pos later, if_pos (by omega)]
        · rw [if_neg later, if_neg (by omega)]

/-- The blocks of the buffer are written one after the other. -/
theorem writeBlocks_run (inside : ino.toNat < MAX_INODES) {first i left : Nat} {offset : UInt32}
    (at_ : offset.toNat = first + i)
    (word : first + i + left < 2 ^ 32) {addr : Buffer} (room : (i + left) * BLOCK_SIZE ≤ addr.capacity) :
    ∃ after, (writeBlocks ino left i offset addr).run InodeStore.serve s = .done true after ∧
      InodeStore.Wrote s ino (first + i) left (fun k => addr.byte (k - first * BLOCK_SIZE)) after := by
  induction left generalizing i offset s with
  | zero => exact ⟨s, rfl, .none⟩
  | succ left ih =>
    have next : (offset + 1).toNat = first + (i + 1) := by
      rw [UInt32.toNat_add, UInt32.toNat_one, at_]
      omega
    have write := @write_call s ino inside offset (addr.block i)
    obtain ⟨after, ran, wrote⟩ := @ih (s.write ino offset.toNat (addr.block i)) (i + 1) (offset + 1) next (by omega)
      (by rw [Nat.add_right_comm]; exact room)
    have here : InodeStore.Wrote s ino (first + i) 1
        (fun k => addr.byte (k - first * BLOCK_SIZE)) (s.write ino offset.toNat (addr.block i)) := by
      rw [at_]
      refine .one fun k place => ?_
      have whole := Nat.div_add_mod' k BLOCK_SIZE
      rw [place, Nat.add_mul] at whole
      have column : k - first * BLOCK_SIZE = i * BLOCK_SIZE + k % BLOCK_SIZE := by omega
      exact congrArg addr.byte column
    have enough : (i + 1) * BLOCK_SIZE ≤ addr.capacity := (Nat.mul_le_mul_right _ (by omega)).trans room
    refine ⟨after, ?_, here.trans wrote⟩
    unfold writeBlocks
    rw [if_neg (Nat.not_lt.mpr enough), Effect.run_bind, Prog.bind_done write]
    exact ran

end Egos.Blkfile
