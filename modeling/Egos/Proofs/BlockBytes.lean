import Egos.Grass.BlockStack

/-! The words of a block are its bytes. -/

namespace Egos.BlockStack
open Files
open Disk (Block BLOCK_SIZE WORDS)
open Grass (bytesOf)

private theorem joined_bit (a b c d : UInt8) {k i : Nat} (small : k < 4) (inside : i < 8) :
    (a.toUInt32 ||| b.toUInt32 <<< 8 ||| c.toUInt32 <<< 16 ||| d.toUInt32 <<< 24).toBitVec.getLsbD (8 * k + i) =
      ([a, b, c, d].getD k 0).toBitVec.getLsbD i := by
  have past : ∀ (x : UInt8) j, 8 ≤ j → x.toBitVec.getLsbD j = false := fun x j high => BitVec.getLsbD_of_ge _ _ high
  simp only [UInt32.toBitVec_or, UInt32.toBitVec_shiftLeft, UInt8.toBitVec_toUInt32,
    show UInt32.toBitVec 8 % 32 = 8#32 by decide,
    show UInt32.toBitVec 16 % 32 = 16#32 by decide, show UInt32.toBitVec 24 % 32 = 24#32 by decide, BitVec.getLsbD_or,
    BitVec.getLsbD_setWidth, BitVec.shiftLeft_eq', BitVec.getLsbD_shiftLeft, BitVec.toNat_ofNat]
  -- one case for each byte that the bit can be in
  rcases (by omega : k = 0 ∨ k = 1 ∨ k = 2 ∨ k = 3) with rfl | rfl | rfl | rfl
  · grind
  · grind
  · grind
  · grind

/-- The bytes of a word that is put together from four bytes. -/
theorem bytesOf_joined (a b c d : UInt8) :
    bytesOf (a.toUInt32 ||| b.toUInt32 <<< 8 ||| c.toUInt32 <<< 16 ||| d.toUInt32 <<< 24) = [a, b, c, d] := by
  have byte : ∀ k < 4, ∀ shift : UInt32, shift.toNat = 8 * k →
    ((a.toUInt32 ||| b.toUInt32 <<< 8 ||| c.toUInt32 <<< 16 ||| d.toUInt32 <<< 24) >>> shift).toUInt8 =
      [a, b, c, d].getD k 0 := by
    intro k small shift place
    apply UInt8.eq_of_toBitVec_eq
    apply BitVec.eq_of_getLsbD_eq
    intro i inside
    have same : (UInt32.toBitVec shift % 32).toNat = 8 * k := by
      rw [BitVec.toNat_umod, UInt32.toNat_toBitVec, place]
      exact Nat.mod_eq_of_lt (by change _ < 32; omega)
    rw [← joined_bit a b c d small inside, UInt32.toBitVec_toUInt8, UInt32.toBitVec_shiftRight,
      BitVec.getLsbD_setWidth, BitVec.ushiftRight_eq',
      BitVec.getLsbD_ushiftRight, same]
    simp only [inside, decide_true, Bool.true_and]
  have zero := byte 0 (by decide) 0 rfl
  have one := byte 1 (by decide) 8 rfl
  have two := byte 2 (by decide) 16 rfl
  have three := byte 3 (by decide) 24 rfl
  rw [UInt32.shiftRight_zero] at zero
  unfold bytesOf
  rw [zero, one, two, three]
  rfl

theorem toBytes_ofBytes (data : DataBlock) : toBytes (ofBytes data) = data := by
  funext i
  have size : (List.ofFn data).length = BLOCK_SIZE := List.length_ofFn
  have place : ∀ j (inside : j < BLOCK_SIZE), (List.ofFn data).getD j 0 = data ⟨j, inside⟩ := by
    intro j inside
    rw [List.getD_eq_getElem?_getD, List.getElem?_ofFn]
    simp [inside]
  unfold toBytes ofBytes wordAt
  rw [bytesOf_joined]
  have small := Nat.mod_lt i.val (show 4 > 0 by decide)
  have split := Nat.div_add_mod i.val 4
  have inside := i.isLt
  rcases (by omega : i.val % 4 = 0 ∨ i.val % 4 = 1 ∨ i.val % 4 = 2 ∨ i.val % 4 = 3) with r | r | r | r
  all_goals
    rw [r]
    rw [r] at split
    simp only [List.getD_cons_zero, List.getD_cons_succ, Nat.add_zero] at split ⊢
    rw [place _ (by omega)]
    exact congrArg data (Fin.ext (by simpa using split))

theorem ofBytes_toBytes (block : Block) : ofBytes (toBytes block) = block := by
  funext w
  have byte : ∀ k < 4, (List.ofFn (toBytes block)).getD (4 * w + k) 0 = (bytesOf (block w)).getD k 0 := by
    intro k small
    have inside : 4 * w.val + k < BLOCK_SIZE := by
      have := w.isLt
      unfold WORDS at this
      unfold BLOCK_SIZE at this ⊢
      omega
    rw [List.getD_eq_getElem?_getD, List.getElem?_ofFn]
    simp only [inside, dite_true, Option.getD_some]
    unfold toBytes
    have quotient : (4 * w.val + k) / 4 = w := by omega
    have rest : (4 * w.val + k) % 4 = k := by omega
    simp only [quotient, rest]
  have zero := byte 0 (by decide)
  rw [Nat.add_zero] at zero
  unfold ofBytes wordAt
  rw [zero, byte 1 (by decide), byte 2 (by decide), byte 3 (by decide)]
  exact bytes_joined (block w)

end Egos.BlockStack
