import Mathlib.Algebra.BigOperators.Fin
import Mathlib.Algebra.BigOperators.Ring.Finset

/-! How many entries of a finite table pass a test, and how that number changes
when one entry is replaced. -/

namespace Egos.Library

variable {ι α : Type} [Fintype ι]

/-- Sums that differ in one summand. -/
theorem sum_change {M : Type} [DecidableEq ι] [AddCommMonoid M] {f g : ι → M} {i : ι} (same : ∀ j, j ≠ i → g j = f j) :
    ∑ j, g j + f i = ∑ j, f j + g i := by
  rw [← Finset.add_sum_erase _ g (Finset.mem_univ i), ← Finset.add_sum_erase _ f (Finset.mem_univ i),
    Finset.sum_congr rfl fun j member => same j (Finset.ne_of_mem_erase member)]
  rw [add_comm (g i), add_comm (f i), add_right_comm]

def tally (test : α → Bool) (table : ι → α) : ℤ := (Finset.univ.filter fun i => test (table i) = true).card

/-- What one entry contributes to a tally. -/
def weight (test : α → Bool) (entry : α) : ℤ := if test entry then 1 else 0

theorem tally_eq_sum (test : α → Bool) (table : ι → α) : tally test table = ∑ i, weight test (table i) := by
  unfold tally weight
  rw [Finset.sum_boole]

theorem tally_update [DecidableEq ι] (test : α → Bool) (table : ι → α) (i : ι) (entry : α) :
    tally test (Function.update table i entry) = tally test table - weight test (table i) + weight test entry := by
  have split := Finset.add_sum_erase Finset.univ (fun j => weight test (table j)) (Finset.mem_univ i)
  have rest : ∑ j ∈ Finset.univ.erase i, weight test (Function.update table i entry j) =
      ∑ j ∈ Finset.univ.erase i, weight test (table j) :=
    Finset.sum_congr rfl fun j other => by rw [Function.update_of_ne (Finset.ne_of_mem_erase other)]
  have whole := Finset.add_sum_erase Finset.univ
    (fun j => weight test (Function.update table i entry j)) (Finset.mem_univ i)
  simp only [Function.update_self] at whole
  rw [tally_eq_sum, tally_eq_sum, ← whole, rest, ← split]
  omega

theorem tally_nonneg (test : α → Bool) (table : ι → α) : 0 ≤ tally test table := Int.natCast_nonneg _

theorem tally_le (test : α → Bool) (table : ι → α) : tally test table ≤ Fintype.card ι :=
  Int.ofNat_le.mpr (Finset.card_le_univ _)

theorem tally_pos {test : α → Bool} {table : ι → α} {i : ι} (passes : test (table i) = true) :
    0 < tally test table := by
  have member : i ∈ Finset.univ.filter fun j => test (table j) = true := by simp [passes]
  exact Int.natCast_pos.mpr (Finset.card_pos.mpr ⟨i, member⟩)

end Egos.Library
