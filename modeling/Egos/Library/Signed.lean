import Mathlib.Algebra.Group.Int.Defs
import Mathlib.Algebra.Order.Monoid.Unbundled.Pow

/-! Signed arithmetic in a fixed number of bits, where a result that does not fit is a fault. -/

namespace Egos.Library

/-- The range of a signed integer of this many bits. -/
def Signed (bits : Nat) (value : Int) : Prop := -2 ^ (bits - 1) ≤ value ∧ value < 2 ^ (bits - 1)

instance (bits : Nat) (value : Int) : Decidable (Signed bits value) := inferInstanceAs (Decidable (_ ∧ _))

/-- The result of an operation, or the fault where it does not fit. -/
def checked {ε : Type} (bits : Nat) (overflow : ε) (value : Int) : Except ε Int :=
  if Signed bits value then .ok value else .error overflow

variable {ε : Type} {bits : Nat} {overflow : ε} {value : Int}

theorem checked_ok (fits : Signed bits value) : checked bits overflow value = .ok value := if_pos fits

theorem Signed.zero : Signed bits 0 := by
  have positive : (0 : Int) < 2 ^ (bits - 1) := Int.pow_pos (by decide)
  exact ⟨by omega, positive⟩

/-- Values below one that fits, down to zero. -/
theorem Signed.below {other : Int} (fits : Signed bits value) (positive : 0 ≤ other) (less : other ≤ value) :
    Signed bits other := by
  obtain ⟨_, above⟩ := fits
  have here : (0 : Int) < 2 ^ (bits - 1) := Int.pow_pos (by decide)
  exact ⟨by omega, by omega⟩

end Egos.Library
