import Egos.Apps.Stdlib
import Mathlib.Data.List.TakeWhile

/-! What strtol makes of a string. Its digit loop stays at the first digit, so it comes to
an end only where there is none. -/

namespace Egos.Stdlib
open Library Strings

/-- A zero-terminated string. -/
structure AsciiString where
  chars : List UInt8
  ascii : ∀ c ∈ chars, c ≠ 0 ∧ c < 128

structure Base where
  value : Nat
  least : 2 ≤ value
  greatest : value ≤ 36

/-- The value of a digit. Letters stand for ten and above. -/
def digitOf (c : UInt8) : Option Nat :=
  if chr '0' ≤ c ∧ c ≤ chr '9' then some (c.toNat - (chr '0').toNat)
  else if chr 'a' ≤ c ∧ c ≤ chr 'z' then some (c.toNat - (chr 'a').toNat + 10)
  else if chr 'A' ≤ c ∧ c ≤ chr 'Z' then some (c.toNat - (chr 'A').toNat + 10)
  else none

def isDigitIn (base : Base) (c : UInt8) : Bool := (digitOf c).any (· < base.value)

/-- The longest prefix that is a numeral. -/
def numeral (base : Base) (s : List UInt8) : List UInt8 := s.takeWhile (isDigitIn base)

def numeralValue (base : Base) (digits : List UInt8) : Nat :=
  digits.foldl (fun n c => n * base.value + (digitOf c).getD 0) 0

/-- The sign of a string, and what follows its blanks and its sign. -/
def AsciiString.signed (s : AsciiString) : Int × List UInt8 := takeSign (s.chars.dropWhile isspace)

/-- strtol ends with a value and a place. The place is just after the numeral, and the value
is that of the numeral if a `long` can hold that. -/
def Converts (build : Build) (s : AsciiString) (base : Base) : Prop :=
  ∃ fuel value rest, strtol build fuel s.chars base.value = .ok (value, rest) ∧
    s.signed.2 = numeral base s.signed.2 ++ rest ∧
    (Signed build.longBits (s.signed.1 * numeralValue base (numeral base s.signed.2)) →
      value = s.signed.1 * numeralValue base (numeral base s.signed.2))

variable {build : Build} {base : Base} {str : List UInt8} {c : UInt8} {n : Int}

/-- As long as there is a digit or a letter, there will be one. -/
theorem digitLoop_stuck (base : Nat) (stuck : isalnum (byteAt str 0) = true) (fuel : Nat) (n : Int)
    (result : Int × List UInt8) :
    digitLoop build base str fuel n ≠ .ok result := by
  induction fuel generalizing n with
  | zero => exact nofun
  | succ fuel ih =>
    unfold digitLoop
    rw [if_pos stuck]
    intro ends
    cases first : checked build.longBits Fault.overflow (n * base) with
    | error fault => rw [first] at ends; cases ends
    | ok product =>
      rw [first] at ends
      change (checked build.longBits Fault.overflow (product + charValue (byteAt str 0)) >>= _) = _ at ends
      cases second : checked build.longBits Fault.overflow (product + charValue (byteAt str 0)) with
      | error fault => rw [second] at ends; cases ends
      | ok sum =>
        rw [second] at ends
        exact ih sum ends

theorem digitLoop_ends (base fuel : Nat) (ends : isalnum (byteAt str 0) = false) (n : Int) :
    digitLoop build base str (fuel + 1) n = .ok (n, str) := by
  unfold digitLoop
  rw [ends]
  rfl

/-- The characters of the table and those of a digit are the same. -/
theorem isalnum_digitOf (ascii : c < 128) : isalnum c = (digitOf c).isSome := by
  have all : ∀ n < 128, isalnum (UInt8.ofNat n) = (digitOf (UInt8.ofNat n)).isSome := by decide +kernel
  have here := all c.toNat (UInt8.lt_iff_toNat_lt.mp ascii)
  rwa [UInt8.ofNat_toNat] at here

theorem isspace_digitOf (ascii : c < 128) (space : isspace c = true) : digitOf c = none := by
  have all : ∀ n < 128, isspace (UInt8.ofNat n) = true → digitOf (UInt8.ofNat n) = none := by decide +kernel
  have here := all c.toNat (UInt8.lt_iff_toNat_lt.mp ascii)
  rw [UInt8.ofNat_toNat] at here
  exact here space

theorem numeral_none (none : digitOf (byteAt str 0) = none) : numeral base str = [] := by
  cases str with
  | nil => rfl
  | cons c rest =>
    have none : digitOf c = Option.none := none
    simp [numeral, isDigitIn, none]

theorem stays_of_noSpace (noSpace : isspace (byteAt str 0) = false) : str.dropWhile isspace = str := by
  cases str with
  | nil => rfl
  | cons c rest =>
    have noSpace : isspace c = false := noSpace
    simp [noSpace]

/-- What follows a blank is not where the blank stands. -/
theorem skips_blank (space : isspace (byteAt str 0) = true) : str ≠ [] ++ str.dropWhile isspace := by
  cases str with
  | nil => exact absurd space (by decide +kernel)
  | cons c rest =>
    have space : isspace c = true := space
    intro same
    have shorter := congrArg List.length same
    have bound := (List.dropWhile_sublist (l := rest) isspace).length_le
    simp only [List.nil_append, List.dropWhile_cons_of_pos space, List.length_cons] at shorter
    omega

theorem byteAt_ascii (ascii : ∀ c ∈ str, c ≠ 0 ∧ c < 128) : byteAt str 0 < 128 := by
  cases str with
  | nil => decide
  | cons c rest => exact (ascii c List.mem_cons_self).2

theorem AsciiString.signed_ascii (s : AsciiString) : ∀ c ∈ s.signed.2, c ≠ 0 ∧ c < 128 := by
  have skipped : ∀ c ∈ s.chars.dropWhile isspace, c ≠ 0 ∧ c < 128 := fun c member =>
    s.ascii c ((List.dropWhile_sublist _).mem member)
  unfold signed takeSign
  intro c member
  split at member
  · exact skipped c (List.mem_of_mem_tail member)
  · split at member
    · exact skipped c (List.mem_of_mem_tail member)
    · exact skipped c member

/-- Where the loop ends, the number is zero. -/
theorem strtol_zero (s : AsciiString) (base fuel : Nat)
    (ends : isalnum (byteAt (s.signed.2.dropWhile isspace) 0) = false) :
    strtol build (fuel + 1) s.chars base = .ok (0, s.signed.2.dropWhile isspace) := by
  have looped := @digitLoop_ends build (s.signed.2.dropWhile isspace) base fuel ends 0
  change (digitLoop build base (s.signed.2.dropWhile isspace) (fuel + 1) 0 >>= _) = _
  rw [looped]
  change (checked build.longBits Fault.overflow (s.signed.1 * 0) >>= _) = _
  rw [Int.mul_zero, checked_ok .zero]
  rfl

theorem strtol_stuck (s : AsciiString) (base : Nat)
    (stuck : isalnum (byteAt (s.signed.2.dropWhile isspace) 0) = true) (fuel : Nat)
    (result : Int × List UInt8) : strtol build fuel s.chars base ≠ .ok result := by
  intro ends
  change (digitLoop build base (s.signed.2.dropWhile isspace) fuel 0 >>= _) = _ at ends
  cases looped : digitLoop build base (s.signed.2.dropWhile isspace) fuel 0 with
  | error fault => rw [looped] at ends; cases ends
  | ok value => exact digitLoop_stuck base stuck fuel 0 value looped

/-- strtol converts a string if no letter, no digit and no blank follows its blanks and its sign. -/
theorem strtol_converts_iff (build : Build) (s : AsciiString) (base : Base) :
    Converts build s base ↔ isalnum (byteAt s.signed.2 0) = false ∧ isspace (byteAt s.signed.2 0) = false := by
  have ascii := byteAt_ascii s.signed_ascii
  constructor
  · rintro ⟨fuel, value, rest, ran, place, _⟩
    have ends : isalnum (byteAt (s.signed.2.dropWhile isspace) 0) = false := by
      cases stuck : isalnum (byteAt (s.signed.2.dropWhile isspace) 0) with
      | false => rfl
      | true => exact absurd ran (strtol_stuck s base.value stuck fuel (value, rest))
    have here : rest = s.signed.2.dropWhile isspace := by
      cases fuel with
      | zero => cases ran
      | succ fuel => exact congrArg Prod.snd (Except.ok.inj (ran.symm.trans (strtol_zero s base.value fuel ends)))
    have noSpace : isspace (byteAt s.signed.2 0) = false := by
      cases space : isspace (byteAt s.signed.2 0) with
      | false => rfl
      | true =>
        rw [numeral_none (isspace_digitOf ascii space), here] at place
        exact absurd place (skips_blank space)
    rw [stays_of_noSpace noSpace] at ends
    exact ⟨ends, noSpace⟩
  · rintro ⟨noDigit, noSpace⟩
    have stays := stays_of_noSpace noSpace
    have none : digitOf (byteAt s.signed.2 0) = none := by
      rw [isalnum_digitOf ascii] at noDigit
      exact Option.not_isSome_iff_eq_none.mp (by rw [noDigit]; decide)
    have empty : numeral base s.signed.2 = [] := numeral_none none
    refine ⟨1, 0, s.signed.2, ?_, by rw [empty]; rfl, fun _ => ?_⟩
    · have ran := @strtol_zero build s base.value 0 (by rw [stays]; exact noDigit)
      rwa [stays] at ran
    · rw [empty]
      exact (Int.mul_zero _).symm

private def zero : AsciiString := { chars := text "0", ascii := by decide +kernel }

private def ten : Base := { value := 10, least := by decide, greatest := by decide }

/-- A single digit is enough. -/
theorem strtol_digit_stuck : ¬ Converts .x86_64 zero ten := by
  rintro ⟨fuel, value, rest, ran, _⟩
  have digit : isalnum (byteAt (zero.signed.2.dropWhile isspace) 0) = true := by decide +kernel
  exact strtol_stuck zero 10 digit fuel (value, rest) ran

end Egos.Stdlib
