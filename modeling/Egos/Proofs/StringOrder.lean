import Egos.Apps.Strings
import Mathlib.Data.List.TakeWhile
import Mathlib.Order.Lattice

/-! The order of strings: strcmp compares whole strings, and strncmp their first characters. -/

namespace Egos.Strings

/-- The sign of the result tells the lexicographic order, in which a proper prefix comes first. -/
def Orders (result : Int) (s1 s2 : List UInt8) : Prop :=
  (result < 0 ↔ s1 < s2) ∧ (result = 0 ↔ s1 = s2) ∧ (0 < result ↔ s2 < s1)

/-- One string is the beginning of the other, and shorter. -/
def ProperPrefix (s1 s2 : List UInt8) : Prop := s1 <+: s2 ∧ s1 ≠ s2

/-- strncmp goes with strcmp on the first n characters, and both tell the order of the
strings that they compare. -/
structure Agrees (s1 s2 : List UInt8) (n : Nat) : Prop where
  sign : (strncmp s1 s2 n).sign = (strcmp ((str s1 0).take n) ((str s2 0).take n)).sign
  whole : Orders (strcmp s1 s2) (str s1 0) (str s2 0)
  part : Orders (strncmp s1 s2 n) ((str s1 0).take n) ((str s2 0).take n)

variable {s1 s2 rest : List UInt8} {c c1 c2 : UInt8} {n : Nat} {result : Int}

namespace Orders

theorem equal (s : List UInt8) : Orders 0 s s := by simp [Orders]

theorem before (negative : result < 0) (below : s1 < s2) : Orders result s1 s2 := by
  have different : s1 ≠ s2 := by
    rintro rfl
    exact List.lt_irrefl _ below
  exact ⟨iff_of_true negative below, iff_of_false (by omega) different, iff_of_false (by omega) (List.lt_asymm below)⟩

theorem behind (positive : 0 < result) (above : s2 < s1) : Orders result s1 s2 := by
  have different : s1 ≠ s2 := by
    rintro rfl
    exact List.lt_irrefl _ above
  exact ⟨iff_of_false (by omega) (List.lt_asymm above), iff_of_false (by omega) different, iff_of_true positive above⟩

theorem cons (orders : Orders result s1 s2) (c : UInt8) : Orders result (c :: s1) (c :: s2) := by
  simpa [Orders, List.cons_lt_cons_iff] using orders

/-- Two results that tell the same order have the same sign. -/
theorem sign_eq {other : Int} (left : Orders result s1 s2) (right : Orders other s1 s2) : result.sign = other.sign := by
  have below : result < 0 ↔ other < 0 := left.1.trans right.1.symm
  have above : 0 < result ↔ 0 < other := left.2.2.trans right.2.2.symm
  rcases Int.lt_trichotomy result 0 with negative | rfl | positive
  · rw [Int.sign_eq_neg_one_of_neg negative, Int.sign_eq_neg_one_of_neg (below.mp negative)]
  · have zero : other = 0 := by omega
    rw [zero]
  · rw [Int.sign_eq_one_of_pos positive, Int.sign_eq_one_of_pos (above.mp positive)]

end Orders

@[simp] theorem str_nil : str [] 0 = [] := rfl

@[simp] theorem str_zero : str (0 :: rest) 0 = [] := rfl

theorem str_cons (inside : c ≠ 0) : str (c :: rest) 0 = c :: str rest 0 := by simp [str, inside]

@[simp] theorem byteAt_nil : byteAt [] 0 = 0 := rfl

@[simp] theorem byteAt_cons : byteAt (c :: rest) 0 = c := rfl

/-- A string is over, or it has a first character. -/
theorem str_cases (s : List UInt8) :
    byteAt s 0 = 0 ∧ str s 0 = [] ∨ byteAt s 0 ≠ 0 ∧ str s 0 = byteAt s 0 :: str s.tail 0 := by
  cases s with
  | nil => exact .inl ⟨rfl, rfl⟩
  | cons c rest =>
    by_cases zero : c = 0
    · subst zero; exact .inl ⟨rfl, rfl⟩
    · exact .inr ⟨zero, str_cons zero⟩

/-- What the ends decide is the order of strings that are over. -/
theorem ended_orders (gone : byteAt s1 0 = 0 ∨ byteAt s2 0 = 0) :
    Orders (ended (byteAt s1 0) (byteAt s2 0)) (str s1 0) (str s2 0) := by
  rcases str_cases s1 with ⟨first, empty⟩ | ⟨first, more⟩
  · rcases str_cases s2 with ⟨second, empty'⟩ | ⟨second, more⟩
    · rw [first, second, empty, empty']
      exact .equal []
    · rw [first, empty, more]
      have sign : ended 0 (byteAt s2 0) = -1 := by simp [ended, second]
      rw [sign]
      exact .before (by decide) (List.nil_lt_cons _ _)
  · have second := gone.resolve_left first
    have empty : str s2 0 = [] := by
      rcases str_cases s2 with ⟨_, empty⟩ | ⟨more, _⟩
      · exact empty
      · exact absurd second more
    have sign : ended (byteAt s1 0) (byteAt s2 0) = 1 := by simp [ended, first]
    rw [sign, empty, more]
    exact .behind (by decide) (List.nil_lt_cons _ _)

theorem strcmp_orders (s1 s2 : List UInt8) : Orders (strcmp s1 s2) (str s1 0) (str s2 0) := by
  induction s1 generalizing s2 with
  | nil => exact @ended_orders [] s2 (.inl rfl)
  | cons c1 s1 ih =>
    unfold strcmp
    dsimp only
    by_cases inside : c1 ≠ 0 ∧ byteAt s2 0 ≠ 0
    · rw [if_pos inside]
      obtain ⟨first, second⟩ := inside
      have rest := ((str_cases s2).resolve_left fun gone => second gone.1).2
      rw [str_cons first, rest]
      by_cases same : c1 = byteAt s2 0
      · rw [if_neg (not_not_intro same), ← same]
        exact (ih s2.tail).cons c1
      · rw [if_pos same]
        rcases UInt8.lt_or_lt_of_ne same with below | above
        · refine .before ?_ (List.cons_lt_cons_iff.mpr (.inl below))
          have : c1.toNat < (byteAt s2 0).toNat := below
          omega
        · refine .behind ?_ (List.cons_lt_cons_iff.mpr (.inl above))
          have : (byteAt s2 0).toNat < c1.toNat := above
          omega
    · rw [if_neg inside]
      exact @ended_orders (c1 :: s1) s2 (by simpa [not_and_or, Classical.or_iff_not_imp_left] using inside)

/-- Where a string ends inside the other, strncmp tells the wrong order. -/
inductive Compared (s1 s2 : List UInt8) : Int → Prop where
  | ordered (result : Int) (orders : Orders result s1 s2) (first : ¬ ProperPrefix s1 s2)
      (second : ¬ ProperPrefix s2 s1) : Compared s1 s2 result
  | first (ends : ProperPrefix s1 s2) : Compared s1 s2 1
  | second (ends : ProperPrefix s2 s1) : Compared s1 s2 (-1)

theorem ProperPrefix.lt (ends : ProperPrefix s1 s2) : s1 < s2 := by
  obtain ⟨⟨more, rfl⟩, different⟩ := ends
  cases more with
  | nil => simp at different
  | cons c more =>
    clear different
    induction s1 with
    | nil => exact List.nil_lt_cons _ _
    | cons c s1 ih => exact List.cons_lt_cons_iff.mpr (.inr ⟨rfl, ih⟩)

theorem properPrefix_cons : ProperPrefix (c :: s1) (c :: s2) ↔ ProperPrefix s1 s2 := by
  simp [ProperPrefix, List.cons_prefix_cons]

theorem properPrefix_nil : ProperPrefix [] (c :: rest) := ⟨List.nil_prefix, nofun⟩

namespace Compared

theorem equal (s : List UInt8) : Compared s s 0 := .ordered 0 (.equal s) (fun ends => ends.2 rfl) fun ends => ends.2 rfl

theorem cons (compared : Compared s1 s2 result) (c : UInt8) : Compared (c :: s1) (c :: s2) result := by
  cases compared with
  | ordered _ orders first second =>
    exact .ordered _ (orders.cons c) (fun ends => first (properPrefix_cons.mp ends))
      fun ends => second (properPrefix_cons.mp ends)
  | first ends => exact .first (properPrefix_cons.mpr ends)
  | second ends => exact .second (properPrefix_cons.mpr ends)

/-- Strings that differ in their first characters. -/
theorem differ (different : c1 ≠ c2) (orders : Orders result (c1 :: s1) (c2 :: s2)) :
    Compared (c1 :: s1) (c2 :: s2) result := by
  refine .ordered _ orders ?_ ?_
  · rintro ⟨start, _⟩
    exact different (List.cons_prefix_cons.mp start).1
  · rintro ⟨start, _⟩
    exact different.symm (List.cons_prefix_cons.mp start).1

/-- The order is told exactly when neither string is the beginning of the other. -/
theorem orders_iff (compared : Compared s1 s2 result) :
    Orders result s1 s2 ↔ ¬ ProperPrefix s1 s2 ∧ ¬ ProperPrefix s2 s1 := by
  cases compared with
  | ordered _ orders first second => exact iff_of_true orders ⟨first, second⟩
  | first ends =>
    refine iff_of_false ?_ fun neither => neither.1 ends
    exact fun orders => absurd (orders.1.mpr ends.lt) (by decide)
  | second ends =>
    refine iff_of_false ?_ fun neither => neither.2 ends
    exact fun orders => absurd (orders.2.2.mpr ends.lt) (by decide)

end Compared

theorem strncmp_compared (s1 s2 : List UInt8) (n : Nat) :
    Compared ((str s1 0).take n) ((str s2 0).take n) (strncmp s1 s2 n) := by
  induction n generalizing s1 s2 with
  | zero => exact .equal []
  | succ n ih =>
    unfold strncmp
    dsimp only
    rcases str_cases s1 with ⟨first, empty⟩ | ⟨first, more⟩
    · rcases str_cases s2 with ⟨second, empty'⟩ | ⟨second, more⟩
      · rw [if_pos ⟨first, second⟩, empty, empty']
        exact .equal []
      · rw [if_neg fun both => second both.2, if_pos first, empty, more]
        exact .first properPrefix_nil
    · rw [if_neg fun both => first both.1, if_neg first]
      rcases str_cases s2 with ⟨second, empty⟩ | ⟨second, more'⟩
      · rw [if_pos second, more, empty]
        exact .second properPrefix_nil
      · rw [if_neg second, more, more', List.take_succ_cons, List.take_succ_cons]
        by_cases below : byteAt s1 0 < byteAt s2 0
        · rw [if_pos below]
          exact .differ (UInt8.ne_of_lt below) (.before (by decide) (List.cons_lt_cons_iff.mpr (.inl below)))
        · by_cases above : byteAt s1 0 > byteAt s2 0
          · rw [if_neg below, if_pos above]
            exact .differ (UInt8.ne_of_lt above).symm (.behind (by decide) (List.cons_lt_cons_iff.mpr (.inl above)))
          · have same : byteAt s1 0 = byteAt s2 0 := UInt8.le_antisymm (UInt8.not_lt.mp above) (UInt8.not_lt.mp below)
            rw [if_neg below, if_neg above, ← same]
            exact (ih s1.tail s2.tail).cons _

/-- The first characters of a string are a string. -/
theorem str_take (s : List UInt8) (n : Nat) : str ((str s 0).take n) 0 = (str s 0).take n := by
  have inside : ∀ c ∈ (str s 0).take n, decide (c ≠ 0) = true := by
    intro c member
    exact @List.mem_takeWhile_imp _ (fun c => decide (c ≠ 0)) (s.drop 0) c (List.mem_of_mem_take member)
  exact List.takeWhile_eq_self_iff.mpr inside

/-- strncmp agrees with strcmp unless one of the strings ends, within the first n
characters, where the other goes on. -/
theorem strncmp_agrees_iff (s1 s2 : List UInt8) (n : Nat) : Agrees s1 s2 n ↔
    ¬ ProperPrefix ((str s1 0).take n) ((str s2 0).take n) ∧
        ¬ ProperPrefix ((str s2 0).take n) ((str s1 0).take n) := by
  have compared := strncmp_compared s1 s2 n
  have whole : Orders (strcmp ((str s1 0).take n) ((str s2 0).take n)) ((str s1 0).take n) ((str s2 0).take n) := by
    have orders := strcmp_orders ((str s1 0).take n) ((str s2 0).take n)
    rwa [str_take, str_take] at orders
  rw [← compared.orders_iff]
  constructor
  · exact fun agrees => agrees.part
  · exact fun part => ⟨part.sign_eq whole, strcmp_orders s1 s2, part⟩

theorem strncmp_prefix_last : strncmp (text "a") (text "ab") 2 = 1 ∧ ¬ Agrees (text "a") (text "ab") 2 := by
  have later : strncmp (text "a") (text "ab") 2 = 1 := by decide
  refine ⟨later, fun agrees => ?_⟩
  have sign := agrees.sign
  rw [later] at sign
  exact absurd sign (by decide)

end Egos.Strings
