import Egos.Library.Tally
import Mathlib.Algebra.BigOperators.Group.Finset.Basic
import Mathlib.Algebra.Order.BigOperators.Group.Finset
import Mathlib.Data.Multiset.AddSub
import Mathlib.Algebra.Order.Group.Multiset
import Mathlib.Data.Fintype.Basic
import Mathlib.Algebra.GroupWithZero.Nat

/-! Trees of fixed height in a memory whose cells are rows of references. The null
reference stands for a subtree without cells, and cells at height zero hold data. -/

namespace Egos.Library.RefTree

variable {κ : Type} [DecidableEq κ] [Zero κ] {w : Nat}

/-- The cells of the tree behind a reference, each as often as it is reached. -/
def cells (m : κ → Fin w → κ) : Nat → κ → Multiset κ
  | 0, r => if r = 0 then 0 else {r}
  | h + 1, r => if r = 0 then 0 else r ::ₘ ∑ i, cells m h (m r i)

/-- The branch at the given height on the way to an offset. -/
def digit (w : Nat) [NeZero w] (h offset : Nat) : Fin w := Fin.ofNat w (offset / w ^ h)

/-- The data at an offset. -/
def fetch [NeZero w] (m : κ → Fin w → κ) : Nat → κ → Nat → Fin w → κ
  | 0, r, _ => if r = 0 then 0 else m r
  | h + 1, r, offset => if r = 0 then 0 else fetch m h (m r (digit w h offset)) offset

/-- The cells on the way to an offset. -/
def trail [NeZero w] (m : κ → Fin w → κ) : Nat → κ → Nat → List κ
  | 0, r, _ => if r = 0 then [] else [r]
  | h + 1, r, offset => if r = 0 then [] else r :: trail m h (m r (digit w h offset)) offset

/-- All cells of the tree lead to the first `count` offsets. -/
def Fits (m : κ → Fin w → κ) : Nat → κ → Nat → Prop
  | 0, r, count => r ≠ 0 → count ≠ 0
  | h + 1, r, count => r ≠ 0 → count ≠ 0 ∧ ∀ i : Fin w, Fits m h (m r i) (count - i * w ^ h)

section Cells
variable {m m' : κ → Fin w → κ} {h : Nat} {r : κ}

@[simp] theorem cells_null : cells m h 0 = 0 := by
  cases h <;> exact if_pos rfl

theorem cells_leaf (some : r ≠ 0) : cells m 0 r = {r} := if_neg some

theorem cells_node (some : r ≠ 0) : cells m (h + 1) r = r ::ₘ ∑ i, cells m h (m r i) := if_neg some

theorem root_mem (some : r ≠ 0) : r ∈ cells m h r := by
  cases h with
  | zero => rw [cells_leaf some]; exact Multiset.mem_singleton_self r
  | succ h => rw [cells_node some]; exact Multiset.mem_cons_self r _

theorem child_le (i : Fin w) : cells m h (m r i) ≤ ∑ j, cells m h (m r j) :=
  Finset.single_le_sum (f := fun j => cells m h (m r j)) (fun _ _ => Multiset.zero_le _) (Finset.mem_univ i)

theorem child_mem (some : r ≠ 0) {i : Fin w} {c : κ} (member : c ∈ cells m h (m r i)) : c ∈ cells m (h + 1) r := by
  rw [cells_node some]
  exact Multiset.mem_cons_of_mem (Multiset.mem_of_le (child_le i) member)

/-- What lies outside of a tree does not matter for it. -/
theorem cells_congr (same : ∀ c ∈ cells m h r, m' c = m c) : cells m' h r = cells m h r := by
  induction h generalizing r with
  | zero => rfl
  | succ h ih =>
    by_cases null : r = 0
    · rw [null, cells_null, cells_null]
    · rw [cells_node null, cells_node null, same r (root_mem null)]
      congr 1
      exact Finset.sum_congr rfl fun i _ => ih fun c member => same c (child_mem null member)

theorem fetch_null [NeZero w] (offset : Nat) : fetch m h 0 offset = 0 := by
  cases h <;> exact if_pos rfl

theorem fetch_leaf [NeZero w] (some : r ≠ 0) (offset : Nat) : fetch m 0 r offset = m r := if_neg some

theorem fetch_node [NeZero w] (some : r ≠ 0) (offset : Nat) :
    fetch m (h + 1) r offset = fetch m h (m r (digit w h offset)) offset := if_neg some

theorem fetch_congr [NeZero w] {offset : Nat} (same : ∀ c ∈ cells m h r, m' c = m c) :
    fetch m' h r offset = fetch m h r offset := by
  induction h generalizing r with
  | zero =>
    by_cases null : r = 0
    · rw [null, fetch_null, fetch_null]
    · rw [fetch_leaf null, fetch_leaf null, same r (root_mem null)]
  | succ h ih =>
    by_cases null : r = 0
    · rw [null, fetch_null, fetch_null]
    · rw [fetch_node null, fetch_node null, same r (root_mem null)]
      exact ih fun c member => same c (child_mem null member)

theorem trail_null [NeZero w] (offset : Nat) : trail m h 0 offset = [] := by
  cases h <;> exact if_pos rfl

theorem trail_leaf [NeZero w] (some : r ≠ 0) (offset : Nat) : trail m 0 r offset = [r] := if_neg some

theorem trail_node [NeZero w] (some : r ≠ 0) (offset : Nat) :
    trail m (h + 1) r offset = r :: trail m h (m r (digit w h offset)) offset := if_neg some

theorem trail_cells [NeZero w] {offset : Nat} {c : κ} (member : c ∈ trail m h r offset) : c ∈ cells m h r := by
  induction h generalizing r with
  | zero =>
    by_cases null : r = 0
    · rw [null, trail_null] at member
      cases member
    · rw [trail_leaf null] at member
      rw [List.mem_singleton.mp member]
      exact root_mem null
  | succ h ih =>
    by_cases null : r = 0
    · rw [null, trail_null] at member
      cases member
    · rw [trail_node null] at member
      rcases List.mem_cons.mp member with rfl | below
      · exact root_mem null
      · exact child_mem null (ih below)

omit [DecidableEq κ] in
theorem Fits.null {count : Nat} : Fits m h 0 count := by
  cases h <;> exact fun some => absurd rfl some

omit [DecidableEq κ] in
theorem Fits.zero (fits : Fits m h r 0) : r = 0 := by
  by_contra some
  cases h with
  | zero => exact fits some rfl
  | succ h => exact (fits some).1 rfl

theorem Fits.congr {count : Nat} (fits : Fits m h r count) (same : ∀ c ∈ cells m h r, m' c = m c) :
    Fits m' h r count := by
  induction h generalizing r count with
  | zero => exact fits
  | succ h ih =>
    intro some
    obtain ⟨positive, children⟩ := fits some
    refine ⟨positive, fun i => ?_⟩
    rw [same r (root_mem some)]
    exact ih (children i) fun c member => same c (child_mem some member)

omit [DecidableEq κ] in
theorem Fits.mono {count more : Nat} (fits : Fits m h r count) (le : count ≤ more) : Fits m h r more := by
  induction h generalizing r count more with
  | zero => exact fun some => Nat.ne_of_gt (Nat.lt_of_lt_of_le (Nat.pos_of_ne_zero (fits some)) le)
  | succ h ih =>
    intro some
    obtain ⟨positive, children⟩ := fits some
    refine ⟨Nat.ne_of_gt (Nat.lt_of_lt_of_le (Nat.pos_of_ne_zero positive) le), fun i => ?_⟩
    exact ih (children i) (Nat.sub_le_sub_right le _)

end Cells

section Replace
variable {m m' : κ → Fin w → κ} {h : Nat}

/-- One child of a node is replaced; the others are as they were for the old row. -/
theorem cells_replace {r child : κ} {row : Fin w → κ} {i : Fin w} (some : r ≠ 0)
    (written : m' r = Function.update row i child)
    (others : ∀ j, j ≠ i → cells m' h (row j) = cells m h (row j)) :
    cells m' (h + 1) r + cells m h (row i) = r ::ₘ (∑ j, cells m h (row j)) + cells m' h child := by
  rw [cells_node some, written, Multiset.cons_add, Multiset.cons_add]
  congr 1
  have changed := sum_change (f := fun j => cells m h (row j))
    (g := fun j => cells m' h (Function.update row i child j)) (i := i)
    fun j other => by rw [Function.update_of_ne other]; exact others j other
  rw [Function.update_self] at changed
  exact changed

theorem fetch_replace [NeZero w] {r child : κ} {row : Fin w → κ} {i : Fin w} (some : r ≠ 0)
    (written : m' r = Function.update row i child) {offset : Nat} (other : digit w h offset ≠ i) :
    fetch m' (h + 1) r offset = fetch m' h (row (digit w h offset)) offset := by
  rw [fetch_node some, written, Function.update_of_ne other]

theorem fetch_replaced [NeZero w] {r child : κ} {row : Fin w → κ} {offset : Nat} (some : r ≠ 0)
    (written : m' r = Function.update row (digit w h offset) child) :
    fetch m' (h + 1) r offset = fetch m' h child offset := by
  rw [fetch_node some, written, Function.update_self]

omit [DecidableEq κ] in
theorem fits_replace {r child : κ} {row : Fin w → κ} {i : Fin w} {count : Nat}
    (written : m' r = Function.update row i child) (positive : count ≠ 0) (inside : Fits m' h child (count - i * w ^ h))
    (others : ∀ j, j ≠ i → Fits m' h (row j) (count - j * w ^ h)) : Fits m' (h + 1) r count := by
  refine fun _ => ⟨positive, fun j => ?_⟩
  rw [written]
  by_cases same : j = i
  · rw [same, Function.update_self]
    exact inside
  · rw [Function.update_of_ne same]
    exact others j same

end Replace

section Offsets
variable [NeZero w] {m : κ → Fin w → κ}

theorem offset_split (h offset : Nat) : offset % w ^ (h + 1) = offset % w ^ h + w ^ h * (digit w h offset : Nat) :=
  Nat.mod_pow_succ

/-- The offsets below a node are divided among its children. -/
theorem digit_place {h base offset : Nat} (aligned : w ^ (h + 1) ∣ base) (low : base ≤ offset)
    (high : offset < base + w ^ (h + 1)) :
    base + digit w h offset * w ^ h ≤ offset ∧ offset < base + (digit w h offset + 1) * w ^ h := by
  obtain ⟨k, rfl⟩ := aligned
  have rest : offset % w ^ (h + 1) = offset - w ^ (h + 1) * k := by
    rw [← Nat.mod_eq_of_lt (show offset - w ^ (h + 1) * k < w ^ (h + 1) by omega), Nat.sub_mul_mod low]
  rw [offset_split] at rest
  have short : offset % w ^ h < w ^ h := Nat.mod_lt offset (Nat.pow_pos (Nat.pos_of_neZero w))
  generalize offset % w ^ h = inner at rest short
  rw [Nat.succ_mul, Nat.mul_comm (digit w h offset : Nat)]
  omega

/-- Two offsets under the same child are different below it. -/
theorem offset_below {h first second : Nat} (different : first % w ^ (h + 1) ≠ second % w ^ (h + 1))
    (same : digit w h first = digit w h second) : first % w ^ h ≠ second % w ^ h := by
  intro equal
  apply different
  rw [offset_split, offset_split, same, equal]

end Offsets
end Egos.Library.RefTree
