import Mathlib.Data.List.Basic
import Mathlib.Data.List.TakeDrop

/-! Arrays that hold records of one size, one after the other. -/

namespace Egos.Library

variable {α : Type} {n i j k m : Nat} {xs data : List α}

/-- The data overwrite what is at an index of the array and after it, or extend the array. -/
def splice (xs : List α) (start : Nat) (data : List α) : List α :=
  xs.take start ++ data ++ xs.drop (start + data.length)

theorem length_splice_inside (inside : j + data.length ≤ xs.length) : (splice xs j data).length = xs.length := by
  unfold splice
  rw [List.length_append, List.length_append, List.length_take, List.length_drop]
  omega

theorem splice_end : splice xs xs.length data = xs ++ data := by
  unfold splice
  rw [List.take_length, List.drop_eq_nil_of_le (Nat.le_add_right _ _), List.append_nil]

theorem splice_getElem? (inside : j ≤ xs.length) : (splice xs j data)[i]? =
    if i < j then xs[i]? else if i < j + data.length then data[i - j]? else xs[i]? := by
  unfold splice
  have front : (xs.take j).length = j := List.length_take_of_le inside
  rcases Nat.lt_or_ge i j with before | after
  · rw [if_pos before, List.append_assoc, List.getElem?_append_left (by omega), List.getElem?_take_of_lt before]
  · rw [if_neg (by omega)]
    rcases Nat.lt_or_ge i (j + data.length) with within | beyond
    · rw [if_pos within, List.getElem?_append_left (by rw [List.length_append]; omega),
        List.getElem?_append_right (by omega), front]
    · rw [if_neg (by omega), List.getElem?_append_right (by rw [List.length_append]; omega), List.getElem?_drop]
      congr 1
      rw [List.length_append, front]
      omega

def record (n : Nat) (xs : List α) (k : Nat) : List α := (xs.drop (k * n)).take n

/-- The records of an array; what is left over at its end is none. -/
def records (n : Nat) (xs : List α) : List (List α) := (List.range (xs.length / n)).map (record n xs)

@[simp] theorem length_records : (records n xs).length = xs.length / n := by
  rw [records, List.length_map, List.length_range]

theorem records_getElem? : (records n xs)[k]? = if k < xs.length / n then some (record n xs k) else none := by
  unfold records
  rw [List.getElem?_map]
  split
  case isTrue inside => rw [List.getElem?_range inside]; rfl
  case isFalse outside => rw [List.getElem?_eq_none (by rw [List.length_range]; omega)]; rfl

theorem record_getElem? : (record n xs k)[i]? = if i < n then xs[k * n + i]? else none := by
  unfold record
  rw [List.getElem?_take]
  split
  · rw [List.getElem?_drop]
  · rfl

/-- An index inside a record is before the records that follow. -/
theorem index_lt (before : k < j) (inside : i < n) : k * n + i < j * n := by
  have next : (k + 1) * n ≤ j * n := Nat.mul_le_mul_right n before
  rw [Nat.succ_mul] at next
  omega

/-- Whole records can be read at once. -/
theorem records_page (whole : n ∣ xs.length) (positive : 0 < n) :
    records n ((xs.drop (j * n)).take (m * n)) = ((records n xs).drop j).take m := by
  obtain ⟨count, total⟩ := whole
  have size : ((xs.drop (j * n)).take (m * n)).length / n = min m (count - j) := by
    rw [List.length_take, List.length_drop, total, Nat.mul_comm n count, ← Nat.sub_mul, Nat.mul_min_mul_right,
      Nat.mul_div_cancel _ positive]
  refine List.ext_getElem? fun k => ?_
  rw [records_getElem?, size, List.getElem?_take, List.getElem?_drop, records_getElem?, total,
    Nat.mul_div_cancel_left _ positive]
  by_cases inside : k < m
  · rw [if_pos inside]
    by_cases known : j + k < count
    · rw [if_pos (by omega), if_pos known]
      refine congrArg some (List.ext_getElem? fun i => ?_)
      rw [record_getElem?, record_getElem?]
      by_cases here : i < n
      · rw [if_pos here, if_pos here, List.getElem?_take_of_lt (index_lt inside here), List.getElem?_drop]
        congr 1
        rw [Nat.add_mul, Nat.add_assoc]
      · rw [if_neg here, if_neg here]
    · rw [if_neg (by omega), if_neg known]
  · rw [if_neg (by omega), if_neg inside]

/-- A record is overwritten. -/
theorem records_splice (whole : n ∣ xs.length) (positive : 0 < n) (size : data.length = n)
    (inside : j < xs.length / n) :
    records n (splice xs (j * n) data) = (records n xs).set j data := by
  obtain ⟨count, total⟩ := whole
  have known : j < count := by rwa [total, Nat.mul_div_cancel_left _ positive] at inside
  have fits : j * n + data.length ≤ xs.length := by
    have next : (j + 1) * n ≤ count * n := Nat.mul_le_mul_right n known
    rw [Nat.succ_mul] at next
    rw [total, size, Nat.mul_comm n]
    exact next
  refine List.ext_getElem? fun k => ?_
  rw [records_getElem?, length_splice_inside fits, List.getElem?_set, length_records, records_getElem?]
  by_cases present : k < xs.length / n
  · rw [if_pos present]
    have same : record n (splice xs (j * n) data) k = if j = k then data else record n xs k := by
      refine List.ext_getElem? fun i => ?_
      rw [record_getElem?, splice_getElem? (by omega), size]
      rcases Nat.lt_trichotomy k j with before | rfl | after
      · rw [if_neg (show ¬j = k by omega), record_getElem?]
        by_cases here : i < n
        · rw [if_pos here, if_pos here, if_pos (index_lt before here)]
        · rw [if_neg here, if_neg here]
      · rw [if_pos rfl]
        by_cases here : i < n
        · rw [if_pos here, if_neg (by omega), if_pos (by omega), Nat.add_sub_cancel_left]
        · rw [if_neg here, List.getElem?_eq_none (by omega)]
      · rw [if_neg (show ¬j = k by omega), record_getElem?]
        have next : (j + 1) * n ≤ k * n := Nat.mul_le_mul_right n after
        rw [Nat.succ_mul] at next
        by_cases here : i < n
        · rw [if_pos here, if_pos here, if_neg (by omega), if_neg (by omega)]
        · rw [if_neg here, if_neg here]
    rw [same]
    by_cases here : j = k
    · rw [if_pos here, if_pos here, if_pos inside]
    · rw [if_neg here, if_neg here, if_pos present]
  · rw [if_neg present, if_neg (by rintro rfl; exact present inside), if_neg present]

/-- A record is added at the end. -/
theorem records_append (whole : n ∣ xs.length) (positive : 0 < n) (size : data.length = n) :
    records n (xs ++ data) = records n xs ++ [data] := by
  obtain ⟨count, total⟩ := whole
  have before : xs.length / n = count := by rw [total, Nat.mul_div_cancel_left _ positive]
  have after : (xs ++ data).length / n = count + 1 := by
    rw [List.length_append, total, size, ← Nat.mul_succ, Nat.mul_div_cancel_left _ positive]
  have last : xs.length = count * n := by rw [total, Nat.mul_comm]
  refine List.ext_getElem? fun k => ?_
  rw [records_getElem?, after]
  rcases Nat.lt_trichotomy k count with front | rfl | beyond
  · rw [if_pos (by omega), List.getElem?_append_left (by rw [length_records, before]; exact front),
      records_getElem?, before, if_pos front]
    refine congrArg some (List.ext_getElem? fun i => ?_)
    rw [record_getElem?, record_getElem?]
    by_cases here : i < n
    · rw [if_pos here, if_pos here, List.getElem?_append_left (last ▸ index_lt front here)]
    · rw [if_neg here, if_neg here]
  · rw [if_pos (by omega), List.getElem?_append_right (Nat.le_of_eq (by rw [length_records, before])),
      length_records, before, Nat.sub_self]
    refine congrArg some ?_
    unfold record
    rw [List.drop_left' last, List.take_of_length_le (Nat.le_of_eq size)]
  · rw [if_neg (by omega), List.getElem?_eq_none
      (by rw [List.length_append, length_records, before, List.length_singleton]; omega)]

end Egos.Library
