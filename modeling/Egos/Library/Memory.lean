import Mathlib.Data.UInt
import Mathlib.Logic.Function.Basic

/-! Memory as bytes, with 32-bit words in little-endian order. A word that is stored is
reduced to its low 32 bits, and it changes the four bytes of its own place only. -/

namespace Egos.Library

abbrev Memory := Nat → UInt8

namespace Memory

def load32 (m : Memory) (a : Nat) : Nat :=
  (m a).toNat + 256 * (m (a + 1)).toNat + 65536 * (m (a + 2)).toNat + 16777216 * (m (a + 3)).toNat

def store32 (m : Memory) (a value : Nat) : Memory := fun x =>
  if x = a then .ofNat value
  else if x = a + 1 then .ofNat (value / 256)
  else if x = a + 2 then .ofNat (value / 65536)
  else if x = a + 3 then .ofNat (value / 16777216)
  else m x

/-- A 64-bit word. -/
def load64 (m : Memory) (a : Nat) : Nat := m.load32 a + 2 ^ 32 * m.load32 (a + 4)

def store64 (m : Memory) (a value : Nat) : Memory := (m.store32 a value).store32 (a + 4) (value / 2 ^ 32)

/-- Bytes one after the other. -/
def storeBytes (m : Memory) (a : Nat) (bytes : List UInt8) : Memory := fun x =>
  if a ≤ x ∧ x < a + bytes.length then bytes.getD (x - a) 0 else m x

def store8 (m : Memory) (a : Nat) (value : UInt8) : Memory := Function.update m a value

/-- Copies `count` bytes, one after the other in the order of their addresses. -/
def copyBytes : Nat → Nat → Nat → Memory → Memory
  | 0, _, _, m => m
  | count + 1, target, source, m => copyBytes count (target + 1) (source + 1) (m.store8 target (m source))

def fillBytes (value : UInt8) : Nat → Nat → Memory → Memory
  | 0, _, m => m
  | count + 1, target, m => fillBytes value count (target + 1) (m.store8 target value)

variable {m : Memory} {a b value : Nat}

theorem load32_lt : m.load32 a < 2 ^ 32 := by
  have first := (m a).toNat_lt
  have second := (m (a + 1)).toNat_lt
  have third := (m (a + 2)).toNat_lt
  have fourth := (m (a + 3)).toNat_lt
  unfold load32
  omega

theorem load32_congr {n : Memory} (same : ∀ x, a ≤ x → x < a + 4 → n x = m x) : n.load32 a = m.load32 a := by
  unfold load32
  rw [same a (by omega) (by omega), same (a + 1) (by omega) (by omega), same (a + 2) (by omega) (by omega),
    same (a + 3) (by omega) (by omega)]

theorem store32_outside {x : Nat} (outside : x < a ∨ a + 4 ≤ x) : m.store32 a value x = m x := by
  unfold store32
  rw [if_neg (by omega), if_neg (by omega), if_neg (by omega), if_neg (by omega)]

theorem load32_store32 : (m.store32 a value).load32 a = value % 2 ^ 32 := by
  simp only [load32, store32, ↓reduceIte, Nat.add_eq_left, Nat.add_left_cancel_iff, Nat.reduceEqDiff, Nat.succ_ne_zero,
    UInt8.toNat_ofNat']
  omega

theorem load32_store32_of_lt (small : value < 2 ^ 32) : (m.store32 a value).load32 a = value := by
  rw [load32_store32, Nat.mod_eq_of_lt small]

/-- A store behind an offset is the store in the memory from that offset on. -/
theorem store32_offset {x : Nat} : m.store32 (b + a) value (b + x) = store32 (fun y => m (b + y)) a value x := by
  simp only [store32, Nat.add_assoc, Nat.add_left_cancel_iff]

theorem load32_store32_apart (apart : b + 4 ≤ a ∨ a + 4 ≤ b) : (m.store32 a value).load32 b = m.load32 b :=
  load32_congr fun _ _ _ => store32_outside (by omega)

theorem load64_congr {n : Memory} (same : ∀ x, a ≤ x → x < a + 8 → n x = m x) : n.load64 a = m.load64 a := by
  have low : n.load32 a = m.load32 a := load32_congr fun x above below => same x above (by omega)
  have high : n.load32 (a + 4) = m.load32 (a + 4) := load32_congr fun x above below => same x (by omega) (by omega)
  rw [load64, load64, low, high]

theorem store64_outside {x : Nat} (outside : x < a ∨ a + 8 ≤ x) : m.store64 a value x = m x :=
  (store32_outside (by omega)).trans (store32_outside (by omega))

theorem load64_store64_of_lt (small : value < 2 ^ 64) : (m.store64 a value).load64 a = value := by
  have low : (m.store64 a value).load32 a = value % 2 ^ 32 :=
    (load32_store32_apart (.inl (Nat.le_refl _))).trans load32_store32
  have high : (m.store64 a value).load32 (a + 4) = value / 2 ^ 32 % 2 ^ 32 := load32_store32
  rw [load64, low, high]
  omega

theorem storeBytes_outside {bytes : List UInt8} {x : Nat} (outside : x < a ∨ a + bytes.length ≤ x) :
    m.storeBytes a bytes x = m x :=
  if_neg (by omega)

theorem storeBytes_inside {bytes : List UInt8} {i : Nat} (inside : i < bytes.length) :
    m.storeBytes a bytes (a + i) = bytes.getD i 0 := by
  unfold storeBytes
  rw [if_pos (by omega), Nat.add_sub_cancel_left]

theorem store8_outside {x : Nat} {byte : UInt8} (outside : x ≠ a) : m.store8 a byte x = m x :=
  Function.update_of_ne outside ..

theorem copyBytes_outside {count target source x : Nat} (outside : x < target ∨ target + count ≤ x) :
    copyBytes count target source m x = m x := by
  induction count generalizing target source m with
  | zero => rfl
  | succ count ih => exact (ih (by omega)).trans (store8_outside (by omega))

theorem fillBytes_outside {byte : UInt8} {count target x : Nat} (outside : x < target ∨ target + count ≤ x) :
    fillBytes byte count target m x = m x := by
  induction count generalizing target m with
  | zero => rfl
  | succ count ih => exact (ih (by omega)).trans (store8_outside (by omega))

/-- A copy to a place apart from the source. -/
theorem copyBytes_inside {count target source i : Nat}
    (apart : target + count ≤ source ∨ source + count ≤ target) (inside : i < count) :
    copyBytes count target source m (target + i) = m (source + i) := by
  induction count generalizing target source i m with
  | zero => exact absurd inside (Nat.not_lt_zero i)
  | succ count ih =>
    unfold copyBytes
    cases i with
    | zero => exact (copyBytes_outside (.inl (Nat.lt_succ_self _))).trans (Function.update_self ..)
    | succ i =>
      have later := @ih (m.store8 target (m source)) (target + 1) (source + 1) i (by omega)
        (Nat.lt_of_succ_lt_succ inside)
      rw [Nat.add_right_comm, Nat.add_right_comm source 1 i] at later
      exact later.trans (store8_outside (by omega))

theorem fillBytes_inside {byte : UInt8} {count target i : Nat} (inside : i < count) :
    fillBytes byte count target m (target + i) = byte := by
  induction count generalizing target i m with
  | zero => exact absurd inside (Nat.not_lt_zero i)
  | succ count ih =>
    unfold fillBytes
    cases i with
    | zero => exact (fillBytes_outside (.inl (Nat.lt_succ_self _))).trans (Function.update_self ..)
    | succ i =>
      have later := @ih (m.store8 target byte) (target + 1) i (Nat.lt_of_succ_lt_succ inside)
      rwa [Nat.add_right_comm] at later

end Memory
end Egos.Library
