import Egos.Apps.Pwdsvr
import Mathlib.Tactic.IntervalCases

/-! How a request of the password server is taken apart. -/

namespace Egos.Pwdsvr
open Library Library.Prog

/-- The request is refused, or the three strings take up the payload one after the other. A zero is stored
in the last byte of the first two and behind the third one, in the buffer and behind the header. -/
def Splits (before : Memory) (total : Nat) : Outcome Server Halt (Option Parts) → Prop
  | .done none _ => True
  | .done (some parts) after =>
    ∃ u o n : Nat, u = (unameSize before).toNat ∧ o = (opwdSize before).toNat ∧ n = (npwdSize before).toNat ∧
      1 ≤ u ∧ 1 ≤ o ∧ u + o + n = total ∧
      parts = { uname := requestSize, opwd := requestSize + u, npwd := requestSize + u + o } ∧
        requestSize + total < bufferSize ∧
      after.req (requestSize + u - 1) = 0 ∧ after.req (requestSize + u + o - 1) = 0 ∧
        after.req (requestSize + total) = 0 ∧
      ∀ x, x ≠ requestSize + u - 1 → x ≠ requestSize + u + o - 1 → x ≠ requestSize + total → after.req x = before x
  | .halted _ _ => False

variable {s : Server} {m : Memory} {offset : Nat} {u o n : UInt32}

/-- What a store behind the header leaves of it. -/
theorem header_kept (behind : requestSize ≤ offset) :
    unameSize (m.store8 offset 0) = unameSize m ∧ opwdSize (m.store8 offset 0) = opwdSize m ∧
    npwdSize (m.store8 offset 0) = npwdSize m := by
  have kept : ∀ a, a + 4 ≤ requestSize → (m.store8 offset 0).load32 a = m.load32 a := fun a inside =>
    Memory.load32_congr fun x _ _ => Memory.store8_outside (by omega)
  unfold unameSize opwdSize npwdSize
  rw [kept 0 (by decide), kept 4 (by decide), kept 8 (by decide)]
  exact ⟨rfl, rfl, rfl⟩

theorem putZero_done (inside : offset < bufferSize) :
    putZero offset s = .done () { s with req := s.req.store8 offset 0 } := if_pos inside

theorem putZero_outside (outside : ¬ offset < bufferSize) : putZero offset s = .halted (.outside offset) s :=
  if_neg outside

theorem zeros_apply {a b c : Nat} (x : Nat) :
    ((m.store8 a 0).store8 b 0).store8 c 0 x = if x = c ∨ x = b ∨ x = a then 0 else m x := by
  simp only [Memory.store8, Function.update_apply]
  by_cases last : x = c
  · rw [if_pos last, if_pos (.inl last)]
  · by_cases second : x = b
    · rw [if_neg last, if_pos second, if_pos (.inr (.inl second))]
    · by_cases first : x = a
      · rw [if_neg last, if_neg second, if_pos first, if_pos (.inr (.inr first))]
      · rw [if_neg last, if_neg second, if_neg first, if_neg (by simp [first, second, last])]

theorem pred_of_zero (none : u.toNat = 0) : (u - 1).toNat = 2 ^ 32 - 1 := by
  rw [UInt32.toNat_sub, none]
  rfl

theorem pred_of_pos (some : 1 ≤ u.toNat) : (u - 1).toNat = u.toNat - 1 := UInt32.toNat_sub_of_le _ _ some

/-- Where the zeros are stored, one after the other. -/
theorem split_stores {total : UInt32} (named : unameSize s.req = u) (old : opwdSize s.req = o)
    (new : npwdSize s.req = n) (same : total = u + o + n) :
    split total s = (do
      putZero (requestSize + (u - 1).toNat)
      putZero (requestSize + u.toNat + (o - 1).toNat)
      putZero (requestSize + u.toNat + o.toNat + n.toNat)
      pure (some ({ uname := requestSize, opwd := requestSize + u.toNat, npwd := requestSize + u.toNat + o.toNat } : Parts))) s := by
  unfold split
  rw [bind_done (get_run _)]
  simp only [named, old, new]
  rw [if_neg fun different => different same]
  by_cases first : requestSize + (u - 1).toNat < bufferSize
  · rw [bind_done (putZero_done first), bind_done (putZero_done first), bind_done (get_run _)]
    obtain ⟨sameName, sameOld, sameNew⟩ := @header_kept s.req (requestSize + (u - 1).toNat) (Nat.le_add_right ..)
    simp only [sameName, sameOld, named, old]
    by_cases second : requestSize + u.toNat + (o - 1).toNat < bufferSize
    · rw [bind_done (putZero_done second), bind_done (putZero_done second), bind_done (get_run _)]
      have kept := @header_kept (s.req.store8 (requestSize + (u - 1).toNat) 0)
        (requestSize + u.toNat + (o - 1).toNat) (by omega)
      simp only [kept.2.1, kept.2.2, sameOld, sameNew, old, new]
    · rw [bind_halted (putZero_outside second), bind_halted (putZero_outside second)]
  · rw [bind_halted (putZero_outside first), bind_halted (putZero_outside first)]

/-- The sizes add up in 32 bits, and the zeros are in the buffer only if they also do as they are. -/
theorem split_splits {total : UInt32} (named : unameSize s.req = u) (old : opwdSize s.req = o)
    (new : npwdSize s.req = n)
    (fits : requestSize + total.toNat < bufferSize) :
    Splits s.req total.toNat (split total s) ↔ total ≠ u + o + n ∨ 1 ≤ u.toNat ∧ 1 ≤ o.toNat ∧
        u.toNat + o.toNat + n.toNat = total.toNat := by
  by_cases different : total ≠ u + o + n
  · unfold split
    rw [bind_done (get_run _)]
    simp only [named, old, new]
    rw [if_pos different]
    exact iff_of_true trivial (.inl different)
  have same : total = u + o + n := not_ne_iff.mp different
  have wrapped : total.toNat = (u.toNat + o.toNat + n.toNat) % 2 ^ 32 := by
    rw [same, UInt32.toNat_add, UInt32.toNat_add, Nat.mod_add_mod]
  have room : bufferSize = requestSize + 1024 := rfl
  rw [split_stores named old new same]
  constructor
  · intro splits
    by_cases first : requestSize + (u - 1).toNat < bufferSize
    · by_cases second : requestSize + u.toNat + (o - 1).toNat < bufferSize
      · by_cases third : requestSize + u.toNat + o.toNat + n.toNat < bufferSize
        · have someName : 1 ≤ u.toNat := Nat.one_le_iff_ne_zero.mpr fun none => by
            rw [pred_of_zero none] at first
            omega
          have someOld : 1 ≤ o.toNat := Nat.one_le_iff_ne_zero.mpr fun none => by
            rw [pred_of_zero none] at second
            omega
          exact .inr ⟨someName, someOld, by omega⟩
        · rw [bind_done (putZero_done first), bind_done (putZero_done second),
            bind_halted (putZero_outside third)] at splits
          exact splits.elim
      · rw [bind_done (putZero_done first), bind_halted (putZero_outside second)] at splits
        exact splits.elim
    · rw [bind_halted (putZero_outside first)] at splits
      exact splits.elim
  · rintro (other | ⟨someName, someOld, whole⟩)
    · exact absurd other different
    · have name := pred_of_pos someName
      have password := pred_of_pos someOld
      rw [bind_done (putZero_done (by omega)), bind_done (putZero_done (by omega)), bind_done (putZero_done (by omega))]
      refine ⟨u.toNat, o.toNat, n.toNat, congrArg _ named.symm, congrArg _ old.symm, congrArg _ new.symm,
        someName, someOld, whole, rfl, fits, ?_⟩
      refine ⟨?_, ?_, ?_, fun x apart between behind => ?_⟩
      · exact (zeros_apply _).trans (if_pos (by omega))
      · exact (zeros_apply _).trans (if_pos (by omega))
      · exact (zeros_apply _).trans (if_pos (by omega))
      · exact (zeros_apply _).trans (if_neg (by omega))

/-! What a message leaves in the buffer. -/

def received (payload : List UInt8) : Nat := min payload.length (pointerSize + MAX_REQ_SIZE - requestSize)

theorem word_length (w : UInt32) : (word w).length = 4 := rfl

/-- The bytes of an integer make the integer. -/
theorem word_load32 {a : Nat} {w : UInt32} (bytes : ∀ i < 4, m (a + i) = (word w).getD i 0) :
    UInt32.ofNat (m.load32 a) = w := by
  have first := bytes 0 (by decide)
  have second := bytes 1 (by decide)
  have third := bytes 2 (by decide)
  have fourth := bytes 3 (by decide)
  unfold Memory.load32
  simp only [Nat.add_zero, word, List.getD_cons_zero, List.getD_cons_succ] at first second third fourth
  rw [first, second, third, fourth]
  have small := w.toNat_lt
  refine UInt32.toNat_inj.mp ?_
  simp only [UInt32.toNat_ofNat', UInt8.toNat_ofNat']
  omega

def arrived (bytes : List UInt8) (s : Server) : Server :=
  { s with req := fun i => (bytes.take (pointerSize + MAX_REQ_SIZE)).getD i (s.req i) }

theorem message_length (u o n : UInt32) (payload : List UInt8) :
    (message u o n payload).length = requestSize + payload.length := by
  simp only [message, List.length_append, word_length, requestSize]

theorem receive_run (u o n : UInt32) (payload : List UInt8) (s : Server) :
    receive (message u o n payload) s = .done (.ofNat (received payload)) (arrived (message u o n payload) s) := by
  have length : ((message u o n payload).take (pointerSize + MAX_REQ_SIZE)).length =
      min (pointerSize + MAX_REQ_SIZE) (requestSize + payload.length) := by
    rw [List.length_take, message_length]
  have size : min (pointerSize + MAX_REQ_SIZE) (requestSize + payload.length) - requestSize = received payload := by
    unfold received pointerSize MAX_REQ_SIZE requestSize
    omega
  unfold receive
  rw [bind_done (modify_run _ _), if_neg (by rw [length]; unfold pointerSize MAX_REQ_SIZE requestSize; omega),
    length, size]
  rfl

/-- The header arrives whole. -/
theorem arrived_header (u o n : UInt32) (payload : List UInt8) (s : Server) {i : Nat} (inside : i < requestSize) :
    (arrived (message u o n payload) s).req i = (word u ++ word o ++ word n).getD i 0 := by
  have header : (word u ++ word o ++ word n).length = requestSize := rfl
  unfold arrived message
  dsimp only
  rw [List.getD_eq_getElem?_getD, List.getD_eq_getElem?_getD,
    List.getElem?_take_of_lt (by unfold pointerSize MAX_REQ_SIZE requestSize at *; omega),
    List.getElem?_append_left (by omega), List.getElem?_eq_getElem (by omega)]
  rfl

theorem arrived_sizes (u o n : UInt32) (payload : List UInt8) (s : Server) :
    unameSize (arrived (message u o n payload) s).req = u ∧ opwdSize (arrived (message u o n payload) s).req = o ∧
      npwdSize (arrived (message u o n payload) s).req = n := by
  have small : ∀ i a, i < 4 → a + 4 ≤ requestSize → a + i < requestSize := by omega
  refine ⟨word_load32 fun i inside => ?_, word_load32 fun i inside => ?_, word_load32 fun i inside => ?_⟩
  · rw [arrived_header u o n payload s (small i 0 inside (by decide))]
    interval_cases i <;> rfl
  · rw [arrived_header u o n payload s (small i 4 inside (by decide))]
    interval_cases i <;> rfl
  · rw [arrived_header u o n payload s (small i 8 inside (by decide))]
    interval_cases i <;> rfl

/-- A request of three sizes and a payload is taken apart as it should be if and only if the sizes do not add
up, or the name and the old password have a byte each and the sizes add up without a wrap. -/
theorem request_splits (u o n : UInt32) (payload : List UInt8) (s : Server) :
    Splits (arrived (message u o n payload) s).req (received payload) ((receive (message u o n payload) >>= split) s) ↔
      UInt32.ofNat (received payload) ≠ u + o + n ∨ 1 ≤ u.toNat ∧ 1 ≤ o.toNat ∧
          u.toNat + o.toNat + n.toNat = received payload := by
  obtain ⟨named, old, new⟩ := arrived_sizes u o n payload s
  have small : received payload ≤ 1020 := Nat.min_le_right ..
  have total : (UInt32.ofNat (received payload)).toNat = received payload := by
    rw [UInt32.toNat_ofNat']
    omega
  have splits := @split_splits (arrived (message u o n payload) s) u o n (UInt32.ofNat (received payload)) named old new
    (by rw [total]; unfold bufferSize requestSize MAX_REQ_SIZE; omega)
  rw [total] at splits
  rw [bind_done (receive_run u o n payload s)]
  exact splits

/-- The size of an empty user name is 0, and the zero that ends it is put far behind the buffer. -/
theorem empty_name : ¬ ∀ (u o n : UInt32) (payload : List UInt8) (s : Server),
    Splits (arrived (message u o n payload) s).req (received payload)
        ((receive (message u o n payload) >>= split) s) := by
  intro splits
  have nothing := splits 0 0 0 [] { req := fun _ => 0, file := [], mc := [], randstate := 0 }
  obtain ⟨named, old, new⟩ := arrived_sizes 0 0 0 [] { req := fun _ => 0, file := [], mc := [], randstate := 0 }
  rw [bind_done (receive_run 0 0 0 [] _), split_stores named old new (by decide),
    bind_halted (putZero_outside (by decide))] at nothing
  exact nothing

end Egos.Pwdsvr
