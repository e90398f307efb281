import Egos.Apps.Memchan
import Mathlib.Tactic.IntervalCases

/-! The numbers that printf appends to a memory channel, and what atoi makes of them. -/

namespace Egos.Memchan
open Library Strings Stdlib

def digitsOf (base n : Nat) : List UInt8 := (Nat.toDigits base n).map chr

def decimal (d : Int) : List UInt8 := if d < 0 then chr '-' :: digitsOf 10 d.natAbs else digitsOf 10 d.natAbs

def INT_MIN : Int := -2147483648

/-- A conversion appends a text, and printf goes on behind it with the other arguments. -/
def Appends (build : Build) (mc : MemChan) (c : Char) (arg : Arg) (s : List UInt8) : Prop :=
  ∃ after : MemChan, after.contents = mc.contents ++ s ∧
    ∀ fmt ap, mcVprintf build mc (chr '%' :: chr c :: fmt) (arg :: ap) = mcVprintf build after fmt ap

/-- The conversions of a value are right, and atoi reads it again. -/
structure Prints (build : Build) (mc : MemChan) (v : UInt32) : Prop where
  d : Appends build mc 'd' (.int v.toInt32) (decimal v.toInt32.toInt)
  i : Appends build mc 'i' (.int v.toInt32) (decimal v.toInt32.toInt)
  u : Appends build mc 'u' (.uint v) (digitsOf 10 v.toNat)
  x : Appends build mc 'x' (.uint v) (digitsOf 16 v.toNat)
  atoi : atoi (decimal v.toInt32.toInt) = .ok v.toInt32.toInt

/-- The channel has fewer than 2^32 bytes with the text. -/
def Room (mc : MemChan) (s : List UInt8) : Prop := mc.contents.length + s.length < 2 ^ 32

variable {build : Build} {mc after : MemChan} {c : UInt8} {s : List UInt8} {base n : Nat} {d : Int}

/-! The buffer. -/

theorem MemChan.offset_toNat (mc : MemChan) : mc.offset.toNat = mc.contents.length := by
  have bound := mc.size.toNat_lt
  have inside := mc.inside
  unfold offset
  rw [UInt32.toNat_ofNat']
  exact Nat.mod_eq_of_lt (by omega)

theorem mcPutc_room (mc : MemChan) (c : UInt8) (room : mc.contents.length + 1 < 2 ^ 32) :
    ∃ after : MemChan, mcPutc mc c = .ok after ∧ after.contents = mc.contents ++ [c] := by
  have next : (mc.offset + 1).toNat = mc.contents.length + 1 := by
    rw [UInt32.toNat_add, mc.offset_toNat]
    exact Nat.mod_eq_of_lt room
  have enough : (mc.contents ++ [c]).length ≤ (mc.grown 1).toNat := by
    rw [List.length_append, List.length_singleton, ← next]
    unfold MemChan.grown
    by_cases more : mc.offset + 1 > mc.size
    · rw [if_pos more]
      by_cases again : mc.offset + 1 > mc.size * 2
      · rw [if_pos again]
      · rw [if_neg again]
        exact UInt32.not_lt.mp again
    · rw [if_neg more]
      exact UInt32.not_lt.mp more
  exact ⟨_, dif_pos enough, rfl⟩

/-- The counter of the last byte goes around, and the byte would be written behind the buffer. -/
theorem mcPutc_full (mc : MemChan) (c : UInt8) (full : mc.contents.length + 1 = 2 ^ 32) :
    mcPutc mc c = .error .outOfRange := by
  have zero : mc.offset + 1 = 0 := by
    apply UInt32.toNat_inj.mp
    rw [UInt32.toNat_add, mc.offset_toNat]
    change (mc.contents.length + 1) % 2 ^ 32 = 0
    rw [full]
    exact Nat.mod_self _
  have same : mc.grown 1 = mc.size := by
    unfold MemChan.grown
    rw [zero]
    exact if_neg (UInt32.not_lt.mpr (UInt32.zero_le))
  refine dif_neg ?_
  change ¬ (mc.contents ++ [c]).length ≤ (mc.grown 1).toNat
  have bound := mc.size.toNat_lt
  rw [same, List.length_append, List.length_singleton, full]
  omega

/-- A string with its terminating zero is appended where there is room for it. -/
theorem mcPuts_room (string : 0 ∉ s) (room : Room mc s) :
    ∃ after : MemChan, mcPuts mc (s ++ [0]) = .ok after ∧ after.contents = mc.contents ++ s := by
  unfold Room at room
  induction s generalizing mc with
  | nil => exact ⟨mc, rfl, (List.append_nil _).symm⟩
  | cons c s ih =>
    rw [List.length_cons] at room
    obtain ⟨first, puts, contents⟩ := mcPutc_room mc c (by omega)
    have nonzero : c ≠ 0 := fun zero => string (zero ▸ List.mem_cons_self)
    obtain ⟨after, rest, same⟩ := @ih first
      (fun member => string (List.mem_cons_of_mem _ member)) (by rw [contents]; simp; omega)
    refine ⟨after, ?_, by rw [same, contents]; simp⟩
    change (if c = 0 then _ else _) = _
    rw [if_neg nonzero, puts]
    exact rest

theorem mcPuts_full (string : 0 ∉ s) (full : ¬ Room mc s) : ∃ fault, mcPuts mc (s ++ [0]) = .error fault := by
  unfold Room at full
  induction s generalizing mc with
  | nil =>
    have bound := mc.size.toNat_lt
    have inside := mc.inside
    simp at full
    omega
  | cons c s ih =>
    rw [List.length_cons] at full
    have nonzero : c ≠ 0 := fun zero => string (zero ▸ List.mem_cons_self)
    change ∃ fault, (if c = 0 then _ else _) = _
    rw [if_neg nonzero]
    by_cases last : mc.contents.length + 1 < 2 ^ 32
    · obtain ⟨first, puts, contents⟩ := mcPutc_room mc c last
      rw [puts]
      exact @ih first (fun member => string (List.mem_cons_of_mem _ member)) (by rw [contents]; simp; omega)
    · have bound := mc.size.toNat_lt
      have inside := mc.inside
      rw [mcPutc_full mc c (by omega)]
      exact ⟨_, rfl⟩

/-! Digits. -/

theorem digitsOf_small (small : n < base) : digitsOf base n = [chr n.digitChar] := by
  rw [digitsOf, Nat.toDigits_of_lt_base small]
  rfl

/-- The last digit off the end. -/
theorem digitsOf_large (two : 2 ≤ base) (large : base ≤ n) :
    digitsOf base n = digitsOf base (n / base) ++ [chr (n % base).digitChar] := by
  rw [digitsOf, Nat.toDigits_of_base_le two large, List.map_append]
  rfl

theorem charAt_digit (hexadecimal : n < 16) : charAt false n = .ok (chr n.digitChar) := by
  interval_cases n <;> rfl

theorem digit_nonzero (hexadecimal : n < 16) : chr n.digitChar ≠ 0 := by
  interval_cases n <;> decide

theorem isDigitChar_digit (small : n < 10) : isDigitChar (chr n.digitChar) = true := by
  interval_cases n <;> decide

/-- What holds of every digit holds of every character of a number. -/
theorem digitsOf_all {p : UInt8 → Prop} (two : 2 ≤ base) (digit : ∀ n < base, p (chr n.digitChar)) (n : Nat) :
    ∀ c ∈ digitsOf base n, p c := by
  induction n using Nat.strongRecOn with
  | ind n ih =>
    intro c member
    by_cases small : n < base
    · rw [digitsOf_small small, List.mem_singleton] at member
      exact member ▸ digit n small
    · rw [digitsOf_large two (by omega), List.mem_append, List.mem_singleton] at member
      rcases member with front | last
      · exact ih _ (Nat.div_lt_self (by omega) two) c front
      · exact last ▸ digit _ (Nat.mod_lt _ (by omega))

theorem digitsOf_string (two : 2 ≤ base) (sixteen : base ≤ 16) (n : Nat) : 0 ∉ digitsOf base n := by
  intro member
  exact digitsOf_all (p := (· ≠ 0)) two (fun _ small => digit_nonzero (by omega)) n 0 member rfl

theorem decimal_string (d : Int) : 0 ∉ decimal d := by
  have digits : 0 ∉ digitsOf 10 d.natAbs := digitsOf_string (by decide) (by decide) _
  unfold decimal
  by_cases negative : d < 0
  · rw [if_pos negative, List.mem_cons]
    rintro (sign | member)
    · exact absurd sign (by decide)
    · exact digits member
  · rw [if_neg negative]
    exact digits

theorem digitsOf_digits (n : Nat) : ∀ c ∈ digitsOf 10 n, isDigitChar c = true :=
  digitsOf_all (p := fun c => isDigitChar c = true) (by decide) (fun _ => isDigitChar_digit) n

/-! The array of digits. -/

theorem pushDigits_zero (rem div : Int → Int) (room : Nat) (p : List UInt8) :
    pushDigits false rem div room 0 p = .ok p := by
  cases room <;> exact if_pos rfl

/-- The operators are those of the natural numbers up to a bound. -/
def Divides (base bound : Nat) (rem div : Int → Int) : Prop :=
  ∀ n : Nat, n ≤ bound → rem n = (n % base : Nat) ∧ div n = (n / base : Nat)

theorem pushDigits_run {rem div : Int → Int} {bound : Nat} (two : 2 ≤ base) (sixteen : base ≤ 16)
    (divides : Divides base bound rem div)
    (room n : Nat) (p : List UInt8) (positive : 0 < n) (below : n < base ^ room) (inside : n ≤ bound) :
    pushDigits false rem div room n p = .ok (digitsOf base n ++ p) := by
  induction room generalizing n p with
  | zero =>
    rw [Nat.pow_zero] at below
    omega
  | succ room ih =>
    obtain ⟨remainder, quotient⟩ := divides n inside
    have hexadecimal : n % base < 16 := Nat.lt_of_lt_of_le (Nat.mod_lt _ (by omega)) sixteen
    have step : pushDigits false rem div (room + 1) n p =
        pushDigits false rem div room (n / base : Nat) (chr (n % base).digitChar :: p) := by
      have nonzero : ¬ ((n : Int) = 0) := by omega
      change (if (n : Int) = 0 then _ else (do
        let c ← charAt false (rem n)
        pushDigits false rem div room (div n) (c :: p))) = _
      rw [if_neg nonzero, remainder, quotient, charAt_digit hexadecimal]
      rfl
    rw [step]
    by_cases small : n < base
    · rw [Nat.div_eq_of_lt small, Nat.mod_eq_of_lt small, digitsOf_small small]
      exact pushDigits_zero rem div room _
    · rw [ih (n / base) _ (Nat.div_pos (by omega) (by omega)) ((Nat.div_lt_iff_lt_mul (by omega)).mpr below)
        (Nat.le_trans (Nat.div_le_self n base) inside), digitsOf_large (n := n) two (by omega), List.append_assoc]
      rfl

theorem putDigits_eq {rem div : Int → Int} (two : 2 ≤ base) (sixteen : base ≤ 16) (positive : 0 < n) (word : n < 2 ^ 32)
    (divides : Divides base n rem div) : putDigits mc false rem div n = mcPuts mc (digitsOf base n ++ [0]) := by
  have below : n < base ^ 63 := calc
    n < 2 ^ 63 := by omega
    _ ≤ base ^ 63 := Nat.pow_le_pow_left two 63
  unfold putDigits
  rw [pushDigits_run two sixteen divides 63 n [0] positive below (Nat.le_refl n)]
  rfl

/-! The conversions of numbers. -/

theorem mcPuts_one (nonzero : c ≠ 0) : mcPuts mc ([c] ++ [0]) = mcPutc mc c := by
  change (if c = 0 then _ else _) = _
  rw [if_neg nonzero]
  cases mcPutc mc c <;> rfl

theorem mcPutc_zero (mc : MemChan) (base : Nat) (two : 2 ≤ base) :
    mcPutc mc (chr '0') = mcPuts mc (digitsOf base 0 ++ [0]) := by
  rw [digitsOf_small (by omega)]
  exact (mcPuts_one (digit_nonzero (n := 0) (by decide))).symm

theorem mcUnsignedInt_eq (two : 2 ≤ base) (sixteen : base ≤ 16) (word : n < 2 ^ 32) :
    mcUnsignedInt mc n base false = mcPuts mc (digitsOf base n ++ [0]) := by
  have good : ¬ (base < 2 ∨ base > 16) := by omega
  unfold mcUnsignedInt
  rw [if_neg good]
  by_cases zero : n = 0
  · rw [if_pos zero, zero]
    exact mcPutc_zero mc base two
  · rw [if_neg zero]
    exact putDigits_eq two sixteen (by omega) word
      fun m _ => ⟨(Int.natCast_emod m base).symm, (Int.natCast_ediv m base).symm⟩

theorem signed_divides (build : Build) (base : Nat) (small : n < 2 ^ 31) :
    Divides base n (signedRem build base) (signedDiv build base) := by
  intro m inside
  have fits (k : Nat) (less : k ≤ m) : (k : Int).bmod (2 ^ 32) = k := Int.bmod_eq_of_le (by omega) (by omega)
  cases build with
  | x86_32 =>
    have same : ((m : Int) % 2 ^ 32) = m := Int.emod_eq_of_lt (by omega) (by omega)
    constructor
    · change ((m : Int) % 2 ^ 32) % base = _
      rw [same, Int.natCast_emod]
    · change (((m : Int) % 2 ^ 32) / base).bmod (2 ^ 32) = _
      rw [same, ← Int.natCast_ediv, fits _ (Nat.div_le_self m base)]
  | x86_64 =>
    constructor
    · exact (Int.ofNat_tmod m base).symm
    · exact (Int.ofNat_tdiv m base).symm

theorem mcSignedInt_eq (build : Build) (two : 2 ≤ base) (sixteen : base ≤ 16) (least : INT_MIN < d)
    (word : d < 2 ^ 31) :
    mcSignedInt build mc d base false = mcPuts mc
        ((if d < 0 then chr '-' :: digitsOf base d.natAbs else digitsOf base d.natAbs) ++ [0]) := by
  unfold INT_MIN at least
  have good : ¬ (base < 2 ∨ base > 16) := by omega
  unfold mcSignedInt
  rw [if_neg good]
  by_cases zero : d = 0
  · subst zero
    exact mcPutc_zero mc base two
  rw [if_neg zero]
  have digits (mc : MemChan) : putDigits mc false (signedRem build base) (signedDiv build base) (d.natAbs : Nat) =
      mcPuts mc (digitsOf base d.natAbs ++ [0]) :=
    putDigits_eq two sixteen (by omega) (by omega) (signed_divides build base (by omega))
  by_cases negative : d < 0
  · have fits : Signed (intBits build) (-d) := by
      cases build <;> constructor <;> simp only [intBits] <;> omega
    have magnitude : -d = (d.natAbs : Nat) := by omega
    rw [if_pos negative, if_pos negative, List.cons_append]
    change (do
      let mc ← mcPutc mc (chr '-')
      let d ← checked (intBits build) .overflow (-d)
      putDigits mc false (signedRem build base) (signedDiv build base) d) = (do
      let mc ← mcPutc mc (chr '-')
      mcPuts mc (digitsOf base d.natAbs ++ [0]))
    rw [checked_ok fits, magnitude]
    refine congrArg _ (funext fun mc => ?_)
    exact digits mc
  · have magnitude : d = (d.natAbs : Nat) := by omega
    rw [if_neg negative, if_neg negative, ← digits mc, ← magnitude]

/-! The conversions of printf. -/

theorem mcVprintf_convert (build : Build) (mc : MemChan) (c : UInt8) (fmt : List UInt8) (ap : List Arg) :
    mcVprintf build mc (chr '%' :: c :: fmt) ap = (do
      let (mc, ap) ← convert build mc c ap
      mcVprintf build mc fmt ap) :=
  if_neg fun other => other rfl

/-- A conversion that is one string is right where the channel has room for the string. -/
theorem appends_iff {c : Char} {arg : Arg} (string : 0 ∉ s)
    (converts : ∀ ap, convert build mc (chr c) (arg :: ap) = (do return (← mcPuts mc (s ++ [0]), ap))) :
    Appends build mc c arg s ↔ Room mc s := by
  constructor
  · rintro ⟨after, -, goes⟩
    by_contra full
    obtain ⟨fault, fails⟩ := mcPuts_full string full
    have ends := goes [] []
    rw [mcVprintf_convert, converts, fails] at ends
    cases ends
  · intro room
    obtain ⟨after, puts, contents⟩ := mcPuts_room string room
    refine ⟨after, contents, fun fmt ap => ?_⟩
    rw [mcVprintf_convert, converts, puts]
    rfl

theorem signed_appends_iff (d : Int32) (least : d.toInt ≠ INT_MIN) {c : Char} (signed : c = 'd' ∨ c = 'i') :
    Appends build mc c (.int d) (decimal d.toInt) ↔ Room mc (decimal d.toInt) := by
  have lower := d.le_toInt
  have upper := d.toInt_lt
  unfold INT_MIN at least
  apply appends_iff (decimal_string _)
  intro ap
  unfold decimal
  rw [← mcSignedInt_eq build (by decide) (by decide) (by unfold INT_MIN; omega) (by omega)]
  rcases signed with rfl | rfl <;> rfl

theorem unsigned_appends_iff (v : UInt32) {c : Char} (kind : c = 'u' ∧ base = 10 ∨ c = 'x' ∧ base = 16) :
    Appends build mc c (.uint v) (digitsOf base v.toNat) ↔ Room mc (digitsOf base v.toNat) := by
  have word := v.toNat_lt
  have two : 2 ≤ base := by omega
  have sixteen : base ≤ 16 := by omega
  apply appends_iff (digitsOf_string two sixteen _)
  intro ap
  rw [← mcUnsignedInt_eq two sixteen word]
  rcases kind with ⟨rfl, rfl⟩ | ⟨rfl, rfl⟩ <;> rfl

/-! atoi. -/

theorem atoiDigits_append {t : List UInt8} (digits : ∀ c ∈ s, isDigitChar c = true) (total : Int) :
    atoiDigits total (s ++ t) = (do
      let total ← atoiDigits total s
      atoiDigits total t) := by
  induction s generalizing total with
  | nil => rfl
  | cons c s ih =>
    have rest := ih fun c member => digits c (List.mem_cons_of_mem _ member)
    have digit := digits c List.mem_cons_self
    simp only [List.cons_append, atoiDigits, if_pos digit, rest]
    simp only [bind_assoc]

theorem atoiDigits_digit {total : Int} (digit : n < 10) (positive : 0 ≤ total) (fits : Signed 32 (total * 10 + n)) :
    atoiDigits total [chr n.digitChar] = .ok (total * 10 + n) := by
  have value : ((chr n.digitChar).toNat : Int) - (chr '0').toNat = n := by
    interval_cases n <;> rfl
  have before : Signed 32 (total * 10) := fits.below (by omega) (by omega)
  simp only [atoiDigits, if_pos (isDigitChar_digit digit), value, checked_ok before]
  change (do
    let total ← checked 32 Fault.overflow (total * 10 + n)
    Except.ok total) = _
  rw [checked_ok fits]
  rfl

theorem atoiDigits_digitsOf (n : Nat) (word : n < 2 ^ 31) : atoiDigits 0 (digitsOf 10 n) = .ok n := by
  induction n using Nat.strongRecOn with
  | ind n ih =>
    by_cases small : n < 10
    · rw [digitsOf_small small, atoiDigits_digit small (Int.le_refl 0) ⟨by omega, by omega⟩, Int.zero_mul, Int.zero_add]
    · have value : ((n / 10 : Nat) : Int) * 10 + (n % 10 : Nat) = n := by omega
      rw [digitsOf_large (by decide) (by omega), atoiDigits_append (digitsOf_digits _),
        ih (n / 10) (by omega) (by omega)]
      change atoiDigits ((n / 10 : Nat) : Int) _ = _
      rw [atoiDigits_digit (Nat.mod_lt n (by decide)) (by omega) (by rw [value]; exact ⟨by omega, by omega⟩), value]

theorem digitsOf_front (n : Nat) : ∃ c s, digitsOf 10 n = c :: s ∧ isDigitChar c = true := by
  have digits := digitsOf_digits n
  cases front : digitsOf 10 n with
  | nil => exact absurd (List.map_eq_nil_iff.mp front) Nat.toDigits_ne_nil
  | cons c s => exact ⟨c, s, rfl, digits c (front ▸ List.mem_cons_self)⟩

theorem atoi_digitsOf (n : Nat) (word : n < 2 ^ 31) : atoi (digitsOf 10 n) = .ok n := by
  obtain ⟨c, s, front, digit⟩ := digitsOf_front n
  have other (c' : UInt8) (none : isDigitChar c' = false) : c ≠ c' := by
    rintro rfl
    exact absurd digit (by rw [none]; decide)
  have first : byteAt (digitsOf 10 n) 0 = c := by rw [front]; rfl
  have noBlank : (digitsOf 10 n).dropWhile (fun c => c = chr ' ' || c = chr '\t') = digitsOf 10 n := by
    rw [front]
    exact List.dropWhile_cons_of_neg (by simp [other (chr ' ') (by decide), other (chr '\t') (by decide)])
  unfold atoi
  simp only [noBlank, first, if_neg (other (chr '-') (by decide)), if_neg (other (chr '+') (by decide))]
  exact atoiDigits_digitsOf n word

theorem atoi_minus (s : List UInt8) : atoi (chr '-' :: s) = (do
    let total ← atoiDigits 0 s
    checked 32 .overflow (-total)) := rfl

theorem atoi_decimal (least : INT_MIN < d) (word : d < 2 ^ 31) : atoi (decimal d) = .ok d := by
  unfold INT_MIN at least
  unfold decimal
  by_cases negative : d < 0
  · have magnitude : -((d.natAbs : Nat) : Int) = d := by omega
    rw [if_pos negative, atoi_minus, atoiDigits_digitsOf _ (by omega)]
    change checked 32 Fault.overflow (-((d.natAbs : Nat) : Int)) = _
    rw [magnitude]
    exact checked_ok ⟨by omega, by omega⟩
  · have magnitude : ((d.natAbs : Nat) : Int) = d := by omega
    rw [if_neg negative, atoi_digitsOf _ (by omega), magnitude]

/-- The digits are read before the sign, and they are too many for an int. -/
theorem atoi_least : atoi (decimal INT_MIN) = .error .overflow := by decide +kernel

theorem Prints.not_least {v : UInt32} (prints : Prints build mc v) : v.toInt32.toInt ≠ INT_MIN := by
  intro least
  have reads := prints.atoi
  rw [least, atoi_least] at reads
  cases reads

theorem prints_iff (build : Build) (mc : MemChan) (v : UInt32) :
    Prints build mc v ↔ v.toInt32.toInt ≠ INT_MIN ∧
        ∀ s ∈ [decimal v.toInt32.toInt, digitsOf 10 v.toNat, digitsOf 16 v.toNat], Room mc s := by
  have lower := v.toInt32.le_toInt
  have upper := v.toInt32.toInt_lt
  have decimals := @unsigned_appends_iff build mc 10 v 'u' (.inl ⟨rfl, rfl⟩)
  have hexadecimals := @unsigned_appends_iff build mc 16 v 'x' (.inr ⟨rfl, rfl⟩)
  rw [List.forall_mem_cons, List.forall_mem_cons, List.forall_mem_singleton]
  constructor
  · intro prints
    have least := prints.not_least
    exact ⟨least, (signed_appends_iff _ least (.inl rfl)).mp prints.d, decimals.mp prints.u, hexadecimals.mp prints.x⟩
  · rintro ⟨least, room, roomDecimal, roomHexadecimal⟩
    exact {
      d := (signed_appends_iff _ least (.inl rfl)).mpr room
      i := (signed_appends_iff _ least (.inr rfl)).mpr room
      u := decimals.mpr roomDecimal
      x := hexadecimals.mpr roomHexadecimal
      atoi := atoi_decimal (by unfold INT_MIN at least ⊢; omega) (by omega) }

/-- The negation overflows where an `int_t` has 32 bits, and atoi overflows on both builds. -/
theorem least_not_printed : mcSignedInt .x86_32 mcAlloc INT_MIN 10 false = .error .overflow ∧
    ¬ Prints .x86_32 mcAlloc 2147483648 ∧ ¬ Prints .x86_64 mcAlloc 2147483648 :=
  ⟨rfl, fun prints => prints.not_least rfl, fun prints => prints.not_least rfl⟩

end Egos.Memchan
