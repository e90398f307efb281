import Egos.Apps.Stdlib
import Mathlib.Data.UInt

/-! The memory channels of lib/memchan.c: a buffer that printf appends to. The bytes of the
buffer that nothing has been written to are left out. -/

namespace Egos.Memchan
open Library Strings Stdlib

/-- The size of an `int_t`. -/
def intBits : Build → Nat
  | .x86_32 => 32
  | .x86_64 => 64

inductive Fault where
  /-- A signed operation overflows. -/
  | overflow
  /-- An access outside of an array or of the buffer. -/
  | outOfRange
  /-- An argument is taken that is not there, or that has another type. -/
  | noArgument
  deriving DecidableEq

/-- `struct mem_chan`: `offset` bytes have been written to a buffer of `size` bytes. -/
structure MemChan where
  contents : List UInt8
  size : UInt32
  inside : contents.length ≤ size.toNat

def MemChan.offset (mc : MemChan) : UInt32 := .ofNat mc.contents.length

/-- The size of the buffer when so many bytes more are written. -/
def MemChan.grown (mc : MemChan) (size : UInt32) : UInt32 :=
  if mc.offset + size > mc.size then
    let doubled := mc.size * 2
    if mc.offset + size > doubled then mc.offset + size else doubled
  else mc.size

def mcAlloc : MemChan := { contents := [], size := 0, inside := Nat.le_refl 0 }

def mcPut (mc : MemChan) (buf : List UInt8) : Except Fault MemChan :=
  let size := mc.grown (.ofNat buf.length)
  if inside : (mc.contents ++ buf).length ≤ size.toNat then .ok { contents := mc.contents ++ buf, size, inside }
    else .error .outOfRange

def mcPutc (mc : MemChan) (c : UInt8) : Except Fault MemChan := mcPut mc [c]

def mcPuts (mc : MemChan) : List UInt8 → Except Fault MemChan
  | [] => .ok mc
  | c :: s => if c = 0 then .ok mc else do
    let mc ← mcPutc mc c
    mcPuts mc s

/-- `"0123456789ABCDEF"` and `"0123456789abcdef"` -/
def chars (caps : Bool) : List UInt8 := if caps then text "0123456789ABCDEF" else text "0123456789abcdef"

/-- An element of a string literal, which ends with a zero. -/
def charAt (caps : Bool) (index : Int) : Except Fault UInt8 :=
  if 0 ≤ index ∧ index ≤ (chars caps).length then .ok (byteAt (chars caps) index.toNat) else .error .outOfRange

/-- The loop that writes the digits of a number, from the last one, below the `room` that is
left in the array. `rem` and `div` are the operators `%` and `/` for the type of the number. -/
def pushDigits (caps : Bool) (rem div : Int → Int) : Nat → Int → List UInt8 → Except Fault (List UInt8)
  | room, d, p =>
    if d = 0 then .ok p
    else match room with
      | 0 => .error .outOfRange
      | room + 1 => do
        let c ← charAt caps (rem d)
        pushDigits caps rem div room (div d) (c :: p)

/-- The digits and the terminating zero in an array of 64 bytes. -/
def putDigits (mc : MemChan) (caps : Bool) (rem div : Int → Int) (d : Int) : Except Fault MemChan := do
  let p ← pushDigits caps rem div 63 d [0]
  mcPuts mc p

/-- A `uint_t` is a number that is not negative. -/
def mcUnsignedInt (mc : MemChan) (d : Nat) (base : Nat) (caps : Bool) : Except Fault MemChan :=
  if base < 2 ∨ base > 16 then mcPuts mc (text "<bad base>")
  else if d = 0 then mcPutc mc (chr '0')
  else putDigits mc caps (· % base) (· / base) d

/-- `d % base`, where `base` is an unsigned int: an `int_t` of 32 bits is made unsigned. -/
def signedRem (build : Build) (base : Nat) (d : Int) : Int :=
  match build with
  | .x86_32 => (d % 2 ^ 32) % base
  | .x86_64 => d.tmod base

/-- `d /= base` -/
def signedDiv (build : Build) (base : Nat) (d : Int) : Int :=
  match build with
  | .x86_32 => ((d % 2 ^ 32) / base).bmod (2 ^ 32)
  | .x86_64 => d.tdiv base

def mcSignedInt (build : Build) (mc : MemChan) (d : Int) (base : Nat) (caps : Bool) : Except Fault MemChan :=
  if base < 2 ∨ base > 16 then mcPuts mc (text "<bad base>")
  else if d = 0 then mcPutc mc (chr '0')
  else if d < 0 then do
    let mc ← mcPutc mc (chr '-')
    let d ← checked (intBits build) .overflow (-d)
    putDigits mc caps (signedRem build base) (signedDiv build base) d
  else putDigits mc caps (signedRem build base) (signedDiv build base) d

/-- An argument of printf, by its type. -/
inductive Arg where
  | int (value : Int32)
  | uint (value : UInt32)
  | ulong (value : Nat)
  | str (value : List UInt8)

/-- One conversion, which takes the arguments it needs. -/
def convert (build : Build) (mc : MemChan) (c : UInt8) (ap : List Arg) : Except Fault (MemChan × List Arg) :=
  if c = chr 'c' then
    match ap with
    | .int value :: ap => return (← mcPutc mc value.toUInt32.toUInt8, ap)
    | _ => .error .noArgument
  else if c = chr 'd' ∨ c = chr 'i' then
    match ap with
    | .int value :: ap => return (← mcSignedInt build mc value.toInt 10 false, ap)
    | _ => .error .noArgument
  else if c = chr 's' then
    match ap with
    | .str value :: ap => return (← mcPuts mc value, ap)
    | _ => .error .noArgument
  else if c = chr 'u' then
    match ap with
    | .uint value :: ap => return (← mcUnsignedInt mc value.toNat 10 false, ap)
    | _ => .error .noArgument
  else if c = chr 'x' then
    match ap with
    | .uint value :: ap => return (← mcUnsignedInt mc value.toNat 16 false, ap)
    | _ => .error .noArgument
  else if c = chr 'X' then
    match ap with
    | .ulong value :: ap => return (← mcUnsignedInt mc value 16 true, ap)
    | _ => .error .noArgument
  else return (← mcPutc mc c, ap)

def mcVprintf (build : Build) (mc : MemChan) : List UInt8 → List Arg → Except Fault MemChan
  | [], _ => .ok mc
  | c :: fmt, ap =>
    if c ≠ chr '%' then do
      let mc ← mcPutc mc c
      mcVprintf build mc fmt ap
    else match fmt with
      | [] => .ok mc
      | c :: fmt => do
        let (mc, ap) ← convert build mc c ap
        mcVprintf build mc fmt ap

/-- The loop of atoi, in an `int` of 32 bits. -/
def atoiDigits (total : Int) : List UInt8 → Except Fault Int
  | [] => .ok total
  | c :: s =>
    if isDigitChar c then do
      let total ← checked 32 .overflow (total * 10)
      let total ← checked 32 .overflow (total + (c.toNat - (chr '0').toNat))
      atoiDigits total s
    else .ok total

/-- atoi of lib/string.c. -/
def atoi (s : List UInt8) : Except Fault Int :=
  let s := s.dropWhile fun c => c = chr ' ' || c = chr '\t'
  if byteAt s 0 = chr '-' then do
    let total ← atoiDigits 0 s.tail
    checked 32 .overflow (-total)
  else if byteAt s 0 = chr '+' then atoiDigits 0 s.tail
  else atoiDigits 0 s

end Egos.Memchan
