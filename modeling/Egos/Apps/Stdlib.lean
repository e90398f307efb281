import Egos.Apps.Strings
import Egos.Library.Signed

/-! strtol of lib/stdlib.c. A string is the list of the characters before its terminating
zero, and the pointer that is stored in `*endptr` is the rest of it. -/

namespace Egos.Stdlib
open Library Strings

inductive Build where
  | x86_32
  | x86_64
  deriving DecidableEq

/-- The size of a `long`. -/
def Build.longBits : Build → Nat
  | x86_32 => 32
  | x86_64 => 64

inductive Fault where
  | overflow
  /-- The loop has not come to an end. -/
  | running
  deriving DecidableEq

/-- What a character adds to the number. -/
def charValue (c : UInt8) : Int :=
  if isdigit c then (c.toNat : Int) - (chr '0').toNat
  else if islower c then (c.toNat : Int) - (chr 'a').toNat
  else if isupper c then (c.toNat : Int) - (chr 'A').toNat
  else 0

/-- The loop over the digits. It does not advance `str`. -/
def digitLoop (build : Build) (base : Nat) (str : List UInt8) : Nat → Int → Except Fault (Int × List UInt8)
  | 0, _ => .error .running
  | fuel + 1, n =>
    if isalnum (byteAt str 0) then do
      let n ← checked build.longBits .overflow (n * base)
      let n ← checked build.longBits .overflow (n + charValue (byteAt str 0))
      digitLoop build base str fuel n
    else .ok (n, str)

/-- The sign, and what follows it. -/
def takeSign (str : List UInt8) : Int × List UInt8 :=
  if byteAt str 0 = chr '+' then (1, str.tail)
  else if byteAt str 0 = chr '-' then (-1, str.tail)
  else (1, str)

def strtol (build : Build) (fuel : Nat) (str : List UInt8) (base : Nat) : Except Fault (Int × List UInt8) := do
  let (sign, str) := takeSign (str.dropWhile isspace)
  let (n, str) ← digitLoop build base (str.dropWhile isspace) fuel 0
  let value ← checked build.longBits .overflow (sign * n)
  pure (value, str)

end Egos.Stdlib
