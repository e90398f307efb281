/-! Parts of lib/string.c and lib/ctype.c. A buffer is the list of its bytes, and behind
its end stands the terminating zero. -/

namespace Egos.Strings

def chr (c : Char) : UInt8 := UInt8.ofNat c.toNat

def text (s : String) : List UInt8 := s.toList.map chr

def newline : UInt8 := chr '\n'

/-- `buf[pos]` -/
def byteAt (buf : List UInt8) (pos : Nat) : UInt8 := buf.getD pos 0

/-- The string that starts at a position. -/
def str (buf : List UInt8) (pos : Nat) : List UInt8 := (buf.drop pos).takeWhile (· ≠ 0)

/-- What is left to decide once one of the strings has ended. -/
def ended (c1 c2 : UInt8) : Int :=
  if c1 = 0 ∧ c2 = 0 then 0 else if c1 = 0 then -1 else 1

def strcmp : List UInt8 → List UInt8 → Int
  | [], s2 => ended 0 (byteAt s2 0)
  | c1 :: s1, s2 =>
    let c2 := byteAt s2 0
    if c1 ≠ 0 ∧ c2 ≠ 0 then
      if c1 ≠ c2 then (c1.toNat : Int) - c2.toNat else strcmp s1 s2.tail
    else ended c1 c2

def strncmp (s1 s2 : List UInt8) : Nat → Int
  | 0 => 0
  | n + 1 =>
    let c1 := byteAt s1 0
    let c2 := byteAt s2 0
    if c1 = 0 ∧ c2 = 0 then 0
    else if c1 = 0 then 1
    else if c2 = 0 then -1
    else if c1 < c2 then -1
    else if c1 > c2 then 1
    else strncmp s1.tail s2.tail n

def isDigitChar (c : UInt8) : Bool := chr '0' ≤ c && c ≤ chr '9'

/-- The digits of a number, in an `int`. -/
def digits (total : Int32) : List UInt8 → Int32
  | [] => total
  | c :: s => if isDigitChar c then digits (total * 10 + (c - chr '0').toUInt32.toInt32) s else total

def atoi (s : List UInt8) : Int32 :=
  match s.dropWhile fun c => c = chr ' ' || c = chr '\t' with
  | [] => 0
  | c :: rest =>
    if c = chr '-' then -digits 0 rest
    else if c = chr '+' then digits 0 rest
    else digits 0 (c :: rest)

def CTYPE_IS_PUNCT : UInt16 := (1 : UInt16) <<< 0
def CTYPE_IS_LOWER : UInt16 := (1 : UInt16) <<< 1
def CTYPE_IS_UPPER : UInt16 := (1 : UInt16) <<< 2
def CTYPE_IS_DIGIT : UInt16 := (1 : UInt16) <<< 3
def CTYPE_IS_XDIGIT : UInt16 := (1 : UInt16) <<< 4
def CTYPE_IS_BLANK : UInt16 := (1 : UInt16) <<< 5
def CTYPE_IS_SPACE : UInt16 := (1 : UInt16) <<< 6
def CTYPE_IS_CNTRL : UInt16 := (1 : UInt16) <<< 7
def CTYPE_32 : UInt16 := (1 : UInt16) <<< 8

/-- The table starts at -1, which is EOF; all entries from 128 on are zero. -/
def ctypeType : List UInt16 :=
  CTYPE_IS_CNTRL :: List.replicate 9 CTYPE_IS_CNTRL ++
  [CTYPE_IS_CNTRL ||| CTYPE_IS_SPACE ||| CTYPE_IS_BLANK, CTYPE_IS_CNTRL ||| CTYPE_IS_SPACE,
    CTYPE_IS_CNTRL ||| CTYPE_IS_SPACE,
    CTYPE_IS_CNTRL ||| CTYPE_IS_SPACE, CTYPE_IS_SPACE] ++
  List.replicate 18 CTYPE_IS_CNTRL ++ [CTYPE_IS_SPACE ||| CTYPE_IS_BLANK ||| CTYPE_32] ++
    List.replicate 15 CTYPE_IS_PUNCT ++
  List.replicate 10 (CTYPE_IS_DIGIT ||| CTYPE_IS_XDIGIT) ++ List.replicate 7 CTYPE_IS_PUNCT ++
  List.replicate 6 (CTYPE_IS_UPPER ||| CTYPE_IS_XDIGIT) ++ List.replicate 20 CTYPE_IS_UPPER ++
    List.replicate 6 CTYPE_IS_PUNCT ++
  List.replicate 6 (CTYPE_IS_LOWER ||| CTYPE_IS_XDIGIT) ++ List.replicate 20 CTYPE_IS_LOWER ++
    List.replicate 4 CTYPE_IS_PUNCT ++
  [CTYPE_IS_CNTRL] ++ List.replicate 128 0

def hasType (mask : UInt16) (c : UInt8) : Bool := ctypeType.getD (c.toNat + 1) 0 &&& mask ≠ 0

def isblank : UInt8 → Bool := hasType CTYPE_IS_BLANK

def isdigit : UInt8 → Bool := hasType CTYPE_IS_DIGIT

def isspace : UInt8 → Bool := hasType CTYPE_IS_SPACE

def islower : UInt8 → Bool := hasType CTYPE_IS_LOWER

def isupper : UInt8 → Bool := hasType CTYPE_IS_UPPER

def isalnum : UInt8 → Bool := hasType (CTYPE_IS_LOWER ||| CTYPE_IS_UPPER ||| CTYPE_IS_DIGIT)

end Egos.Strings
