import Egos.Library.Places
import Egos.Library.Program
import Mathlib.Data.UInt

/-! The wrapper around malloc that keeps a list of all allocated memory (earth/myalloc.c), on
x86_64. An area is named by the address of its header; the file and line of an allocation,
which are only printed, are left out. -/

namespace Egos.Myalloc
open Library

/-- The address of a `struct my_header`. -/
abbrev Addr := Nat

/-- A `size_t`. -/
abbrev Size := UInt64

def MAGIC_ALLOC : UInt32 := 0x12345678

def MAGIC_FREE : UInt32 := 0x87654321

def MAGIC_TAIL : List UInt8 := [48, 49, 50, 51, 52, 53, 54, 55, 56, 57, 65, 66, 67, 68, 69, 70]

/-- sizeof(struct my_header): two integers and six pointers or sizes, each aligned to 8 bytes. -/
def headerSize : Nat := 64

/-- A `struct my_header`; `data` is what follows it in the block of malloc. -/
structure Chunk where
  magic : UInt32
  next : Option Addr
  back : Place Addr
  size : Size
  freeFile : Option String
  freeLine : Int
  data : List UInt8

structure Store where
  myList : Option Addr
  heap : Addr → Option Chunk

inductive Fault where
  | assertion (function condition : String)
  /-- Memory is accessed that does not belong to a block. -/
  | wild
  /-- A loop has not come to an end. -/
  | running

abbrev Action := Prog Store Fault

namespace Store

def links (s : Store) : Links Addr := { head := s.myList, next := fun mh => (s.heap mh).bind Chunk.next }

def back (s : Store) (mh : Addr) : Option (Place Addr) := (s.heap mh).map Chunk.back

/-- The bytes of an area and of what is behind it. -/
def data (s : Store) (mh : Addr) : Option (List UInt8) := (s.heap mh).map Chunk.data

def put (s : Store) (mh : Addr) (chunk : Option Chunk) : Store := { s with heap := Function.update s.heap mh chunk }

def edit (s : Store) (mh : Addr) (change : Chunk → Chunk) : Store := s.put mh ((s.heap mh).map change)

end Store

def ensure (condition : Bool) (function text : String) : Action Unit :=
  if condition then pure () else .halt (.assertion function text)

def header (mh : Addr) : Action Chunk := do
  let s ← .get
  match s.heap mh with
  | some chunk => pure chunk
  | none => .halt .wild

def setHeader (mh : Addr) (change : Chunk → Chunk) : Action Unit := do
  let _ ← header mh
  .modify (·.edit mh change)

/-- `*place = value` -/
def setLink (place : Place Addr) (value : Option Addr) : Action Unit :=
  match place with
  | .head => .modify fun s => { s with myList := value }
  | .after mh => setHeader mh fun chunk => { chunk with next := value }

/-- `if (ptr != 0) ptr->back = place` -/
def setBack (ptr : Option Addr) (place : Place Addr) : Action Unit :=
  match ptr with
  | some mh => setHeader mh fun chunk => { chunk with back := place }
  | none => pure ()

/-- The bytes that start at an offset in an area. -/
def bytesAt (mh : Addr) (offset count : Nat) : Action (List UInt8) := do
  let chunk ← header mh
  if offset + count ≤ chunk.data.length then pure ((chunk.data.drop offset).take count) else .halt .wild

def overwrite (data : List UInt8) (offset : Nat) (bytes : List UInt8) : List UInt8 :=
  data.take offset ++ bytes ++ data.drop (offset + bytes.length)

def writeAt (mh : Addr) (offset : Nat) (bytes : List UInt8) : Action Unit := do
  let chunk ← header mh
  if offset + bytes.length ≤ chunk.data.length then
    setHeader mh fun chunk => { chunk with data := overwrite chunk.data offset bytes }
  else .halt .wild

/-- `memcmp(tail, MAGIC_TAIL, 16) == 0` -/
def ensureTail (mh : Addr) (size : Size) (function : String) : Action Unit := do
  let tail ← bytesAt mh size.toNat 16
  ensure (tail = MAGIC_TAIL) function "memcmp(tail, MAGIC_TAIL, 16) == 0"

/-- The loop of my_check, from a link on. -/
def checkFrom : Nat → Place Addr → Action Unit
  | 0, _ => .halt .running
  | fuel + 1, pmh => do
    let s ← .get
    match s.links.get pmh with
    | none => pure ()
    | some mh =>
      let chunk ← header mh
      ensure (chunk.magic = MAGIC_ALLOC) "my_check" "mh->magic == MAGIC_ALLOC"
      ensure (chunk.freeFile = none) "my_check" "mh->free_file == 0"
      ensure (chunk.freeLine = 0) "my_check" "mh->free_line == 0"
      ensure (chunk.back = pmh) "my_check" "mh->back == pmh"
      ensureTail mh chunk.size "my_check"
      checkFrom fuel (.after mh)

def myCheck (fuel : Nat) : Action Unit := checkFrom fuel .head

/-- What malloc returns: an address and the bytes there. -/
structure Block where
  addr : Addr
  bytes : List UInt8

/-- How much do_alloc asks malloc for. -/
def blockSize (total : Size) : Size := .ofNat headerSize + total + 16

/-- The new header is the first one of the list. -/
def linkFirst (mh : Addr) : Action Unit := do
  let s ← .get
  setLink (.after mh) s.myList
  setBack s.myList (.after mh)
  setBack (some mh) .head
  setLink .head (some mh)

/-- The links of a new header are set after the other fields. -/
def newChunk (total : Size) (bytes : List UInt8) : Chunk :=
  { magic := MAGIC_ALLOC, next := none, back := .head, size := total, freeFile := none, freeLine := 0,
    data := bytes.drop headerSize }

def doAlloc (block : Block) (total : Size) : Action Unit := do
  if block.bytes.length < headerSize then .halt .wild
  else
    .modify (·.put block.addr (some (newChunk total block.bytes)))
    linkFirst block.addr
    writeAt block.addr total.toNat MAGIC_TAIL

def myAlloc (block : Block) (count size : Size) (clr : Bool) : Action Unit := do
  let total := count * size
  doAlloc block total
  if clr then writeAt block.addr 0 (List.replicate total.toNat 0) else pure ()

def myAllocExt (block : Block) (size ext : Size) : Action Unit := do
  let total := size + ext
  doAlloc block total
  writeAt block.addr 0 (List.replicate size.toNat 0)

/-- The header is taken off the list. -/
def unlink (mh : Addr) : Action Unit := do
  let chunk ← header mh
  setLink chunk.back chunk.next
  let chunk ← header mh
  setBack chunk.next chunk.back

/-- The loop that writes junk over the area and its tail. The counter has 32 bits and the
limit 64; without a result the loop has left the block. -/
def junk (limit : Size) : UInt32 → List UInt8 → Option (List UInt8)
  | i, [] => if i.toUInt64 < limit then none else some []
  | i, byte :: rest => if i.toUInt64 < limit then (junk limit (i + 1) rest).map (i.toUInt8 :: ·)
      else some (byte :: rest)

def scribble (mh : Addr) : Action Unit := do
  let chunk ← header mh
  match junk (chunk.size + 16) 0 chunk.data with
  | some data => setHeader mh fun chunk => { chunk with data }
  | none => .halt .wild

def myFree (ptr : Option Addr) (file : String) (line : Int) : Action Unit :=
  match ptr with
  | none => pure ()
  | some mh => do
    let chunk ← header mh
    ensure (chunk.magic = MAGIC_ALLOC) "my_free" "mh->magic == MAGIC_ALLOC"
    ensureTail mh chunk.size "my_free"
    unlink mh
    setHeader mh fun chunk => { chunk with magic := MAGIC_FREE, freeFile := some file, freeLine := line }
    scribble mh
    .modify (·.put mh none)

def myRealloc (block : Block) (ptr : Option Addr) (size : Size) (file : String) (line : Int) : Action Unit :=
  match ptr with
  | none => myAlloc block 1 size false
  | some mh => do
    let chunk ← header mh
    ensure (chunk.magic = MAGIC_ALLOC) "my_realloc" "mh->magic == MAGIC_ALLOC"
    doAlloc block size
    let chunk ← header mh
    let total := if chunk.size > size then size else chunk.size
    let bytes ← bytesAt mh 0 total.toNat
    writeAt block.addr 0 bytes
    myFree (some mh) file line

/-- A call of the wrapper, or a caller that writes into an area of its own. -/
inductive Call where
  | alloc (count size : Size) (clr : Bool)
  | allocExt (size ext : Size)
  | realloc (ptr : Option Addr) (size : Size) (file : String) (line : Int)
  | free (ptr : Option Addr) (file : String) (line : Int)
  | write (ptr : Addr) (offset : Nat) (bytes : List UInt8)

namespace Call

def perform (block : Block) : Call → Action Unit
  | alloc count size clr => myAlloc block count size clr
  | allocExt size ext => myAllocExt block size ext
  | realloc ptr size file line => myRealloc block ptr size file line
  | free ptr file line => myFree ptr file line
  | write ptr offset bytes => writeAt ptr offset bytes

/-- How much a call allocates, as computed by the code and as a number. -/
def allocates : Call → Option (Size × Nat)
  | alloc count size _ => some (count * size, count.toNat * size.toNat)
  | allocExt size ext => some (size + ext, size.toNat + ext.toNat)
  | realloc _ size _ _ => some (size, size.toNat)
  | free .. | write .. => none

def releases : Call → Option Addr
  | realloc ptr _ _ _ | free ptr _ _ => ptr
  | alloc .. | allocExt .. | write .. => none

end Call

/-- The memory, and the size that each live area was asked for with. -/
structure System where
  store : Store
  live : Addr → Option Nat

/-- Callers pass live pointers and write inside their areas, and malloc returns a block of
the size it was asked for that is not in use. -/
structure Legal (s : System) (block : Block) (call : Call) : Prop where
  block : ∀ total asked, call.allocates = some (total, asked) → s.store.heap block.addr = none ∧
    block.bytes.length = (blockSize total).toNat
  pointer : ∀ mh, call.releases = some mh → s.live mh ≠ none
  inside : ∀ mh offset bytes, call = .write mh offset bytes → ∃ asked, s.live mh = some asked ∧
    offset + bytes.length ≤ asked

/-- The live areas after a call. -/
def System.lives (s : System) (block : Block) (call : Call) : Addr → Option Nat :=
  let kept := match call.releases with
    | some mh => Function.update s.live mh none
    | none => s.live
  match call.allocates with
  | some (_, asked) => Function.update kept block.addr (some asked)
  | none => kept

/-- The block is what malloc returns, if the call asks for one. -/
structure Label where
  call : Call
  block : Block

inductive Step : System → Label → System → Prop where
  | call {s label after} (legal : Legal s label.block label.call)
      (ran : label.call.perform label.block s.store = .done () after) :
      Step s label { store := after, live := s.lives label.block label.call }

/-- No memory has been allocated. -/
def started : System := { store := { myList := none, heap := fun _ => none }, live := fun _ => none }

end Egos.Myalloc
