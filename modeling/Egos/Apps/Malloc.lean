import Egos.Library.Memory
import Egos.Library.Program

/-! lib/malloc.c: the heap of a user process. Addresses are natural numbers; the fields of
a header are words in memory. The break is kept as in the unit test of the source. -/

namespace Egos.Malloc
open Library

def pageSize : Nat := 4096

/-- sizeof(struct m_hdr). -/
def headerSize : Nat := 16

/-- enum m_status. -/
@[match_pattern] abbrev MStatus.last : Nat := 0
@[match_pattern] abbrev MStatus.free : Nat := 1
@[match_pattern] abbrev MStatus.inUse : Nat := 2

structure Heap where
  memory : Memory
  base : Nat
  brk : Nat
  initialized : Bool

inductive Halt where
  /-- A store to an address that is never mapped, put into the code for debugging. -/
  | store (address : Nat)
  /-- The loop has not come to an end. -/
  | running

namespace Heap

def size (h : Heap) (mh : Nat) : Nat := h.memory.load32 mh
def prev (h : Heap) (mh : Nat) : Nat := h.memory.load32 (mh + 4)
def status (h : Heap) (mh : Nat) : Nat := h.memory.load32 (mh + 8)

def setSize (h : Heap) (mh value : Nat) : Heap := { h with memory := h.memory.store32 mh value }
def setPrev (h : Heap) (mh value : Nat) : Heap := { h with memory := h.memory.store32 (mh + 4) value }
def setStatus (h : Heap) (mh value : Nat) : Heap := { h with memory := h.memory.store32 (mh + 8) value }

def setHeader (h : Heap) (mh size prev status : Nat) : Heap :=
  h |>.setSize mh size |>.setPrev mh prev |>.setStatus mh status

/-- The header after the block of a header. -/
def after (h : Heap) (mh : Nat) : Nat := mh + headerSize + h.size mh

/-- The header before a header that is not the first. -/
def before (h : Heap) (mh : Nat) : Nat := mh - h.prev mh - headerSize

end Heap

/-- Clears the low four bits after adding 15. -/
def align (n : Nat) : Nat := (n + 15) / 16 * 16

/-- The first call makes one free block. `lastWord` is what end_get returns. -/
def setUp (lastWord : Nat) (h : Heap) : Heap :=
  let mh := align (lastWord + 4)
  let next := mh + pageSize
  { h with base := mh, brk := mh + headerSize + pageSize, initialized := true }
    |>.setHeader mh (pageSize - headerSize) 0 MStatus.free
    |>.setHeader next 0 (pageSize - headerSize) MStatus.last

/-- At the last header: where the new block starts. -/
def trailing (mh : Nat) (h : Heap) : Nat :=
  if mh ≠ h.base ∧ h.status (h.before mh) = MStatus.free then h.before mh else mh

/-- At the last header: allocates enough and a bit more at `mh`. -/
def grow (size mh : Nat) (h : Heap) : Heap :=
  let other := if mh = h.base then 0 else h.size (h.before mh)
  let h := { h with brk := mh + headerSize + size + pageSize }
    |>.setHeader mh (size + pageSize - headerSize) other MStatus.free
  h.setHeader (h.after mh) 0 (h.size mh) MStatus.last

/-- Takes the first part of a block; the rest becomes a free block. -/
def divide (size mh : Nat) (h : Heap) : Heap :=
  let next := h.after mh
  let other := mh + headerSize + size
  let h := h.setHeader other (h.size mh - size - headerSize) size MStatus.free
  h |>.setPrev next (h.size other) |>.setSize mh size |>.setStatus mh MStatus.inUse

/-- Takes a free block that fits exactly, or a part of one that also has room for a header. -/
def take (size mh : Nat) (h : Heap) : Option Heap :=
  if h.size mh = size then some (h.setStatus mh MStatus.inUse)
  else if size + headerSize ≤ h.size mh then some (divide size mh h)
  else none

/-- The loop of m_alloc. -/
def scan (size : Nat) : Nat → Nat → Prog Heap Halt Nat
  | 0, _, h => .halted .running h
  | fuel + 1, mh, h =>
    match h.status mh with
    | MStatus.last =>
      let mh := trailing mh h
      let h := grow size mh h
      match take size mh h with
      | some taken => .done (mh + headerSize) taken
      | none => scan size fuel (h.after mh) h
    | MStatus.free =>
      match take size mh h with
      | some taken => .done (mh + headerSize) taken
      | none => scan size fuel (h.after mh) h
    | MStatus.inUse => scan size fuel (h.after mh) h
    | _ => .halted (.store 3) h

def mAlloc (lastWord fuel : Nat) (size : Int) : Prog Heap Halt Nat := fun h =>
  if size ≤ 0 then .halted (.store 1) h
  else if 10000000 < size then .halted (.store 5) h
  else
    let h := if h.initialized then h else setUp lastWord h
    scan (align size.toNat) fuel h.base h

/-- m_free, first part: merges with the next block if that is free. Returns the header
after the block. -/
def joinNext (mh : Nat) (h : Heap) : Nat × Heap :=
  let next := h.after mh
  if h.status next = MStatus.free then
    let other := h.after next
    let h := h.setSize mh (h.size mh + (headerSize + h.size next))
    (other, h.setPrev other (h.size mh))
  else (next, h)

/-- m_free, second part: merges with the prior block if there is one and it is free. -/
def joinPrior (mh next : Nat) (h : Heap) : Heap :=
  if mh ≠ h.base ∧ h.status (h.before mh) = MStatus.free then
    let other := h.before mh
    let h := h.setSize other (h.size other + (h.size mh + headerSize))
    h.setPrev next (h.size other)
  else h.setStatus mh MStatus.free

def mFree (ptr : Nat) (h : Heap) : Heap :=
  if ptr = 0 then h
  else
    let mh := ptr - headerSize
    let joined := joinNext mh h
    joinPrior mh joined.1 joined.2

def mRealloc (lastWord fuel ptr : Nat) (size : Int) : Prog Heap Halt Nat := do
  let p ← mAlloc lastWord fuel size
  if ptr ≠ 0 then
    .modify fun h => { h with memory := h.memory.copyBytes (min size.toNat (h.size (ptr - headerSize))) p ptr }
    .modify (mFree ptr)
  pure p

/-- m_calloc. The product is a 32-bit integer. -/
def mCalloc (lastWord fuel : Nat) (nitems size : Int) : Prog Heap Halt Nat := do
  let size := (size * nitems).bmod (2 ^ 32)
  let p ← mAlloc lastWord fuel size
  .modify fun h => { h with memory := h.memory.fillBytes 0 size.toNat p }
  pure p

/-- What a process does with its memory. -/
inductive Event where
  | alloc (size : Int)
  | calloc (nitems size : Int)
  | realloc (ptr : Nat) (size : Int)
  | free (ptr : Nat)
  | store (address : Nat) (byte : UInt8)

/-- The heap and the live blocks: the pointers that a process may free, with the sizes it
asked for. -/
structure Session where
  heap : Heap
  live : List (Nat × Nat)

def InRange (size : Int) : Prop := 1 ≤ size ∧ size ≤ 10000000

namespace Session

def IsLive (s : Session) (ptr : Nat) : Prop := ∃ requested, (ptr, requested) ∈ s.live

def drop (s : Session) (ptr : Nat) : List (Nat × Nat) := s.live.filter (·.1 ≠ ptr)

/-- What a correct process does: it frees what is live, and it stores only into live
blocks and outside of the heap. -/
def Permits (s : Session) : Event → Prop
  | .alloc size => InRange size
  | .calloc nitems size => InRange ((size * nitems).bmod (2 ^ 32))
  | .realloc ptr size => InRange size ∧ (ptr = 0 ∨ s.IsLive ptr)
  | .free ptr => ptr = 0 ∨ s.IsLive ptr
  | .store address _ =>
    s.heap.initialized = false ∨ address < s.heap.base ∨ s.heap.brk ≤ address ∨
      ∃ x ∈ s.live, x.1 ≤ address ∧ address < x.1 + x.2

/-- The event takes place. A call takes place when it returns. -/
inductive Call (lastWord : Nat) (s : Session) : Event → Session → Prop where
  | alloc {size fuel p heap} : mAlloc lastWord fuel size s.heap = .done p heap →
      Call lastWord s (.alloc size) ⟨heap, (p, size.toNat) :: s.live⟩
  | calloc {nitems size fuel p heap} : mCalloc lastWord fuel nitems size s.heap = .done p heap →
      Call lastWord s (.calloc nitems size) ⟨heap, (p, ((size * nitems).bmod (2 ^ 32)).toNat) :: s.live⟩
  | realloc {ptr size fuel p heap} : mRealloc lastWord fuel ptr size s.heap = .done p heap →
      Call lastWord s (.realloc ptr size) ⟨heap, (p, size.toNat) :: s.drop ptr⟩
  | free {ptr} : Call lastWord s (.free ptr) ⟨mFree ptr s.heap, s.drop ptr⟩
  | store {address byte} :
      Call lastWord s (.store address byte) ⟨{ s.heap with memory := s.heap.memory.store8 address byte }, s.live⟩

/-- A step of a correct process after which the heap is still below 2^31 bytes. -/
structure Step (lastWord : Nat) (s : Session) (event : Event) (next : Session) : Prop where
  permits : s.Permits event
  call : s.Call lastWord event next
  below : next.heap.brk < next.heap.base + 2 ^ 31

/-- A process that has made no call. -/
def boot (memory : Memory) (base brk : Nat) : Session := ⟨⟨memory, base, brk, false⟩, []⟩

end Session

def Event.allocates : Event → Bool
  | .alloc _ | .calloc .. | .realloc .. => true
  | .free _ | .store .. => false

end Egos.Malloc
