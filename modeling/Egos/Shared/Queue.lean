import Egos.Library.Places
import Egos.Library.Program
import Mathlib.Data.UInt

/-! The queue of the kernel (shared/queue.c): cells from the first one to the last, and a
pointer to the link behind the last. That link is in the last cell or in the queue itself. -/

namespace Egos.Shared
open Library

/-- The address of a `struct element`. -/
abbrev Cell := Nat

/-- A `void *`; an `address_t` has as many bits. -/
abbrev Item := UInt64

structure Element where
  next : Option Cell
  item : Item

/-- `struct queue`, without the field that no function uses, and the allocated cells. -/
structure Queue where
  first : Option Cell
  last : Place Cell
  heap : Cell → Option Element

inductive Fault where
  /-- Memory is accessed that is not allocated. -/
  | wild

abbrev Action := Prog Queue Fault

namespace Queue

def links (q : Queue) : Links Cell := { head := q.first, next := fun e => (q.heap e).bind Element.next }

def item (q : Queue) (e : Cell) : Option Item := (q.heap e).map Element.item

def allocated (q : Queue) : Place Cell → Bool
  | .head => true
  | .after e => (q.heap e).isSome

/-- `*place = value` -/
def put (q : Queue) (place : Place Cell) (value : Option Cell) : Queue :=
  match place with
  | .head => { q with first := value }
  | .after e => { q with heap := Function.update q.heap e ((q.heap e).map fun element => { element with next := value }) }

end Queue

def store (place : Place Cell) (value : Option Cell) : Action Unit := do
  let q ← .get
  if q.allocated place then .modify (·.put place value) else .halt .wild

def load (e : Cell) : Action Element := do
  let q ← .get
  match q.heap e with
  | some element => pure element
  | none => .halt .wild

/-- `q->last = place` -/
def setLast (place : Place Cell) : Action Unit := .modify fun q => { q with last := place }

/-- An allocation that returns `e`, filled with zeros, and `e->item = item`. -/
def newElement (e : Cell) (item : Item) : Action Unit :=
  .modify fun q => { q with heap := Function.update q.heap e (some { next := none, item }) }

def free (e : Cell) : Action Unit := .modify fun q => { q with heap := Function.update q.heap e none }

def queueInit : Action Unit := do
  store .head none
  setLast .head

/-- In an empty queue a first cell is the last one too. -/
def aimLast (e : Cell) : Action Unit := do
  let q ← .get
  if q.first = none then setLast (.after e) else pure ()

def queueInsert (e : Cell) (item : Item) : Action Unit := do
  newElement e item
  aimLast e
  let q ← .get
  store (.after e) q.first
  store .head (some e)

def queueAppend (e : Cell) (item : Item) : Action Unit := do
  newElement e item
  store (.after e) none
  let q ← .get
  store q.last (some e)
  setLast (.after e)

/-- In the kernel this is a macro. -/
def queueAdd (e : Cell) (item : Item) : Action Unit := queueAppend e item

def queueAddUint (e : Cell) (item : UInt32) : Action Unit := queueAppend e item.toUInt64

/-- The first cell is no longer in the queue. -/
def advance (next : Option Cell) : Action Unit := do
  store .head next
  if next = none then setLast .head else pure ()

/-- The part that queue_get and queue_tget have in common. -/
def takeFirst : Action (Option Item) := do
  let q ← .get
  match q.first with
  | none => pure none
  | some e =>
    let element ← load e
    advance element.next
    let element ← load e
    free e
    pure (some element.item)

/-- A null pointer tells that there is nothing. -/
def queueGet : Action Item := return (← takeFirst).getD 0

def queueTget : Action (Option Item) := takeFirst

def queueGetUint : Action (Option UInt32) := return (← queueTget).map UInt64.toUInt32

def queueEmpty : Action Bool := return (← .get).first = none

inductive Call where
  | insert (item : Item)
  | add (item : Item)
  | addUint (item : UInt32)
  | get
  | tget
  | getUint
  | empty

/-- What a call returns. -/
inductive Reply where
  | none
  | pointer (item : Item)
  | item (item : Option Item)
  | uint (item : Option UInt32)
  | flag (value : Bool)
  deriving DecidableEq

/-- A call that allocates gets the cell `e`. -/
def Call.perform (e : Cell) : Call → Action Reply
  | insert item => do queueInsert e item; pure .none
  | add item => do queueAdd e item; pure .none
  | addUint item => do queueAddUint e item; pure .none
  | get => return .pointer (← queueGet)
  | tget => return .item (← queueTget)
  | getUint => return .uint (← queueGetUint)
  | empty => return .flag (← queueEmpty)

/-- What a queue is for: the items it holds after a call, and the answer of the call. -/
def Call.apply (items : List Item) : Call → List Item × Reply
  | insert item => (item :: items, .none)
  | add item => (items ++ [item], .none)
  | addUint item => (items ++ [item.toUInt64], .none)
  | get => (items.tail, .pointer (items.head?.getD 0))
  | tget => (items.tail, .item items.head?)
  | getUint => (items.tail, .uint (items.head?.map UInt64.toUInt32))
  | empty => (items, .flag items.isEmpty)

/-- A call that is made and returns. -/
structure Label where
  call : Call
  cell : Cell
  reply : Reply

/-- The allocator returns memory that is not in use. -/
inductive Step : Queue → Label → Queue → Prop where
  | call {q after label} (fresh : q.heap label.cell = none)
      (ran : label.call.perform label.cell q = .done label.reply after) :
      Step q label after

end Egos.Shared
