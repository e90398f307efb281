import Egos.Library.Program
import Mathlib.Logic.Function.Basic
import Mathlib.Algebra.Group.Int.Defs

/-! The generic queue (p0/queue.c): a doubly linked list of items with its length. `ι` is the
type of the pointers to items, and an argument that may be NULL is an `Option`. -/

namespace Egos.P0
open Library

/-- Where a node is, as the number of the call of malloc that returned it. -/
abbrev Addr := Nat

/-- `queue_t`, and the memory that its nodes are in. What a node holds before it is written
is arbitrary. -/
structure Queue (ι : Type) where
  head : Option Addr
  tail : Option Addr
  length : Int
  prev : Addr → Option Addr
  next : Addr → Option Addr
  item : Addr → ι
  /-- The calls of malloc made so far. -/
  mallocs : Nat
  /-- The calls of malloc that fail. -/
  refuses : Nat → Bool

inductive Fault where
  | nullPointer
  /-- A pointer is followed that does not lead to an item. -/
  | wildPointer
  /-- An `int` is incremented past INT_MAX. -/
  | overflow
  /-- A loop follows links in a circle. -/
  | diverges
  deriving DecidableEq

def INT_MAX : Int := 2 ^ 31 - 1

abbrev Action (ι : Type) := Prog (Queue ι) Fault

variable {ι : Type}

def Queue.setHead (value : Option Addr) (queue : Queue ι) : Queue ι := { queue with head := value }
def Queue.setTail (value : Option Addr) (queue : Queue ι) : Queue ι := { queue with tail := value }
def Queue.setPrev (node : Addr) (value : Option Addr) (queue : Queue ι) : Queue ι :=
  { queue with prev := Function.update queue.prev node value }
def Queue.setNext (node : Addr) (value : Option Addr) (queue : Queue ι) : Queue ι :=
  { queue with next := Function.update queue.next node value }
def Queue.setItem (node : Addr) (value : ι) (queue : Queue ι) : Queue ι :=
  { queue with item := Function.update queue.item node value }
def Queue.setLength (value : Int) (queue : Queue ι) : Queue ι := { queue with length := value }

/-- The node behind a pointer that is followed. -/
def deref : Option Addr → Action ι Addr
  | some node => pure node
  | none => .halt .nullPointer

def malloc : Action ι (Option Addr) := do
  let queue ← .get
  .modify fun queue => { queue with mallocs := queue.mallocs + 1 }
  pure (if queue.refuses queue.mallocs then none else some queue.mallocs)

/-- `queue->length++` -/
def increment : Action ι Unit := do
  let queue ← .get
  if queue.length = INT_MAX then .halt .overflow else .modify (.setLength (queue.length + 1))

/-- The links between a new first node and the others. -/
def linkFirst (newNode : Addr) : Action ι Unit := do
  let queue ← .get
  if queue.length = 0 then do
    .modify (.setTail (some newNode))
    .modify (.setNext newNode none)
  else do
    let head ← deref queue.head
    .modify (.setPrev head (some newNode))
    .modify (.setNext newNode queue.head)

def queuePrepend (item : Option ι) : Action ι Int := do
  match item with
  | none => pure (-1)
  | some item =>
    match ← malloc with
    | none => pure (-1)
    | some newNode =>
      .modify (.setItem newNode item)
      linkFirst newNode
      .modify (.setHead (some newNode))
      .modify (.setPrev newNode none)
      increment
      pure 0

/-- The links between a new last node and the others. -/
def linkLast (newNode : Addr) : Action ι Unit := do
  let queue ← .get
  if queue.length = 0 then do
    .modify (.setHead (some newNode))
    .modify (.setPrev newNode none)
  else do
    let tail ← deref queue.tail
    .modify (.setNext tail (some newNode))
    .modify (.setPrev newNode queue.tail)

def queueAppend (item : Option ι) : Action ι Int := do
  match item with
  | none => pure (-1)
  | some item =>
    match ← malloc with
    | none => pure (-1)
    | some newNode =>
      .modify (.setItem newNode item)
      linkLast newNode
      .modify (.setTail (some newNode))
      .modify (.setNext newNode none)
      increment
      pure 0

/-- The first node, whose item is `*head`, leaves the list. -/
def unlinkFirst (head : Addr) : Action ι Unit := do
  let queue ← .get
  if queue.length = 1 then do
    .modify (.setHead none)
    .modify (.setTail none)
  else do
    .modify (.setHead (queue.next head))
    let second ← deref (queue.next head)
    .modify (.setPrev second none)

/-- The status, and what is stored through the second argument. -/
def queueDequeue : Action ι (Int × Option ι) := do
  let queue ← .get
  if queue.length = 0 then pure (-1, none)
  else do
    let head ← deref queue.head
    unlinkFirst head
    .modify fun queue => queue.setLength (queue.length - 1)
    pure (0, some (queue.item head))

/-- The nodes that the loop of queue_iterate calls its function with. A loop that passes more
nodes than there are never ends. -/
def iterateFrom : Nat → Option Addr → Action ι (List Addr)
  | 0, _ => .halt .diverges
  | _ + 1, none => pure []
  | fuel + 1, some cur => do
    let queue ← .get
    let rest ← iterateFrom fuel (queue.next cur)
    pure (cur :: rest)

def queueIterate : Action ι (List Addr) := do
  let queue ← .get
  iterateFrom (queue.mallocs + 1) queue.head

def queueLength : Action ι Int := do
  let queue ← .get
  pure queue.length

section Delete
variable [DecidableEq ι]

/-- The first node from a pointer on that holds an item. -/
def search (item : ι) : Nat → Option Addr → Action ι (Option Addr)
  | 0, _ => .halt .diverges
  | _ + 1, none => pure none
  | fuel + 1, some q => do
    let queue ← .get
    if queue.item q ≠ item then search item fuel (queue.next q) else pure (some q)

/-- A node that has neighbours leaves the list. -/
def unlink (q : Addr) : Action ι Unit := do
  let queue ← .get
  match queue.prev q, queue.next q with
  | some prev, some next => do
    .modify (.setNext prev (some next))
    .modify (.setPrev next (some prev))
  | none, some next => do
    .modify (.setHead (some next))
    .modify (.setPrev next none)
  | some prev, none => do
    .modify (.setTail (some prev))
    .modify (.setNext prev none)
  | none, none => pure ()

/-- The `data` behind an item is printed, whether the item is found or not; `readable` are the
pointers to a `struct item`. -/
def queueDelete (readable : ι → Bool) (item : Option ι) : Action ι Int := do
  match item with
  | none => pure (-1)
  | some item =>
    let queue ← .get
    if queue.length = 0 then pure (-1)
    else if readable item then
      match ← search item (queue.mallocs + 1) queue.head with
      | none => pure (-1)
      | some q =>
        unlink q
        pure 0
    else .halt .wildPointer

end Delete

/-- `queue_new`, in a memory where no allocation fails. -/
def queueNew (prev next : Addr → Option Addr) (item : Addr → ι) : Queue ι :=
  { head := none, tail := none, length := 0, prev, next, item, mallocs := 0, refuses := fun _ => false }

inductive Call (ι : Type) where
  | prepend (item : ι)
  | append (item : ι)
  | dequeue
  | delete (item : ι)
  | iterate
  | length

/-- What a call returns or stores, and the items that queue_iterate passes. -/
inductive Reply (ι : Type) where
  | status (value : Int)
  | dequeued (status : Int) (item : Option ι)
  | visited (items : List ι)
  deriving DecidableEq

def exec [DecidableEq ι] (readable : ι → Bool) : Call ι → Action ι (Reply ι)
  | .prepend item => return .status (← queuePrepend (some item))
  | .append item => return .status (← queueAppend (some item))
  | .dequeue => do
    let (status, item) ← queueDequeue
    pure (.dequeued status item)
  | .delete item => return .status (← queueDelete readable (some item))
  | .iterate => do
    let nodes ← queueIterate
    let queue ← .get
    pure (.visited (nodes.map queue.item))
  | .length => return .status (← queueLength)

/-- What a queue is for: the list it stands for after a call, and the answer of the call. -/
def apply [DecidableEq ι] (items : List ι) : Call ι → List ι × Reply ι
  | .prepend item => (item :: items, .status 0)
  | .append item => (items ++ [item], .status 0)
  | .dequeue =>
    match items with
    | [] => ([], .dequeued (-1) none)
    | first :: rest => (rest, .dequeued 0 (some first))
  | .delete item => if item ∈ items then (items.erase item, .status 0) else (items, .status (-1))
  | .iterate => (items, .visited items)
  | .length => (items, .status items.length)

end Egos.P0
