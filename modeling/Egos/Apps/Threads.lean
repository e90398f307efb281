import Egos.Library.Program
import Mathlib.Data.UInt
import Mathlib.Logic.Function.Basic

/-! apps/mt.c: threads and semaphores in user space. A thread is named by the number it
was created with; the memory of an exited thread is not used for another one. -/

namespace Egos.Threads
open Library

abbrev ThreadId := Nat

/-- The state of a thread. -/
inductive Status where
  | ready
  | running
  | stopped
  | terminated
  | blocked
  /-- What malloc left in the first thread, if that is none of the other values. -/
  | garbage
  deriving DecidableEq

inductive Call (ι : Type) where
  | threadYield
  | threadCreate
  | semaInc (sema : ι)
  | semaDec (sema : ι)
  | exit
  deriving DecidableEq

/-- Where the saved stack pointer of a thread leads. -/
inductive Context (ι : Type) where
  /-- A stack that was never used. -/
  | top
  /-- The thread gave up the CPU in a call. -/
  | inside (call : Call ι)

structure Thread (ι : Type) where
  base : Context ι
  state : Status

structure Sema where
  count : UInt32
  queueWait : List ThreadId

/-- The monitor, the threads and the semaphores. `created` is the counter `id`. -/
structure State (ι : Type) where
  thread : ThreadId → Thread ι
  current : ThreadId
  next : ThreadId
  ready : List ThreadId
  exited : List ThreadId
  created : Nat
  sema : ι → Sema

inductive Halt where
  | sysExit (code : UInt32)
  /-- A thread came back from thread_exit: there is nothing to return to. -/
  | wild

abbrev Package (ι : Type) := Prog (State ι) Halt

/-- What the thread that has the CPU does after a call. -/
inductive Control (ι : Type) where
  /-- It returns from this call of its own. -/
  | returns (call : Call ι)
  /-- It enters its function. -/
  | enters
  deriving DecidableEq

variable {ι : Type}

namespace State

def setState (s : State ι) (t : ThreadId) (state : Status) : State ι :=
  { s with thread := Function.update s.thread t { s.thread t with state } }

def setBase (s : State ι) (t : ThreadId) (base : Context ι) : State ι :=
  { s with thread := Function.update s.thread t { s.thread t with base } }

def queueAdd (s : State ι) (t : ThreadId) : State ι := { s with ready := s.ready ++ [t] }

end State

def runnable (state : Status) : Bool := decide (state ≠ .blocked ∧ state ≠ .terminated)

/-- The part of ctx_entry before the function of the thread. -/
def ctxEntry : Package ι (Control ι) := do
  .modify fun s => s.setState s.current .stopped
  .modify fun s => s.queueAdd s.current
  .modify fun s => { s with current := s.next }
  .modify fun s => s.setState s.current .running
  pure .enters

/-- Leaves `old` in the call it has made, for the new stack of the next thread. -/
def ctxStart (call : Call ι) (old : ThreadId) : Package ι (Control ι) := do
  .modify (·.setBase old (.inside call))
  ctxEntry

/-- Leaves `old` in the call it has made, for the saved stack of another thread. -/
def ctxSwitch (call : Call ι) (old next : ThreadId) : Package ι (Control ι) := do
  .modify (·.setBase old (.inside call))
  let s ← .get
  match (s.thread next).base with
  | .inside saved => pure (.returns saved)
  | .top => .halt .wild

def findRunnable : Package ι ThreadId := do
  let s ← .get
  match s.ready with
  | [] =>
    match runnable (s.thread s.current).state with
    | true => pure s.current
    | false => .halt (.sysExit 1)
  | t :: rest =>
    .modify fun s => { s with ready := rest }
    pure t

/-- `call` is the call that asks for another thread. -/
def threadSchedule (call : Call ι) : Package ι (Control ι) := do
  let start ← .get
  let old := start.current
  let next ← findRunnable
  .modify fun s => { s with next }
  let s ← .get
  match decide (old = next) with
  | true => pure (.returns call)
  | false =>
    match (s.thread next).state with
    | .ready => ctxStart call old
    | .stopped =>
      match runnable (s.thread old).state with
      | true =>
        .modify (·.setState old .stopped)
        .modify (·.queueAdd old)
      | false => pure ()
      .modify (·.setState next .running)
      .modify fun s => { s with current := next }
      ctxSwitch call old next
    | _ => pure (.returns call)

def threadCreate : Package ι (Control ι) := do
  .modify fun s => { s with created := s.created + 1 }
  .modify fun s => { s with thread := Function.update s.thread s.created { base := .top, state := .ready } }
  .modify fun s => s.queueAdd s.created
  threadSchedule .threadCreate

/-- thread_yield, called for itself or by another call. -/
def threadYield (call : Call ι) : Package ι (Control ι) := do
  let s ← .get
  match s.ready with
  | [] =>
    match runnable (s.thread s.current).state with
    | true => pure (.returns call)
    | false => .halt (.sysExit 1)
  | _ :: _ =>
    match runnable (s.thread s.current).state with
    | true => .modify fun s => { s with exited := [] }
    | false => pure ()
    threadSchedule call

def threadExit : Package ι (Control ι) := do
  .modify fun s => s.setState s.current .terminated
  .modify fun s => { s with exited := s.exited ++ [s.current] }
  threadYield .exit

section Semaphores
variable [DecidableEq ι]

def State.setSema (s : State ι) (sema : ι) (value : Sema) : State ι :=
  { s with sema := Function.update s.sema sema value }

def semaDec (sema : ι) : Package ι (Control ι) := do
  let s ← .get
  match decide ((s.sema sema).count = 0) with
  | true =>
    .modify fun s => s.setState s.current .blocked
    .modify fun s => s.setSema sema { s.sema sema with queueWait := (s.sema sema).queueWait ++ [s.current] }
    threadYield (.semaDec sema)
  | false =>
    .modify fun s => s.setSema sema { s.sema sema with count := (s.sema sema).count - 1 }
    pure (.returns (.semaDec sema))

def semaInc (sema : ι) : Package ι (Control ι) := do
  let s ← .get
  match (s.sema sema).queueWait with
  | t :: rest =>
    .modify fun s => s.setSema sema { s.sema sema with queueWait := rest }
    .modify (·.setState t .stopped)
    .modify (·.queueAdd t)
  | [] => .modify fun s => s.setSema sema { s.sema sema with count := (s.sema sema).count + 1 }
  pure (.returns (.semaInc sema))

def perform : Call ι → Package ι (Control ι)
  | .threadYield => threadYield .threadYield
  | .threadCreate => threadCreate
  | .semaInc sema => semaInc sema
  | .semaDec sema => semaDec sema
  | .exit => threadExit

/-- The package after thread_init and the calls of sema_init. The state of the first
thread is not initialised. -/
def boot (count : ι → UInt32) (state : Status) : State ι where
  thread _ := { base := .top, state }
  current := 0
  next := 0
  ready := []
  exited := []
  created := 0
  sema x := { count := count x, queueWait := [] }

/-- The thread that has the CPU makes a call, and afterwards a thread goes on. -/
structure Turn (ι : Type) where
  thread : ThreadId
  call : Call ι
  control : Control ι

/-- The state after a turn. A thread that comes back from thread_exit makes no turn. -/
def State.turn (before : State ι) (turn : Turn ι) : Option (State ι) :=
  match perform turn.call before with
  | .done control after =>
    if before.current = turn.thread ∧ control = turn.control ∧ control ≠ .returns .exit then some after else none
  | .halted _ _ => none

def Step (before : State ι) (turn : Turn ι) (after : State ι) : Prop := before.turn turn = some after

/-- How many calls of sema_dec have returned. -/
def returned (sema : ι) (turns : List (Turn ι)) : Nat := turns.countP (·.control = .returns (.semaDec sema))

/-- How many calls of sema_inc have been made. -/
def incs (sema : ι) (turns : List (Turn ι)) : Nat := turns.countP (·.call = .semaInc sema)

end Semaphores
end Egos.Threads
