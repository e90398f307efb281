import Egos.Grass.Process
import Egos.Library.Transition

/-! The kernel as a transition system. While a process runs it makes the calls it
likes; once it has called proc_yield, interrupts are served and proc_yield looks
for the next process to run. A call may run on an old stack only through `resume`. -/

namespace Egos.Grass
open Library

def STAT_INTR : UInt32 := -3

def STAT_SHUTDOWN : UInt32 := -4

/-- Invoked when shutting down the kernel. -/
def procShutdown (now : Time) : Kern Unit :=
  .modify fun k => { k with procShuttingDown := true, procCurfew := now + 3000 }

/-- One process in the search for timeouts at the head of proc_yield's loop. -/
def checkTimeout (now : Time) (p : Slot) : Kern Unit := do
  let k ← .get
  match k.procShuttingDown && (k.procSet p).state ≠ .free with
  | true => procZap none p STAT_SHUTDOWN
  | false =>
    when ((k.procSet p).state = .waiting && (k.procSet p).alarmSet && (k.procSet p).exptime ≤ now) (procWakeup p)

/-- Take the head of a run queue off it. -/
def queueGet (level : Level) (rest : List Slot) : Kern Unit :=
  .modify fun k => { k with mtlQueue := Function.update k.mtlQueue level rest }

/-- The queue of one level is emptied up to the first runnable process. -/
def pickFrom (level : Level) : List Slot → Kern (Option Slot)
  | [] => pure none
  | p :: rest => do
    queueGet level rest
    let k ← .get
    match decide ((k.procSet p).state = .runnable) with
    | true => pure (some p)
    | false =>
      ensure ((k.procSet p).state = .zombie) "proc_yield" "proc_next->state == PROC_ZOMBIE"
      procRelease p
      pickFrom level rest

/-- Find the next runnable process, by priority. -/
def pick : List Level → Kern (Option Slot)
  | [] => pure none
  | level :: rest => do
    let k ← .get
    match ← pickFrom level (k.mtlQueue level) with
    | some next => pure (some next)
    | none => pick rest

/-- What the process that runs next does first. -/
def procAfterSwitch (next : Slot) : Kern Unit := do
  let k ← .get
  ensure (next ≠ k.procCurrent) "proc_after_switch" "proc_next != proc_current"
  ensure ((k.procSet next).state = .runnable) "proc_after_switch" "proc_next->state == PROC_RUNNABLE"
  when (k.current.state = .zombie) (procRelease k.procCurrent)
  .modify fun k => { k with procCurrent := next }

/-- The end of proc_yield once a process has been found. -/
def switchTo (next : Slot) (now : Time) : Kern Unit := do
  let k ← .get
  ensure (next ≠ k.procCurrent) "proc_yield" "proc_next != proc_current"
  ensure ((k.procSet next).pid ≠ k.current.pid) "proc_yield" "proc_next->pid != proc_current->pid"
  ensure ((k.procSet next).state = .runnable) "proc_yield" "proc_next->state == PROC_RUNNABLE"
  when (k.current.state = .runnable) (procToRunqueue k.procCurrent)
  setProc next fun p => { p with lastRun := now }
  .modify (·.record (.switched next))
  procAfterSwitch next

/-- No other process can run. -/
def noneFound : Kern Turn := do
  let k ← .get
  match decide (k.current.state = .runnable), decide (k.procNprocs = 1) && k.procShuttingDown with
  | true, _ =>
    resume
    pure .running
  | false, true => .halt .exit
  | false, false => pure .yielding

/-- One round of the loop of proc_yield; `now` is the time it reads first and
`later` the time it reads before the switch. How long it then waits for
interrupts is left out. -/
def procYieldRound (now later : Time) : Kern Turn := do
  let k ← .get
  ensure (k.procNprocs ≠ 0) "proc_yield" "proc_nprocs > 0"
  match k.procCurfew ≠ 0 && k.procCurfew < now with
  | true => .halt .exit
  | false =>
    forSlots (checkTimeout now) procSlots
    let next ← pick (List.finRange MAX_PRIORITY)
    let k ← .get
    ensure (k.procNprocs ≠ 0) "proc_yield" "proc_nprocs > 0"
    match next with
    | none => noneFound
    | some next =>
      switchTo next later
      resume
      pure .running

inductive IntrType where
  | pageFault
  | syscall
  | clock
  | io

/-- Page faults and system calls go on with calls of the same process. -/
def procGotInterrupt (intr : IntrType) (now : Time) : Kern Turn := do
  checkPriority now
  match intr with
  | .pageFault | .syscall => pure .running
  | .clock | .io => pure .yielding

/-- What a running process may ask of the kernel. The servers send their replies
through proc_send as well, under their own pid or one they have kept. -/
inductive Call where
  | recv (mtype : MsgType) (maxTime : UInt32) (size : Nat) (now : Time)
  | send (pid : Pid) (mtype : MsgType) (msg : List UInt8)
  | rpc (pid : Pid) (request : List UInt8) (repsize : Nat) (now : Time)
  | procSend (srcPid dstPid : Pid) (mtype : MsgType) (contents : List UInt8)
  | exit (status : UInt32)
  | kill (killer pid : Pid) (status : UInt32)
  | create (owner : Pid) (uid : Uid) (now : Time)
  | gotInterrupt (intr : IntrType) (now : Time)
  | setInterruptable (value : Bool)
  | shutdown (now : Time)

def Call.perform : Call → Kern Turn
  | recv mtype maxTime size now => sysRecv mtype maxTime size now
  | send pid mtype msg => sysSend pid mtype msg
  | rpc pid request repsize now => sysRpc pid request repsize now
  | procSend srcPid dstPid mtype contents => do
    let _ ← Grass.procSend srcPid dstPid mtype contents
    pure .running
  | exit status => sysExit status
  | kill killer pid status => procKill killer pid status
  | create owner uid now => procCreateUid owner uid now
  | gotInterrupt intr now => procGotInterrupt intr now
  | setInterruptable value => do
    let k ← .get
    setProc k.procCurrent fun p => { p with interruptable := value }
    pure .running
  | shutdown now => do
    procShutdown now
    pure .running

/-- What device handlers do inside intr_suspend. A nested proc_yield, which
proc_kill makes when the current process has died, never returns: it takes the
place of the one that was interrupted. -/
inductive Interrupt where
  | procSend (srcPid dstPid : Pid) (mtype : MsgType) (contents : List UInt8)
  | killAll (killer : Pid)
  | shutdown (now : Time)

def Interrupt.serve : Interrupt → Kern Turn
  | procSend srcPid dstPid mtype contents => do
    let _ ← Grass.procSend srcPid dstPid mtype contents
    pure .yielding
  | killAll killer => do
    let _ ← procKill killer 0 STAT_INTR
    pure .yielding
  | shutdown now => do
    procShutdown now
    pure .yielding

inductive Mode where
  | running
  | yielding
  | stopped (reason : Halt)

structure Machine where
  kernel : Kernel
  mode : Mode

def Turn.mode : Turn → Mode
  | .running => .running
  | .yielding => .yielding

def Machine.after : Outcome Kernel Halt Turn → Machine
  | .done turn kernel => { kernel, mode := turn.mode }
  | .halted reason kernel => { kernel, mode := .stopped reason }

inductive Event where
  | call (call : Call)
  | interrupt (interrupt : Interrupt)
  | round (now later : Time)

inductive Step : Machine → Event → Machine → Prop where
  | call {kernel call} : Step ⟨kernel, .running⟩ (.call call) (.after (call.perform kernel))
  | interrupt {kernel interrupt} : Step ⟨kernel, .yielding⟩ (.interrupt interrupt) (.after (interrupt.serve kernel))
  | round {kernel now later} : Step ⟨kernel, .yielding⟩ (.round now later) (.after (procYieldRound now later kernel))

/-- The kernel's variables before proc_initialize allocates the main process. -/
def noProcesses : Kernel :=
  { procSet := fun i => { Process.fresh (UInt32.ofNat i) 0 0 with state := .free }
    procCurrent := ⟨0, slot_zero⟩
    procNprocs := 0
    procNrunnable := 0
    procFree := procSlots
    mtlQueue := fun _ => []
    pidGen := 1
    procShuttingDown := false
    procCurfew := 0
    lives := [] }

def procInitialize : Kern Turn := do
  match ← procAlloc 1 0 with
  | none => pure .running
  | some p =>
    .modify (·.record (.switched p))
    .modify fun k => { k with procCurrent := p }
    pure .running

/-- The machine that main starts. -/
def booted : Machine := .after (procInitialize noProcesses)

def Reachable (m : Machine) : Prop := ∃ events, Run Step booted events m

end Egos.Grass
