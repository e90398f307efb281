import Mathlib.Data.List.FinRange
import Mathlib.Logic.Function.Basic
import Egos.Library.Program

/-! The processes of process.c in the HW_MLFQ build: the process table, message
passing, death, and the scheduler. A kernel function runs to its end or up to a
call of proc_yield; what happens inside proc_yield is in `Grass/Machine.lean`. -/

namespace Egos.Grass
open Library

abbrev Pid := UInt32
abbrev Uid := UInt32
abbrev Time := UInt64

def MAX_PROCS : Nat := 100

def MAX_PRIORITY : Nat := 3

/-- A pointer into `proc_set`. -/
abbrev Slot := Fin MAX_PROCS

theorem slot_zero : 0 < MAX_PROCS := by decide

theorem slot_one : 1 < MAX_PROCS := by decide

abbrev Level := Fin MAX_PRIORITY

inductive MsgType where
  | request
  | reply
  | event
  deriving DecidableEq

inductive ProcState where
  | free
  | runnable
  | waiting
  | zombie
  deriving DecidableEq

/-- The size of a message is the length of its contents. -/
structure Message where
  src : Pid
  contents : List UInt8
  deriving DecidableEq

/-- What happens in the life of a process. `owner` is the slot of its owner if that is
alive, and `queued` tells whether the process is on a run queue. -/
inductive Life where
  | created (p : Slot)
  | switched (p : Slot)
  | died (p : Slot) (pid : Pid) (status : UInt32) (owner : Option Slot)
  | put (dst : Slot) (mtype : MsgType) (msg : Message)
  /-- The end of proc_term. -/
  | buried (p : Slot)
  | released (p : Slot) (queued : Bool)
  deriving DecidableEq

/-- What proc_recv has copied out of a message for a caller with room for `room` bytes. -/
structure Receipt where
  room : Nat
  src : Pid
  contents : List UInt8
  deriving DecidableEq

/-- The ghosts `accepted` and `returned` list what proc_send has put into the
queue and what proc_recv has taken from it; no code reads them. -/
structure MsgQueue where
  waiting : Bool
  messages : List Message
  accepted : List Message
  returned : List Receipt

def MsgQueue.add (mq : MsgQueue) (msg : Message) : MsgQueue :=
  { mq with messages := mq.messages ++ [msg], accepted := mq.accepted ++ [msg] }

/-- The head of the queue has been copied to the caller. -/
def MsgQueue.returnHead (mq : MsgQueue) (rest : List Message) (receipt : Receipt) : MsgQueue :=
  { mq with messages := rest, returned := mq.returned ++ [receipt] }

def Message.copy (msg : Message) (room : Nat) : Receipt :=
  { room, src := msg.src, contents := msg.contents.take room }

/-- A call of proc_recv that has given up the CPU, with the size of the caller's
buffer and, where the caller is sys_rpc, the process it called. -/
structure Await where
  mtype : MsgType
  size : Nat
  rpc : Option Pid

/-- The ghost `call` is the part of the kernel stack that proc_yield returns to. -/
structure Process where
  priority : Nat
  remainQuantum : Time
  lastRun : Time
  pid : Pid
  uid : Uid
  owner : Pid
  state : ProcState
  mboxes : MsgType → MsgQueue
  server : Pid
  alarmSet : Bool
  exptime : Time
  interruptable : Bool
  call : Option Await

/-- The ghost `lives` records what happens to the processes, in order; no code reads it. -/
structure Kernel where
  procSet : Slot → Process
  procCurrent : Slot
  procNprocs : Int
  procNrunnable : Int
  procFree : List Slot
  mtlQueue : Level → List Slot
  pidGen : Pid
  procShuttingDown : Bool
  procCurfew : Time
  lives : List Life

/-- Reasons why the whole system stops. -/
inductive Halt where
  | assertion (function condition : String)
  /-- An array is accessed past its end. -/
  | outOfBounds (array : String)
  | exit
  deriving DecidableEq

abbrev Kern := Prog Kernel Halt

def ensure (condition : Bool) (function text : String) : Kern Unit :=
  match condition with
  | true => pure ()
  | false => .halt (.assertion function text)

def when (condition : Bool) (program : Kern Unit) : Kern Unit :=
  match condition with
  | true => program
  | false => pure ()

/-- `for (p = proc_set; p < &proc_set[MAX_PROCS]; p++)` over the given slots. -/
def forSlots (body : Slot → Kern Unit) : List Slot → Kern Unit
  | [] => pure ()
  | p :: rest => do
    body p
    forSlots body rest

def procSlots : List Slot := List.finRange MAX_PROCS

namespace Kernel

def put (k : Kernel) (p : Slot) (record : Process) : Kernel :=
  { k with procSet := Function.update k.procSet p record }

def setProc (k : Kernel) (p : Slot) (change : Process → Process) : Kernel :=
  k.put p (change (k.procSet p))

def current (k : Kernel) : Process := k.procSet k.procCurrent

def procFind (k : Kernel) (pid : Pid) : Option Slot :=
  procSlots.find? fun p => (k.procSet p).state ≠ .free && (k.procSet p).pid == pid

def record (k : Kernel) (life : Life) : Kernel := { k with lives := k.lives ++ [life] }

def onQueue (k : Kernel) (p : Slot) : Bool := (List.finRange MAX_PRIORITY).any fun level => p ∈ k.mtlQueue level

def liveOwner (k : Kernel) (p : Slot) : Option Slot :=
  (k.procFind (k.procSet p).owner).filter
    fun owner => (k.procSet owner).state = .runnable || (k.procSet owner).state = .waiting

end Kernel

namespace Process

def setMbox (p : Process) (mtype : MsgType) (change : MsgQueue → MsgQueue) : Process :=
  { p with mboxes := Function.update p.mboxes mtype (change (p.mboxes mtype)) }

end Process

def setProc (p : Slot) (change : Process → Process) : Kern Unit :=
  .modify (·.setProc p change)

/-- `quantum[i]`, as proc_initialize fills it. -/
def quantum (level : Nat) : Time := (UInt64.ofNat level + 1) * 100

def loweredPriority (priority : Nat) : Nat :=
  if priority = MAX_PRIORITY - 1 then priority else priority + 1

/-- The process has used up its quantum. -/
def lowerPriority (p : Slot) : Kern Unit := do
  let k ← .get
  match decide (loweredPriority (k.procSet p).priority < MAX_PRIORITY) with
  | true =>
    setProc p fun p => { p with
      priority := loweredPriority p.priority, remainQuantum := quantum (loweredPriority p.priority) }
  | false => .halt (.outOfBounds "quantum")

def checkPriority (now : Time) : Kern Unit := do
  let k ← .get
  match decide (now - k.current.lastRun > k.current.remainQuantum) with
  | true => lowerPriority k.procCurrent
  | false => setProc k.procCurrent fun p => { p with remainQuantum := p.remainQuantum - (now - p.lastRun) }

def mqInit : MsgQueue := { waiting := false, messages := [], accepted := [], returned := [] }

/-- What proc_alloc leaves of a slot: zeros and the fields it sets. -/
def Process.fresh (pid owner : Pid) (uid : Uid) : Process :=
  { priority := 0, remainQuantum := 0, lastRun := 0, pid, uid, owner, state := .runnable,
    mboxes := fun _ => mqInit, server := 0, alarmSet := false, exptime := 0,
    interruptable := false, call := none }

def procAlloc (owner : Pid) (uid : Uid) : Kern (Option Slot) := do
  let k ← .get
  match k.procFree with
  | [] => pure none
  | p :: rest =>
    .modify fun k => { k with procFree := rest }
    setProc p fun _ => Process.fresh k.pidGen owner uid
    .modify fun k => { k with
      pidGen := k.pidGen + 1, procNprocs := k.procNprocs + 1, procNrunnable := k.procNrunnable + 1 }
    .modify (·.record (.created p))
    pure (some p)

/-- Messages that are still queued are dropped. The function that `finish` points
to only frees memory of the process. -/
def procRelease (proc : Slot) : Kern Unit := do
  let k ← .get
  ensure ((k.procSet proc).state = .zombie) "proc_release" "proc->state == PROC_ZOMBIE"
  setProc proc fun p => { p with mboxes := fun mtype => { p.mboxes mtype with messages := [] } }
  .modify fun k => { k with procNprocs := k.procNprocs - 1 }
  setProc proc fun p => { p with state := .free }
  .modify fun k => k.record (.released proc (k.onQueue proc))
  .modify fun k => { k with procFree := k.procFree ++ [proc] }

def queueAdd (p : Slot) : Kern Unit := fun k =>
  if inside : (k.procSet p).priority < MAX_PRIORITY then
    let level : Level := ⟨(k.procSet p).priority, inside⟩
    .done () { k with mtlQueue := Function.update k.mtlQueue level (k.mtlQueue level ++ [p]) }
  else .halted (.outOfBounds "mtlQueue->q") k

def procToRunqueue (p : Slot) : Kern Unit := do
  let k ← .get
  ensure ((k.procSet p).state = .runnable) "proc_to_runqueue" "p->state == PROC_RUNNABLE"
  queueAdd p

/-- The process `p` is runnable again and its alarm, if any, is off. -/
def makeRunnable (p : Slot) : Kern Unit := do
  setProc p fun p => { p with state := .runnable }
  .modify fun k => { k with procNrunnable := k.procNrunnable + 1 }
  setProc p fun p => { p with alarmSet := false }

/-- The end of proc_send for a process that waits on this mailbox. -/
def wakeReceiver (dst : Slot) (mtype : MsgType) : Kern Unit := do
  let k ← .get
  ensure ((k.procSet dst).state = .waiting) "proc_send" "dst->state == PROC_WAITING"
  makeRunnable dst
  when (dst ≠ k.procCurrent) (procToRunqueue dst)
  setProc dst (·.setMbox mtype fun mq => { mq with waiting := false })

/-- Improve its priority if possible. -/
def improvedPriority (priority : Nat) : Nat :=
  if priority = MAX_PRIORITY - 1 then priority - 1 else priority

def requeue (p : Slot) : Kern Unit := do
  setProc p fun p => { p with priority := improvedPriority p.priority }
  procToRunqueue p

def procWakeup (p : Slot) : Kern Unit := do
  let k ← .get
  ensure ((k.procSet p).state = .waiting) "proc_wakeup" "p->state == PROC_WAITING"
  makeRunnable p
  when (p ≠ k.procCurrent) (requeue p)
  setProc p fun p => { p with mboxes := fun mtype => { p.mboxes mtype with waiting := false } }

/-- A reply is only for a process that waits for one from this very source. -/
def notWaitingForReply (dst : Process) (srcPid : Pid) : Bool :=
  dst.state ≠ .waiting || !(dst.mboxes .reply).waiting || dst.server ≠ srcPid

/-- proc_send to a destination that exists. -/
def sendTo (srcPid : Pid) (dst : Slot) (mtype : MsgType) (contents : List UInt8) : Kern Bool := do
  let k ← .get
  match decide ((k.procSet dst).state = .zombie) || (mtype = .reply && notWaitingForReply (k.procSet dst) srcPid) with
  | true => pure false
  | false =>
    setProc dst (·.setMbox mtype (·.add { src := srcPid, contents }))
    .modify (·.record (.put dst mtype { src := srcPid, contents }))
    when ((k.procSet dst).mboxes mtype).waiting (wakeReceiver dst mtype)
    pure true

def procSend (srcPid dstPid : Pid) (mtype : MsgType) (contents : List UInt8) : Kern Bool := do
  let k ← .get
  match k.procFind dstPid with
  | none => pure false
  | some dst => sendTo srcPid dst mtype contents

/-- The bytes of an `unsigned int`. -/
def bytesOf (value : UInt32) : List UInt8 :=
  [value.toUInt8, (value >>> 8).toUInt8, (value >>> 16).toUInt8, (value >>> 24).toUInt8]

def MEV_PROCDIED : UInt32 := 1

/-- `struct msg_event` -/
def msgEvent (pid : Pid) (status : UInt32) : List UInt8 :=
  bytesOf MEV_PROCDIED ++ bytesOf pid ++ bytesOf status

/-- Notify owner, if any. -/
def notifyOwner (proc : Slot) (status : UInt32) : Kern Unit := do
  let k ← .get
  match k.procFind (k.procSet proc).owner with
  | none => pure ()
  | some owner =>
    let _ ← procSend (k.procSet proc).pid (k.procSet owner).pid .event (msgEvent (k.procSet proc).pid status)
    pure ()

/-- Fail the rpc of a client that waits for the given server. -/
def failRpc (pid : Pid) (p : Slot) : Kern Unit := do
  let k ← .get
  when ((k.procSet p).state = .waiting && ((k.procSet p).mboxes .reply).waiting && (k.procSet p).server = pid)
    (procWakeup p)

def becomeZombie (proc : Slot) (status : UInt32) : Kern Unit := do
  setProc proc fun p => { p with state := .zombie }
  .modify fun k => k.record (.died proc (k.procSet proc).pid status (k.liveOwner proc))
  notifyOwner proc status
  let k ← .get
  forSlots (failRpc (k.procSet proc).pid) procSlots
  .modify (·.record (.buried proc))

/-- proc_term, without the release of the process's frames. -/
def procTerm (proc : Slot) (status : UInt32) : Kern Unit := do
  let k ← .get
  ensure (k.procNprocs ≠ 0) "proc_term" "proc_nprocs > 0"
  when ((k.procSet proc).state = .runnable) (.modify fun k => { k with procNrunnable := k.procNrunnable - 1 })
  when ((k.procSet proc).state ≠ .zombie) (becomeZombie proc status)

/-- See if it's allowed. -/
def mayZap (k : Kernel) (killer : Option Slot) (p : Slot) : Bool :=
  match killer with
  | none => true
  | some killer => (k.procSet killer).uid = 0 || (k.procSet killer).uid = (k.procSet p).uid

def procZap (killer : Option Slot) (p : Slot) (status : UInt32) : Kern Unit := do
  let k ← .get
  when (mayZap k killer p) do
    ensure (k.procNprocs ≠ 0) "proc_zap" "proc_nprocs > 0"
    match (k.procSet p).state with
    | .runnable => procTerm p status
    | .waiting => do
      procTerm p status
      when (p ≠ k.procCurrent) (procRelease p)
    | .zombie => pure ()
    | .free => .halt (.assertion "proc_zap" "0")

/-- Where a kernel function leaves the current process: it goes on, or it has
called proc_yield. -/
inductive Turn where
  | running
  | yielding

/-- `proc_yield()` if the given process is dead. -/
def yieldIfZombie (p : Slot) : Kern Turn := do
  let k ← .get
  pure (if (k.procSet p).state = .zombie then .yielding else .running)

def zapInterruptable (killer : Slot) (status : UInt32) (p : Slot) : Kern Unit := do
  let k ← .get
  when ((k.procSet p).state ≠ .free && (k.procSet p).interruptable) (procZap (some killer) p status)

def killAll (killer : Slot) (status : UInt32) : Kern Turn := do
  let k ← .get
  forSlots (zapInterruptable killer status) procSlots
  yieldIfZombie k.procCurrent

def killOne (killer p : Slot) (status : UInt32) : Kern Turn := do
  procZap (some killer) p status
  yieldIfZombie p

def procKill (killer pid : Pid) (status : UInt32) : Kern Turn := do
  let k ← .get
  match k.procFind killer, pid == 0, k.procFind pid with
  | none, _, _ => pure .running
  | some killer, true, _ => killAll killer status
  | some _, false, none => pure .running
  | some killer, false, some p => killOne killer p status

/-- The last part of proc_recv: get the message, if any. -/
def procRecvGet (mtype : MsgType) (size : Nat) : Kern (Option Receipt) := do
  let k ← .get
  ensure (k.current.state = .runnable) "proc_recv" "proc_current->state == PROC_RUNNABLE"
  match (k.current.mboxes mtype).messages with
  | [] => pure none
  | msg :: rest =>
    setProc k.procCurrent (·.setMbox mtype (·.returnHead rest (msg.copy size)))
    pure (some (msg.copy size))

/-- The part of proc_recv before proc_yield when there are no messages. -/
def procRecvWait (await : Await) (maxTime : UInt32) (now : Time) : Kern Unit := do
  let k ← .get
  setProc k.procCurrent (·.setMbox await.mtype fun mq => { mq with waiting := true })
  setProc k.procCurrent fun p => { p with state := .waiting, call := some await }
  .modify fun k => { k with procNrunnable := k.procNrunnable - 1 }
  when (maxTime ≠ 0) (setProc k.procCurrent fun p => { p with exptime := now + maxTime.toUInt64, alarmSet := true })

def procRecv (await : Await) (maxTime : UInt32) (now : Time) : Kern Turn := do
  let k ← .get
  ensure (k.current.state = .runnable) "proc_recv" "proc_current->state == PROC_RUNNABLE"
  ensure (!(k.current.mboxes await.mtype).waiting) "proc_recv" "!mq->waiting"
  match (k.current.mboxes await.mtype).messages.isEmpty with
  | true =>
    procRecvWait await maxTime now
    pure .yielding
  | false =>
    ensure (await.mtype ≠ .reply) "proc_recv" "mtype != MSG_REPLY"
    let _ ← procRecvGet await.mtype await.size
    pure .running

/-- `if (r) assert(src == pid)` in sys_rpc. -/
def sysRpcReturn (rpc : Option Pid) (reply : Option Receipt) : Kern Unit :=
  match rpc, reply with
  | some pid, some receipt => ensure (receipt.src = pid) "sys_rpc" "src == pid"
  | _, _ => pure ()

/-- Where proc_yield returns to: the rest of proc_recv if the process has called
it, and of sys_rpc if that was the caller. -/
def resume : Kern Unit := do
  let k ← .get
  match k.current.call with
  | none => pure ()
  | some await =>
    setProc k.procCurrent fun p => { p with call := none }
    ensure (!(k.current.mboxes await.mtype).waiting) "proc_recv" "!mq->waiting"
    let reply ← procRecvGet await.mtype await.size
    sysRpcReturn await.rpc reply

def sysRecv (mtype : MsgType) (maxTime : UInt32) (size : Nat) (now : Time) : Kern Turn :=
  match mtype with
  | .reply => pure .running
  | _ => procRecv { mtype, size, rpc := none } maxTime now

def sysSend (pid : Pid) (mtype : MsgType) (msg : List UInt8) : Kern Turn := do
  let k ← .get
  match mtype with
  | .request => pure .running
  | _ =>
    let _ ← procSend k.current.pid pid mtype msg
    pure .running

def sysRpc (pid : Pid) (request : List UInt8) (repsize : Nat) (now : Time) : Kern Turn := do
  let k ← .get
  match decide (pid = k.current.pid) with
  | true => pure .running
  | false =>
    match ← procSend k.current.pid pid .request request with
    | false => pure .running
    | true =>
      setProc k.procCurrent fun p => { p with server := pid }
      procRecv { mtype := .reply, size := repsize, rpc := some pid } 0 now

def sysExit (status : UInt32) : Kern Turn := do
  let k ← .get
  procTerm k.procCurrent status
  pure .yielding

/-- The part of proc_create_uid that starts the new process at ctx_entry. -/
def startProcess (proc : Slot) (now : Time) : Kern Unit := do
  let k ← .get
  setProc proc fun p => { p with priority := 0, remainQuantum := quantum 0 }
  procToRunqueue k.procCurrent
  setProc proc fun p => { p with lastRun := now }
  .modify (·.record (.switched proc))
  .modify fun k => { k with procCurrent := proc }

def procCreateUid (owner : Pid) (uid : Uid) (now : Time) : Kern Turn := do
  let k ← .get
  match k.procShuttingDown, k.procFind owner with
  | false, some parent =>
    let uid := if (k.procSet parent).uid ≠ 0 then (k.procSet parent).uid else uid
    match ← procAlloc owner uid with
    | none => pure .running
    | some proc =>
      startProcess proc now
      pure .running
  | _, _ => pure .running

end Egos.Grass
