import Egos.Grass.FileServer
import Egos.Grass.Machine

/-! The terminal server of ttysvr.c: its reads, and the interrupt handler that turns what
is typed into lines. What the server prints is left out, and with it the flags. -/

namespace Egos.Tty
open Library
open Grass (Pid Time Kernel Kern Halt Turn Mode Machine bytesOf STAT_INTR procSend procKill procShutdown)
open Files (Status FileRequest bytesOf64)

structure TtyRequest where
  src : Pid
  size : UInt32

/-- Bytes that proc_send has put into the mailbox of the process that asked for them, and
whether that process was alive. -/
structure Handed where
  src : Pid
  alive : Bool
  data : List UInt8

/-- A `struct input` is the list of its bytes. The ghost `handed` lists what readers have
been given; no code reads it. -/
structure TtyState where
  pid : Pid
  buf : List UInt8
  requests : List TtyRequest
  inputs : List (List UInt8)
  handed : List Handed

structure Terminal where
  kernel : Kernel
  tty : TtyState

abbrev Server := Prog Terminal Halt

/-- A call of the kernel. -/
def inKernel {α : Type} (program : Kern α) : Server α := program.focus Terminal.kernel fun kernel t => { t with kernel }

def setTty (change : TtyState → TtyState) : Server Unit := .modify fun t => { t with tty := change t.tty }

def statusCode : Status → UInt32
  | .ok => 0
  | .error => 1

/-- A `struct file_reply` in which only the status and the size of the file are set, and
the data after it. -/
def replyBytes (status : Status) (size : UInt64) (data : List UInt8) : List UInt8 :=
  bytesOf (statusCode status) ++ List.replicate 20 0 ++ bytesOf64 size ++ List.replicate 8 0 ++ data

/-- Respond to the client without any data. -/
def ttyRespond (src : Pid) (status : Status) : Server Unit := do
  let t ← .get
  let _ ← inKernel (procSend t.tty.pid src .reply (replyBytes status 0 []))
  pure ()

def isAlive (k : Kernel) (pid : Pid) : Bool :=
  (k.procFind pid).any fun p => (k.procSet p).state = .runnable || (k.procSet p).state = .waiting

/-- The number of bytes of a line that a reader has room for. -/
def TtyRequest.takes (tr : TtyRequest) (buf : List UInt8) : Nat := min buf.length tr.size.toNat

/-- A line of input is ready to be sent. What proc_send returns is ignored; only the ghost
depends on it. -/
def ttyHandle (tr : TtyRequest) (buf : List UInt8) : Server Unit := do
  let n := tr.takes buf
  let t ← .get
  let sent ← inKernel (procSend t.tty.pid tr.src .reply (replyBytes .ok 0 (buf.take n)))
  setTty fun ts => { ts with
    handed := ts.handed ++ if sent then [{ src := tr.src, alive := isAlive t.kernel tr.src, data := buf.take n }]
      else [] }
  match decide (n < buf.length) with
  | true => setTty fun ts => { ts with inputs := buf.drop n :: ts.inputs }
  | false => pure ()

/-- If there are a line and a request, return the line. -/
def ttyServe : Server Unit := do
  let t ← .get
  match t.tty.inputs, t.tty.requests with
  | buf :: inputs, tr :: requests =>
    setTty fun ts => { ts with inputs, requests }
    ttyHandle tr buf
  | _, _ => pure ()

/-- `c & 0x1F` -/
def ctrl (c : Char) : UInt8 := UInt8.ofNat c.toNat &&& 0x1F

/-- The cases of the switch in tty_deliver. -/
inductive Key where
  | interrupt
  | endOfFile
  | erase
  | dump
  | quit
  | char (c : UInt8)

def newline : UInt8 := UInt8.ofNat '\n'.toNat

def key (b : UInt8) : Key :=
  if b = ctrl 'c' then .interrupt
  else if b = ctrl 'd' then .endOfFile
  else if b = ctrl 'h' ∨ b = 0x7F then .erase
  else if b = ctrl 'l' then .dump
  else if b = ctrl 'q' then .quit
  else if b = UInt8.ofNat '\r'.toNat then .char newline
  else .char b

def TtyState.endInput (ts : TtyState) : TtyState := { ts with inputs := ts.inputs ++ [ts.buf], buf := [] }

/-- The line has one byte more, and is complete after a newline. The size of a line is an
`unsigned int`. -/
def addChar (c : UInt8) : Server Unit := do
  let t ← .get
  match decide (t.tty.buf.length + 1 < 2 ^ 32) with
  | false => .halt (.outOfBounds "ts->buf->data")
  | true =>
    setTty fun ts => { ts with buf := ts.buf ++ [c] }
    match decide (c = newline) with
    | true => setTty (·.endInput)
    | false => pure ()

/-- One byte that has been typed. If proc_kill has killed the current process the handler
does not go on: the proc_yield in proc_kill does not return. -/
def ttyChar (now : Time) (b : UInt8) : Server Turn := do
  match key b with
  | .interrupt =>
    let t ← .get
    inKernel (procKill t.tty.pid 0 STAT_INTR)
  | .endOfFile =>
    setTty (·.endInput)
    pure .running
  | .erase =>
    setTty fun ts => { ts with buf := ts.buf.dropLast }
    pure .running
  | .dump => pure .running
  | .quit =>
    inKernel (procShutdown now)
    pure .running
  | .char c =>
    addChar c
    pure .running

/-- The I/O interrupt for terminal input. It runs inside the proc_yield of whatever process
is the current one. -/
def ttyDeliver (now : Time) : List UInt8 → Server Turn
  | [] => do
    ttyServe
    pure .running
  | b :: rest => do
    match ← ttyChar now b with
    | .running => ttyDeliver now rest
    | .yielding => pure .yielding

/-- Respond to a read request; `req` is what tty_proc has received from `src`. -/
def ttyRead (req : FileRequest) (src : Pid) : Server Unit :=
  match decide (req.ino = 0) with
  | false => ttyRespond src .error
  | true => do
    setTty fun ts => { ts with requests := ts.requests ++ [{ src, size := req.size }] }
    -- the queue of requests is not empty
    ttyServe

/-- The kernel with its terminal server. `chunk` is what the interrupt handler has still to
look at, while it is at work. The ghost `typed` lists what the device has delivered. -/
structure System where
  machine : Machine
  tty : TtyState
  chunk : Option (List UInt8)
  typed : List UInt8

def System.terminal (s : System) : Terminal := { kernel := s.machine.kernel, tty := s.tty }

/-- A program of the server has run. -/
def System.ran {α : Type} (s : System) (next : α → Option (List UInt8)) : Outcome Terminal Halt α → System
  | .done value t => { s with machine := ⟨t.kernel, s.machine.mode⟩, tty := t.tty, chunk := next value }
  | .halted reason t => { s with machine := ⟨t.kernel, .stopped reason⟩, tty := t.tty, chunk := none }

/-- After a byte the handler goes on with the rest, if it still runs. -/
def goesOn (rest : List UInt8) : Turn → Option (List UInt8)
  | .running => some rest
  | .yielding => none

inductive Event where
  | kernel (event : Grass.Event)
  | arrive (chunk : List UInt8)
  | char (now : Time)
  | serve
  | read (req : FileRequest) (src : Pid)

/-- Interrupts are served inside proc_yield, and nothing else happens meanwhile; `char` and
`serve` are the steps of one run of tty_deliver. The server itself reads requests. -/
inductive Step : System → Event → System → Prop where
  | kernel {s event after} : s.chunk = none → Grass.Step s.machine event after →
      Step s (.kernel event) { s with machine := after }
  | arrive {s chunk} : s.machine.mode = .yielding → s.chunk = none →
      Step s (.arrive chunk) { s with chunk := some chunk, typed := s.typed ++ chunk }
  | char {s now b rest} : s.machine.mode = .yielding → s.chunk = some (b :: rest) →
      Step s (.char now) (s.ran (goesOn rest) (ttyChar now b s.terminal))
  | serve {s} : s.machine.mode = .yielding → s.chunk = some [] →
      Step s .serve (s.ran (fun _ => none) (ttyServe s.terminal))
  | read {s req src} : s.machine.mode = .running → s.machine.kernel.current.pid = s.tty.pid → s.chunk = none →
      Step s (.read req src) (s.ran (fun _ => none) (ttyRead req src s.terminal))

/-- A terminal that nobody has typed on yet; there may be input from before. -/
structure Starts (s : System) : Prop where
  reachable : Grass.Reachable s.machine
  idle : s.chunk = none
  typed : s.typed = []
  handed : s.tty.handed = []

end Egos.Tty
