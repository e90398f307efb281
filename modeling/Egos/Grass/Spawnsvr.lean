import Egos.Grass.Dirsvr
import Egos.Grass.SpawnArgs
import Egos.Library.Transition

/-! The spawn server (grass/spawnsvr.c) and the processes that it creates, up to the end of
copy_user in user_proc. All of them share the one buffer of the server. A process gives up
the CPU in file_read and in the page faults of copy_user. Replies are left out. -/

namespace Egos.Spawnsvr
open Library
open Grass (Pid Halt)
open Dirsvr (Fid)
open Files (PAGESIZE)
open SpawnArgs (envSize selfOffset)

/-- sizeof(struct spawn_request) -/
def requestSize : Nat := 24

def SPAWN_EXEC : Nat := 1

def SPAWN_KILL : Nat := 2

def SPAWN_GETUID : Nat := 3

/-! The fields of a request at an address. -/

def typeAt (m : Memory) (req : Nat) : Nat := m.load32 req

def executableAt (m : Memory) (req : Nat) : Fid :=
  { server := .ofNat (m.load32 (req + 4)), ino := .ofNat (m.load32 (req + 8)) }

def sizeAt (m : Memory) (req : Nat) : Nat := m.load32 (req + 12)

def interruptableAt (m : Memory) (req : Nat) : Nat := m.load32 (req + 16)

/-- `sizeof(req) + PAGESIZE`, where `req` is a pointer. -/
def receiveSize : Nat := 8 + PAGESIZE

/-- The address of the buffer. The memory starts where `ge` is when there are no arguments. -/
def req : Nat := envSize - requestSize

/-- sizeof(proc_current->hdr): the header and four segments. -/
def headerSize : Nat := 72

/-- Where a process is in user_proc. -/
inductive Stage where
  /-- In file_read. -/
  | reading
  /-- In copy_user: so many bytes are to be copied, and these are. -/
  | building (size : Nat) (stack : List UInt8)
  | dead

/-- The ghost `own` is the message that the process has been created for. -/
structure User where
  own : List UInt8
  self : Pid
  interruptable : Nat
  executable : Fid
  stage : Stage

inductive ServerAt where
  | receiving
  /-- On the run queue, in proc_create_uid. -/
  | creating
  | terminated

structure System where
  memory : Memory
  server : ServerAt
  users : List User

abbrev Spawn := Prog System Halt

/-- user_proc up to the call of file_read. -/
def startUser (own : List UInt8) (self : Pid) (m : Memory) : User where
  own
  self
  interruptable := interruptableAt m req
  executable := executableAt m req
  stage := .reading

/-- `created` is the process identifier that proc_create_uid returns, if it creates a
process. The process starts at once. -/
def spawnDoExec (message : List UInt8) (created : Option Pid) : Spawn Unit := do
  let s ← .get
  match decide (sizeAt s.memory req = message.length - requestSize), created with
  | true, some self => .modify fun s =>
      { s with server := .creating, users := s.users ++ [startUser message self s.memory] }
  | _, _ => pure ()

/-- One turn of the loop in spawn_proc. What proc_kill does is in the deaths of processes. -/
def spawnProc (contents : List UInt8) (created : Option Pid) : Spawn Unit := do
  let message := contents.take receiveSize
  .modify fun s => { s with memory := s.memory.storeBytes req message }
  let s ← .get
  if message.length < requestSize then .halt (.assertion "spawn_proc" "req_size >= (int) sizeof(*req)")
  else if typeAt s.memory req = SPAWN_EXEC then spawnDoExec message created
  else if typeAt s.memory req = SPAWN_KILL ∨ typeAt s.memory req = SPAWN_GETUID then pure ()
  else .halt (.assertion "spawn_proc" "0")

def System.setStage (s : System) (i : Nat) (user : User) (stage : Stage) : System :=
  { s with users := s.users.set i { user with stage } }

/-- user_proc from file_read, which returns the size it has read if it succeeds, to the call of copy_user. -/
def headerRead (i : Nat) (user : User) : Option Nat → Spawn Unit
  | none => .halt (.assertion "user_proc" "success")
  | some size =>
    if size ≠ headerSize then .halt (.assertion "user_proc" "size == sizeof(proc_current->hdr)")
    else do
      .modify fun s => { s with memory := s.memory.store32 (req + requestSize + sizeAt s.memory req - envSize + selfOffset) user.self.toNat }
      .modify fun s => s.setStage i user (.building (sizeAt s.memory req) [])

/-- The next byte that copy_user copies from `req + 1`. -/
def copyByte (i : Nat) (user : User) (size : Nat) (stack : List UInt8) : Spawn Unit :=
  .modify fun s => s.setStage i user (.building size (stack ++ [s.memory (req + requestSize + stack.length)]))

inductive Event where
  | receive (contents : List UInt8) (created : Option Pid)
  /-- The server gets the CPU back from a process that it has created. -/
  | resume
  /-- sys_recv fails, and the buffer is freed. -/
  | terminate (freed : Memory)
  | header (i : Nat) (result : Option Nat)
  | copy (i : Nat)
  | die (i : Nat)

/-- Processes give up the CPU between these steps, in any order. -/
inductive Step : Outcome System Halt Unit → Event → Outcome System Halt Unit → Prop where
  | receive {s contents created} : s.server = .receiving →
      Step (.done () s) (.receive contents created) (spawnProc contents created s)
  | resume {s} : s.server = .creating → Step (.done () s) .resume (.done () { s with server := .receiving })
  | terminate {s freed} : s.server = .receiving →
      Step (.done () s) (.terminate freed) (.done () { s with memory := freed, server := .terminated })
  | header {s i user result} : s.users[i]? = some user → user.stage = .reading →
      Step (.done () s) (.header i result) (headerRead i user result s)
  | copy {s i user size stack} : s.users[i]? = some user → user.stage = .building size stack → stack.length < size →
      Step (.done () s) (.copy i) (copyByte i user size stack s)
  | die {s i user} : s.users[i]? = some user → Step (.done () s) (.die i) (.done () (s.setStage i user .dead))

/-- spawn_proc before its loop. -/
def started (memory : Memory) : Outcome System Halt Unit := .done () { memory, server := .receiving, users := [] }

end Egos.Spawnsvr
