import Egos.Grass.Blocksvr

/-! The disk server (grass/disksvr.c) and the disk that is simulated on a file of the host
(earth/devdisk.c). A transfer is made at once, but the client gets its reply from an event
that the earth layer runs later (earth/intr.c), in the order in which they were scheduled. -/

namespace Egos.Disksvr
open Library Files Blocksvr
open Grass (Pid)
open Disk (BLOCK_SIZE)

/-- How many bytes the host is willing to transfer; `none` is an error. -/
abbrev Transfer := Option Nat

/-- `struct dev_disk` -/
structure DevDisk where
  nblocks : UInt32
  file : List UInt8

namespace DevDisk

/-- lseek and read. There is nothing to read past the end of the file. -/
def readAt (dd : DevDisk) (offset count : Nat) : List UInt8 := (dd.file.drop offset).take count

/-- lseek and write. A gap behind the end of the file is filled with zeros. -/
def writeAt (dd : DevDisk) (offset : Nat) (data : List UInt8) : DevDisk :=
  { dd with file := (List.range (max dd.file.length (offset + data.length))).map fun j =>
      if offset ≤ j ∧ j < offset + data.length then data.getD (j - offset) 0 else dd.file.getD j 0 }

end DevDisk

/-- A scheduled event: `struct disk_request` with the result of the transfer. -/
inductive Completion where
  | read (src : Pid) (block : Option DataBlock)
  | write (src : Pid) (success : Bool)

namespace Completion

/-- disk_read_complete and disk_write_complete -/
def send : Completion → Pid × BlockReply
  | .read src (some block) => (src, { status := .ok, sizeNblock := 1, data := some block })
  | .read src none => (src, { status := .error, sizeNblock := 1, data := none })
  | .write src success => (src, { status := if success then .ok else .error, sizeNblock := 1, data := none })

end Completion

/-- `struct disk_server_state`, the events that are scheduled, and the replies that were sent. -/
structure State where
  dd : DevDisk
  nblocks : UInt32
  events : List Completion
  sent : List (Pid × BlockReply)

/-- disk_init -/
def State.init (nblocks : UInt32) (file : List UInt8) : State :=
  { dd := { nblocks, file }, nblocks, events := [], sent := [] }

abbrev DiskServer := Prog State Halt

def send (dst : Pid) (reply : BlockReply) : DiskServer Unit :=
  .modify fun s => { s with sent := s.sent ++ [(dst, reply)] }

/-- disk_respond, which is given no data. -/
def diskRespond (status : Status) (src : Pid) : DiskServer Unit := send src { status, sizeNblock := 0, data := none }

/-- intr_sched_event -/
def schedule (event : Completion) : DiskServer Unit := .modify fun s => { s with events := s.events ++ [event] }

def diskSeek (offset : UInt32) : DiskServer Nat := do
  let s ← .get
  match decide (offset < s.dd.nblocks) with
  | true => pure (offset.toNat * BLOCK_SIZE)
  | false => .halt (.assertion "disk_seek" "offset < dd->nblocks")

/-- What is missing at the end is filled with zeros. -/
def devDiskRead (offset : UInt32) (src : Pid) (transfer : Transfer) : DiskServer Unit := do
  let place ← diskSeek offset
  let s ← .get
  schedule (.read src (transfer.map fun n => fun i => (s.dd.readAt place (min n BLOCK_SIZE)).getD i 0))

def devDiskWrite (offset : UInt32) (data : List UInt8) (src : Pid) (transfer : Transfer) : DiskServer Unit := do
  let place ← diskSeek offset
  match transfer with
  | none => schedule (.write src false)
  | some n =>
    .modify fun s => { s with dd := s.dd.writeAt place (data.take (min n BLOCK_SIZE)) }
    schedule (.write src (decide (BLOCK_SIZE ≤ n)))

def diskDoRead (req : BlockRequest) (src : Pid) (transfer : Transfer) : DiskServer Unit :=
  if req.ino ≠ 0 then diskRespond .error src else devDiskRead req.offsetNblock src transfer

def diskDoWrite (req : BlockRequest) (data : List UInt8) (src : Pid) (transfer : Transfer) : DiskServer Unit :=
  if data.length ≠ BLOCK_SIZE then .halt (.assertion "disk_do_write" "size == BLOCK_SIZE")
  else if req.ino ≠ 0 then diskRespond .error src
  else devDiskWrite req.offsetNblock data src transfer

def diskDoGetsize (req : BlockRequest) (src : Pid) : DiskServer Unit :=
  if req.ino ≠ 0 then diskRespond .error src
  else do
    let s ← .get
    send src { status := .ok, sizeNblock := s.nblocks, data := none }

def diskDoSetsize (src : Pid) : DiskServer Unit := diskRespond .error src

/-- One turn of the loop of disk_proc. -/
def receive (msg : List UInt8) (src : Pid) (transfer : Transfer) : DiskServer Unit :=
  match BlockRequest.decode msg with
  | none => .halt (.assertion "disk_proc" "req_size >= (int) sizeof(*req)")
  | some (req, data) =>
    match req.type with
    | .read => diskDoRead req src transfer
    | .write => diskDoWrite req data src transfer
    | .getsize => diskDoGetsize req src
    | .setsize => diskDoSetsize src
    | .unknown => .halt (.assertion "disk_proc" "0")

/-- An event is run, if there is one. -/
def complete : DiskServer Unit := .modify fun s =>
  match s.events with
  | [] => s
  | event :: rest => { s with events := rest, sent := s.sent ++ [event.send] }

inductive Event where
  | receive (msg : List UInt8) (src : Pid) (transfer : Transfer)
  | complete

def Event.perform : Event → DiskServer Unit
  | .receive msg src transfer => Disksvr.receive msg src transfer
  | .complete => Disksvr.complete

/-- A step of a disk server that has not stopped. -/
def Step (s : State) (event : Event) (after : State) : Prop := event.perform s = .done () after

/-! What the disk is for: an array of blocks that each request reads or changes at once. -/

structure Platter where
  nblocks : UInt32
  block : Nat → DataBlock

/-- The first bytes of a block, and the rest of another one. -/
def splice (count : Nat) (front back : DataBlock) : DataBlock := fun i => if i.val < count then front i else back i

/-- The reply to a request; there is none to one that stops the server. -/
def Platter.answer (p : Platter) (msg : List UInt8) (transfer : Transfer) : Option (BlockReply × Platter) :=
  let refused : BlockReply := { status := .error, sizeNblock := 0, data := none }
  match BlockRequest.decode msg with
  | none => none
  | some (req, data) =>
    match req.type with
    | .read =>
      if req.ino ≠ 0 then some (refused, p)
      else if p.nblocks ≤ req.offsetNblock then none
      else
        match transfer with
        | none => some ({ status := .error, sizeNblock := 1, data := none }, p)
        | some n => some ({ status := .ok, sizeNblock := 1, data := some (splice n (p.block req.offsetNblock.toNat) fun _ => 0) }, p)
    | .write =>
      if data.length ≠ BLOCK_SIZE then none
      else if req.ino ≠ 0 then some (refused, p)
      else if p.nblocks ≤ req.offsetNblock then none
      else
        match transfer with
        | none => some ({ status := .error, sizeNblock := 1, data := none }, p)
        | some n =>
          let written := splice n (fun i => data.getD i 0) (p.block req.offsetNblock.toNat)
          some ({ status := if BLOCK_SIZE ≤ n then .ok else .error, sizeNblock := 1, data := none },
            { p with block := Function.update p.block req.offsetNblock.toNat written })
    | .getsize =>
      if req.ino ≠ 0 then some (refused, p) else some ({ status := .ok, sizeNblock := p.nblocks, data := none }, p)
    | .setsize => some (refused, p)
    | .unknown => none

/-- The answers to the requests received so far. -/
structure History where
  platter : Platter
  answers : List (Pid × BlockReply)

def History.next (h : History) : Event → History
  | .complete => h
  | .receive msg src transfer =>
    match h.platter.answer msg transfer with
    | none => h
    | some (reply, platter) => { platter, answers := h.answers ++ [(src, reply)] }

end Egos.Disksvr
