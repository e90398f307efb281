import Egos.Grass.Ramfile
import Egos.Library.Transition

/-! Sessions of the file server in memory. The memory that realloc hands out is part of the
state, as it can hold anything. -/

namespace Egos.Ramfile
open Library Egos.Files
open Grass (Pid Uid)

/-- The process table, what the pieces of memory hold that are handed out next, and the replies. -/
structure Outside where
  uid : Pid → Option Uid
  memory : Nat → Nat → UInt8
  sent : List (Pid × FileReply)

/-- The server never calls the block server. -/
def Outside.serve : (c : Call) → Prog Outside Halt c.Reply
  | .find pid => fun s => .done (s.uid pid) s
  | .send dst reply => fun s => .done () { s with sent := s.sent ++ [(dst, reply)] }
  | .garbage _ => fun s => .done (s.memory 0) { s with memory := fun n => s.memory (n + 1) }
  | .blockRead .. => fun s => .done none s
  | .blockWrite .. => fun s => .done false s
  | .blockGetsize _ => fun s => .done none s
  | .blockSetsize .. => fun s => .done false s

/-- A message, with the process table at the time when it is handled. -/
structure Request where
  uid : Pid → Option Uid
  src : Pid
  msg : List UInt8

structure Exchange where
  request : Request
  reply : FileReply

structure Session where
  files : Files
  memory : Nat → Nat → UInt8

namespace Session

def boot (memory : Nat → Nat → UInt8) : Session := { files := .new, memory }

def handle (s : Session) (request : Request) : Outcome Outside Halt Files :=
  (serve s.files request.msg request.src).run Outside.serve { uid := request.uid, memory := s.memory, sent := [] }

/-- A request is handled to its end and answered once. -/
def Step (before : Session) (x : Exchange) (after : Session) : Prop :=
  before.handle x.request =
    .done after.files { uid := x.request.uid, memory := after.memory, sent := [(x.request.src, x.reply)] }

end Session

/-- For each inode the bytes that have been written and not cut off since. -/
abbrev Written := UInt32 → Nat → Option UInt8

namespace Written

def record (written : Written) (req : FileRequest) (data : List UInt8) (status : Status) : Written :=
  match req.type, status with
  | .write, .ok => Function.update written req.ino fun i =>
      if req.offset.toNat ≤ i ∧ i < req.offset.toNat + data.length then data[i - req.offset.toNat]?
        else written req.ino i
  | .setsize, .ok => Function.update written req.ino fun i => if i < req.offset.toNat then written req.ino i else none
  | _, _ => written

def exchanged (written : Written) (x : Exchange) : Written :=
  match FileRequest.decode x.request.msg with
  | none => written
  | some (req, data) => written.record req data x.reply.status

/-- What a history of requests and replies has written. -/
def after (history : List Exchange) : Written := history.foldl exchanged fun _ _ => none

end Written

end Egos.Ramfile
