import Egos.Grass.Blkfile
import Egos.Grass.Ramfile
import Egos.Library.Transition

/-! A file server among its clients. Requests are queued, and processes appear in the
process table and disappear from it, while the server waits for a request or for the block
server; at all other times the server has the CPU. -/

namespace Egos.Files
open Library
open Grass (Pid Uid)

/-- Where the server is in its loop. -/
inductive Control (τ : Type) where
  | waiting (state : τ)
  | handling (program : Server τ)
  | stopped (reason : Halt)

/-- `uid` is the process table, as far as proc_find and the servers look at it. -/
structure World (τ : Type) where
  uid : Pid → Option Uid
  mbox : List (Pid × List UInt8)
  sent : List (Pid × FileReply)
  control : Control τ

/-- What a call returns, where that is not up to the process table. -/
inductive Answer where
  | block (contents : Option DataBlock)
  | success (value : Bool)
  | size (nblocks : Option UInt32)
  | memory (contents : Nat → UInt8)
  | none

def Call.answer (uid : Pid → Option Uid) : (c : Call) → Answer → Option c.Reply
  | .find pid, .none => some (uid pid)
  | .send .., .none => some ()
  | .blockRead .., .block contents => some contents
  | .blockWrite .., .success value => some value
  | .blockGetsize _, .size nblocks => some nblocks
  | .blockSetsize .., .success value => some value
  | .garbage _, .memory contents => some contents
  | _, _ => none

def Call.sends : Call → List (Pid × FileReply)
  | .send dst reply => [(dst, reply)]
  | _ => []

inductive Event where
  /-- proc_send puts the request of a process into the mailbox of the server. -/
  | request (src : Pid) (msg : List UInt8)
  /-- A process is released; what it has sent stays in the mailbox. -/
  | release (pid : Pid)
  | create (pid : Pid) (uid : Uid)
  | receive
  /-- The server makes its next call, or comes back to its loop. -/
  | proceed (answer : Answer)

/-- Another process may run. -/
def Control.yields {τ : Type} : Control τ → Bool
  | .waiting _ => true
  | .handling (.call c _) => c.isRpc
  | .handling (.pure _) | .handling (.halt _) | .stopped _ => false

namespace World
variable {τ : Type}

def proceed (w : World τ) (answer : Answer) : Option (World τ) :=
  match w.control with
  | .handling (.pure state) => some { w with control := .waiting state }
  | .handling (.halt reason) => some { w with control := .stopped reason }
  | .handling (.call c next) =>
    (c.answer w.uid answer).map fun reply => { w with sent := w.sent ++ c.sends, control := .handling (next reply) }
  | .waiting _ | .stopped _ => none

def next (serve : τ → List UInt8 → Pid → Server τ) (w : World τ) : Event → Option (World τ)
  | .request src msg => if w.control.yields && (w.uid src).isSome then some { w with mbox := w.mbox ++ [(src, msg)] }
      else none
  | .release pid => if w.control.yields then some { w with uid := Function.update w.uid pid none } else none
  | .create pid uid =>
    if w.control.yields && (w.uid pid).isNone then some { w with uid := Function.update w.uid pid (some uid) } else none
  | .receive =>
    match w.control, w.mbox with
    | .waiting state, (src, msg) :: rest => some { w with mbox := rest, control := .handling (serve state msg src) }
    | _, _ => none
  | .proceed answer => w.proceed answer

def steps (serve : τ → List UInt8 → Pid → Server τ) (w : World τ) (events : List Event) : Option (World τ) :=
  events.foldlM (next serve) w

def Step (serve : τ → List UInt8 → Pid → Server τ) (w : World τ) (event : Event) (after : World τ) : Prop :=
  w.next serve event = some after

/-- Nobody has sent anything yet. -/
def boot (uid : Pid → Option Uid) (control : Control τ) : World τ := { uid, mbox := [], sent := [], control }

end World

/-- The sender of the request that is received is in the process table, or the request is
refused for a reason that the server sees before it looks for the sender. -/
def Meets {τ : Type} (early : τ → List UInt8 → Bool) (w : World τ) : Event → Prop
  | .receive => ∀ state src msg rest, w.control = .waiting state → w.mbox = (src, msg) :: rest →
      (w.uid src).isSome ∨ early state msg = true
  | _ => True

end Egos.Files

namespace Egos.Blkfile
open Files

/-- Requests that blkfile_proc answers with FILE_ERROR before it looks for the sender. -/
def refusesEarly (cache : Cache) (msg : List UInt8) : Bool :=
  match FileRequest.decode msg with
  | none => false
  | some (req, data) =>
    match req.type with
    | .create => cache.unallocated.isNone
    | .delete => MAX_INODES < req.ino.toNat
    | .chown | .chmod | .read | .stat => (cache.allocated req.ino).isNone
    | .write => (cache.allocated req.ino).isNone || req.size.toNat ≠ data.length
    | .setsize => (cache.allocated req.ino).all fun stat => stat.stSize < req.offset
    | .setFlags | .unknown => false

end Egos.Blkfile

namespace Egos.Ramfile
open Egos.Files

/-- Requests that ramfile_proc answers with FILE_ERROR before it looks for the sender. -/
def refusesEarly (files : Files) (msg : List UInt8) : Bool :=
  match FileRequest.decode msg with
  | none => false
  | some (req, data) =>
    match req.type with
    | .create => files.unallocated.isNone
    | .chown | .chmod => (files.allocated req.ino).isNone
    | .read | .stat => req.ino.toNat < MAX_FILES && (files.allocated req.ino).isNone
    | .write => (files.allocated req.ino).isNone || req.size.toNat ≠ data.length
    | .setsize => (files.allocated req.ino).all fun file => file.stat.stSize < req.offset
    | .delete | .setFlags | .unknown => false

end Egos.Ramfile
