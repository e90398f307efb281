import Egos.Grass.Machine
import Egos.Grass.Spawnsvr

/-! The spawn server (grass/spawnsvr.c) among the processes: what it asks of the kernel for
the senders of its requests. Main creates the servers; the others neither create nor kill
processes. What a new process does with its request is in `Grass/Spawnsvr.lean`. -/

namespace Egos.Grass
open Library
open Spawnsvr (requestSize receiveSize SPAWN_EXEC SPAWN_KILL SPAWN_GETUID)

/-- A process, told from the others that have had its slot by how many have. -/
structure Identity where
  slot : Slot
  birth : Nat
  deriving DecidableEq

namespace Kernel

def births (k : Kernel) (p : Slot) : Nat := k.lives.count (.created p)

def identity (k : Kernel) (p : Slot) : Identity := { slot := p, birth := k.births p }

/-- The process has not been removed from the process table. -/
def Present (k : Kernel) (process : Identity) : Prop :=
  (k.procSet process.slot).state ≠ .free ∧ k.births process.slot = process.birth

instance (k : Kernel) (process : Identity) : Decidable (k.Present process) := inferInstanceAs (Decidable (_ ∧ _))

end Kernel

namespace Spawning

/-- The ghosts `sender` and `uid` are the process that has sent the message and its uid. -/
structure Request where
  src : Pid
  contents : List UInt8
  sender : Identity
  uid : Uid

/-- `pending` are the requests that the spawn server has not handled yet, in its mailbox or received. -/
structure System where
  machine : Machine
  server : Option Identity
  pending : List Request

def System.kernel (s : System) : Kernel := s.machine.kernel

/-- An unsigned field of `struct spawn_request`. -/
def field (req : List UInt8) (offset : Nat) : UInt32 := .ofNat (Memory.load32 (fun i => req.getD i 0) offset)

/-- The answer is left out. It waits until the server has the CPU again. -/
def spawnDoExec (req : List UInt8) (src : Pid) (now : Time) : Kern Turn :=
  if field req 12 ≠ .ofNat (req.length - requestSize) then pure .running
  else procCreateUid src (field req 20) now

def spawnDoKill (req : List UInt8) (src : Pid) : Kern Turn := procKill src (field req 4) (field req 8)

/-- One turn of the loop in spawn_proc, once it has received a request. -/
def spawnProc (contents : List UInt8) (src : Pid) (now : Time) : Kern Turn :=
  let req := contents.take receiveSize
  if req.length < requestSize then .halt (.assertion "spawn_proc" "req_size >= (int) sizeof(*req)")
  else if (field req 0).toNat = SPAWN_EXEC then spawnDoExec req src now
  else if (field req 0).toNat = SPAWN_KILL then spawnDoKill req src
  else if (field req 0).toNat = SPAWN_GETUID then pure .running
  else .halt (.assertion "spawn_proc" "0")

/-- sys_rpc with this pid puts a message into the mailbox of the spawn server. -/
def System.reaches (s : System) (pid : Pid) : Bool :=
  pid ≠ s.kernel.current.pid && (s.kernel.procFind pid).any fun p =>
    s.server = some (s.kernel.identity p) && (s.kernel.procSet p).state ≠ .zombie

/-- The requests that the event sends to the spawn server. -/
def System.sent (s : System) : Grass.Event → List Request
  | .call (.rpc pid contents _ _) =>
    if s.reaches pid then
      [{ src := s.kernel.current.pid, contents, sender := s.kernel.identity s.kernel.procCurrent, uid := s.kernel.current.uid }]
    else []
  | _ => []

inductive Event where
  | kernel (event : Grass.Event)
  | spawnInit (now : Time)
  | serve (now : Time)

/-- What the other processes and the devices do. Only sys_rpc sends requests. -/
def Plain : Grass.Event → Prop
  | .call (.create owner uid _) => owner = 1 ∧ uid = 0
  | .call (.kill ..) => False
  | .call (.procSend _ _ mtype _) => mtype ≠ .request
  | .interrupt (.procSend _ _ mtype _) => mtype ≠ .request
  | _ => True

instance (event : Grass.Event) : Decidable (Plain event) := by
  unfold Plain
  split <;> infer_instance

/-- The process that the step has created, if any. -/
def newest (before after : Kernel) : Option Identity :=
  if before.births after.procCurrent < after.births after.procCurrent then some (after.identity after.procCurrent)
    else none

inductive Step : System → Event → System → Prop where
  | kernel {s event after} : Plain event → Grass.Step s.machine event after →
      Step s (.kernel event) { s with machine := after, pending := s.pending ++ s.sent event }
  | spawnInit {s now after} : s.server = none → Grass.Step s.machine (.call (.create 1 0 now)) after →
      Step s (.spawnInit now) { s with machine := after, server := newest s.kernel after.kernel }
  | serve {s kernel request rest now} : s.machine = ⟨kernel, .running⟩ →
      s.server = some (kernel.identity kernel.procCurrent) →
      s.pending = request :: rest →
      Step s (.serve now) { s with machine := .after (spawnProc request.contents request.src now kernel), pending := rest }

def begun : System := { machine := booted, server := none, pending := [] }

end Spawning
end Egos.Grass
