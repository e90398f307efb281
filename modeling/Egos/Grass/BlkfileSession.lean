import Egos.Grass.InodeStore
import Egos.Library.Transition

/-! Sessions of the block file server over the array of blocks of every inode, with the process
table of each request. -/

namespace Egos.Blkfile
open Library Files
open Grass (Pid Uid)

structure Request where
  uid : Pid → Option Uid
  src : Pid
  req : FileRequest
  data : List UInt8

/-- A request with all the replies to it. -/
structure Exchange where
  request : Request
  replies : List FileReply

structure Session where
  cache : Cache
  blocks : UInt32 → List DataBlock

namespace Session

def store (s : Session) (uid : Pid → Option Uid) : InodeStore := { blocks := s.blocks, uid, sent := [] }

def handle (s : Session) (request : Request) : Outcome InodeStore Halt Cache :=
  (Blkfile.handle s.cache request.req request.data request.src).run InodeStore.serve (s.store request.uid)

/-- A request is handled to its end. -/
def Step (before : Session) (x : Exchange) (after : Session) : Prop :=
  before.handle x.request =
    .done after.cache { blocks := after.blocks, uid := x.request.uid, sent := x.replies.map fun reply => (x.request.src, reply) }

/-- The state after a request that has these replies. -/
def next (s : Session) (x : Exchange) : Option Session :=
  match s.handle x.request with
  | .halted .. => none
  | .done cache t =>
    if t.sent = x.replies.map fun reply => (x.request.src, reply) then some { cache, blocks := t.blocks } else none

/-- The server has read the table of an empty disk. -/
def Boots (s : Session) : Prop :=
  ∃ uid t, start.run InodeStore.serve (.empty uid) = .done s.cache t ∧ t.blocks = s.blocks

end Session

end Egos.Blkfile
