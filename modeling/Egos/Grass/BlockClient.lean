import Egos.Grass.Blocksvr
import Egos.Library.Faults
import Egos.Library.Services

/-! The client side of the block servers (shared/block.c), and what a server process does with
the message of a client that waits for the reply. -/

namespace Egos.BlockClient
open Library Files Blocksvr
open Grass (Pid bytesOf)
open Disk (BLOCK_SIZE)

/-- A call of sys_rpc. -/
structure Rpc where
  msg : List UInt8
  repsize : Nat

/-- What has been copied of the reply; `none` stands for -1. -/
abbrev Rpc.Reply : Rpc → Type := fun _ => Option (List UInt8)

inductive BlockCall where
  | read (ino offset : UInt32)
  | write (ino offset : UInt32) (data : DataBlock)
  | getsize (ino : UInt32)
  | setsize (ino size : UInt32)

/-- `none` and `false` stand for False. -/
abbrev BlockCall.Reply : BlockCall → Type
  | .read .. => Option DataBlock
  | .write .. => Bool
  | .getsize _ => Option UInt32
  | .setsize .. => Bool

/-- sizeof(struct block_reply) -/
def replySize : Nat := 8

/-- `struct block_request` -/
def request (type ino offset : UInt32) : List UInt8 := bytesOf type ++ bytesOf ino ++ bytesOf offset

def BLOCK_READ : UInt32 := 1
def BLOCK_WRITE : UInt32 := 2
def BLOCK_GETSIZE : UInt32 := 3
def BLOCK_SETSIZE : UInt32 := 4

def BLOCK_OK : UInt32 := 0
def BLOCK_ERROR : UInt32 := 1

variable {ε κ σ : Type}

def rpc (msg : List UInt8) (repsize : Nat) : Effect Rpc.Reply ε (Option (List UInt8)) :=
  @Effect.perform _ Rpc.Reply ε { msg, repsize }

/-- The block that block_read finds in the reply. -/
def readReply : Option (List UInt8) → Option DataBlock
  | none => none
  | some reply =>
    if reply.length < replySize + BLOCK_SIZE then none
    else if wordAt reply 0 ≠ BLOCK_OK then none
    else some fun i => reply.getD (replySize + i) 0

def sizeReply : Option (List UInt8) → Option UInt32
  | none => none
  | some reply =>
    if reply.length < replySize then none
    else if wordAt reply 0 = BLOCK_OK then some (wordAt reply 4)
    else none

def statusReply : Option (List UInt8) → Bool
  | none => false
  | some reply => !(reply.length < replySize) && wordAt reply 0 = BLOCK_OK

def blockRead (ino offset : UInt32) : Effect Rpc.Reply ε (Option DataBlock) := do
  return readReply (← rpc (request BLOCK_READ ino offset) (replySize + BLOCK_SIZE))

def blockWrite (ino offset : UInt32) (data : DataBlock) : Effect Rpc.Reply ε Bool := do
  return statusReply (← rpc (request BLOCK_WRITE ino offset ++ List.ofFn data) replySize)

def blockGetsize (ino : UInt32) : Effect Rpc.Reply ε (Option UInt32) := do
  return sizeReply (← rpc (request BLOCK_GETSIZE ino 0) replySize)

def blockSetsize (ino size : UInt32) : Effect Rpc.Reply ε Bool := do
  return statusReply (← rpc (request BLOCK_SETSIZE ino size) replySize)

/-- The functions of shared/block.c on top of sys_rpc. -/
def blockCalls : Layer BlockCall.Reply Rpc.Reply ε Unit := fun call own =>
  match call with
  | .read ino offset => do return (← blockRead ino offset, own)
  | .write ino offset data => do return (← blockWrite ino offset data, own)
  | .getsize ino => do return (← blockGetsize ino, own)
  | .setsize ino size => do return (← blockSetsize ino size, own)

/-- The bytes of a `struct block_reply` with what follows it. -/
def encode (reply : BlockReply) : List UInt8 :=
  bytesOf (match reply.status with | .ok => BLOCK_OK | .error => BLOCK_ERROR) ++ bytesOf reply.sizeNblock ++
    (match reply.data with | some data => List.ofFn data | none => [])

/-- The reply that the client gets out of those that were sent. -/
def answer (src : Pid) (repsize : Nat) (sent : List (Pid × BlockReply)) : Option (List UInt8) :=
  (sent.find? (·.1 = src)).map fun reply => (encode reply.2).take repsize

/-- The methods of the stores that a block server has in its table. -/
structure Table {Op : Type} (Answer : Op → Type) (ε κ : Type) (nInodes : Nat) where
  read : Fin nInodes → UInt32 → κ → Effect Answer ε (Option DataBlock × κ)
  write : Fin nInodes → UInt32 → DataBlock → κ → Effect Answer ε (Bool × κ)
  nblocks : Fin nInodes → κ → Effect Answer ε (UInt32 × κ)
  setsize : Fin nInodes → UInt32 → κ → Effect Answer ε (Bool × κ)

section Server
variable {Op : Type} {Answer : Op → Type} {nInodes : Nat}

/-- Replies are put aside. -/
def Table.serve (table : Table Answer ε κ nInodes) :
    Layer (@Call.Reply nInodes) Answer ε (κ × List (Pid × BlockReply)) := fun call own =>
  match call with
  | .send dst reply => pure ((), (own.1, own.2 ++ [(dst, reply)]))
  | .read virt offset => do
    let (block, last) ← table.read virt offset own.1
    pure (block, (last, own.2))
  | .write virt offset block => do
    let (success, last) ← table.write virt offset block own.1
    pure (success, (last, own.2))
  | .nblocks virt => do
    let (size, last) ← table.nblocks virt own.1
    pure (size, (last, own.2))
  | .setsize virt nblocks => do
    let (success, last) ← table.setsize virt nblocks own.1
    pure (success, (last, own.2))

/-- The block server has handled the request before the client goes on. -/
def Table.server (table : Table Answer ε κ nInodes) (stops : Halt → ε) (src : Pid) :
    Layer Rpc.Reply Answer ε κ := fun rpc own => do
  let ((), last, sent) ← ((Blocksvr.serve rpc.msg src).renameHalts stops).through table.serve (own, [])
  pure (answer src rpc.repsize sent, last)

end Server
end Egos.BlockClient
