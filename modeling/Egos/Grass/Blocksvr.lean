import Egos.Grass.Blkfile

/-! The block server (blocksvr.c): a table of block stores, one for each inode. What the stores
do is left to the calls of their methods. -/

namespace Egos.Blocksvr
open Library Files
open Grass (Pid)
open Disk (BLOCK_SIZE)
open Blkfile (MAX_INODES)

/-- The two types of block_init. -/
inductive Kind where
  | phys
  | virt

/-- `n_inodes`: the physical disk has a paging partition and a file partition. -/
def Kind.nInodes : Kind → Nat
  | .phys => 2
  | .virt => MAX_INODES

inductive BlockOp where
  | read
  | write
  | getsize
  | setsize
  /-- BLOCK_UNUSED, or no value of the enumeration. -/
  | unknown
  deriving DecidableEq

def BlockOp.ofCode (code : UInt32) : BlockOp :=
  match code.toNat with
  | 1 => .read
  | 2 => .write
  | 3 => .getsize
  | 4 => .setsize
  | _ => .unknown

/-- `struct block_request` -/
structure BlockRequest where
  type : BlockOp
  ino : UInt32
  offsetNblock : UInt32

/-- sizeof(struct block_request) -/
def requestSize : Nat := 12

/-- The size of a pointer, which block_proc takes for that of a request. -/
def pointerSize : Nat := 8

/-- What the server finds in its buffer: the request, and the data after it. -/
def BlockRequest.decode (msg : List UInt8) : Option (BlockRequest × List UInt8) :=
  let received := msg.take (pointerSize + PAGESIZE)
  if received.length < requestSize then none
  else
    let req : BlockRequest := { type := .ofCode (wordAt received 0), ino := wordAt received 4, offsetNblock := wordAt received 8 }
    some (req, received.drop requestSize)

/-- `struct block_reply` with the block that may follow it. -/
structure BlockReply where
  status : Status
  sizeNblock : UInt32
  data : Option DataBlock

/-- Replies, and the methods of the stores in the table. -/
inductive Call (nInodes : Nat) where
  | send (dst : Pid) (reply : BlockReply)
  | read (virt : Fin nInodes) (offset : UInt32)
  | write (virt : Fin nInodes) (offset : UInt32) (block : DataBlock)
  | nblocks (virt : Fin nInodes)
  | setsize (virt : Fin nInodes) (nblocks : UInt32)

/-- `none` and `false` stand for negative results. -/
abbrev Call.Reply {nInodes : Nat} : Call nInodes → Type
  | .send .. => Unit
  | .read .. => Option DataBlock
  | .write .. => Bool
  | .nblocks _ => UInt32
  | .setsize .. => Bool

abbrev BlockServer (nInodes : Nat) := Effect (@Call.Reply nInodes) Halt

variable {nInodes : Nat}

def call (c : Call nInodes) : BlockServer nInodes c.Reply := .perform c

/-- block_respond, which is given no data. -/
def blockRespond (status : Status) (src : Pid) : BlockServer nInodes Unit :=
  call (.send src { status, sizeNblock := 0, data := none })

/-- `bss->inodes[ino]` -/
def inode (ino : UInt32) : BlockServer nInodes (Fin nInodes) :=
  if inside : ino.toNat < nInodes then pure ⟨ino.toNat, inside⟩ else .halt (.outOfBounds "inodes")

def blockDoRead (req : BlockRequest) (src : Pid) : BlockServer nInodes Unit :=
  if MAX_INODES ≤ req.ino.toNat then blockRespond .error src
  else do
    let virt ← inode req.ino
    match ← call (.read virt req.offsetNblock) with
    | none => blockRespond .error src
    | some block => call (.send src { status := .ok, sizeNblock := 1, data := some block })

/-- The number of blocks after the request. -/
def dataBlocks (data : List UInt8) : Nat := data.length / BLOCK_SIZE

def blockDoWrite (req : BlockRequest) (data : List UInt8) (src : Pid) : BlockServer nInodes Unit :=
  if MAX_INODES ≤ req.ino.toNat then blockRespond .error src
  else if dataBlocks data ≠ 1 then blockRespond .error src
  else do
    let virt ← inode req.ino
    match ← call (.write virt req.offsetNblock fun i => data.getD i 0) with
    | false => blockRespond .error src
    | true => blockRespond .ok src

def blockDoGetsize (req : BlockRequest) (src : Pid) : BlockServer nInodes Unit :=
  if MAX_INODES ≤ req.ino.toNat then blockRespond .error src
  else do
    let virt ← inode req.ino
    let size ← call (.nblocks virt)
    call (.send src { status := .ok, sizeNblock := size, data := none })

def blockDoSetsize (req : BlockRequest) (src : Pid) : BlockServer nInodes Unit :=
  if MAX_INODES ≤ req.ino.toNat then blockRespond .error src
  else do
    let virt ← inode req.ino
    match ← call (.setsize virt req.offsetNblock) with
    | false => blockRespond .error src
    | true => blockRespond .ok src

/-- The switch of block_proc. -/
def handle (req : BlockRequest) (data : List UInt8) (src : Pid) : BlockServer nInodes Unit :=
  match req.type with
  | .read => blockDoRead req src
  | .write => blockDoWrite req data src
  | .getsize => blockDoGetsize req src
  | .setsize => blockDoSetsize req src
  | .unknown => .halt (.assertion "block_proc" "0")

/-- One turn of the loop of block_proc. -/
def serve (msg : List UInt8) (src : Pid) : BlockServer nInodes Unit :=
  match BlockRequest.decode msg with
  | none => .halt (.assertion "block_proc" "req_size >= (int) sizeof(*req)")
  | some (req, data) => handle req data src

end Egos.Blocksvr
