import Egos.Block.Store
import Mathlib.Logic.Function.Basic

/-! Partitions of a block store (grass/block/partdisk.c), and the two that the physical block
server makes of a disk (block_init in grass/blocksvr.c). -/

namespace Egos.Partdisk
open Disk

/-- `struct partdisk_state`, less the store below. -/
structure Part where
  delta : BlockNo
  nblocks : BlockNo

namespace Part

/-- partdisk_setsize -/
def setsize (nblocks : BlockNo) (part : Part) : Part := { part with nblocks }

/-- partdisk_read -/
def read (part : Part) (below : Store) (offset : BlockNo) : Option Block :=
  if offset ≥ part.nblocks then none else below.read (part.delta + offset)

/-- partdisk_write -/
def write (part : Part) (below : Store) (offset : BlockNo) (block : Block) : Option Store :=
  if offset ≥ part.nblocks then none else below.write (part.delta + offset) block

end Part

inductive Partition where
  | page
  | file
  deriving DecidableEq

def Partition.other : Partition → Partition
  | .page => .file
  | .file => .page

/-- A block store with two partitions. -/
structure Volume where
  part : Partition → Part
  below : Store

/-- Blocks of the physical disk (blocksvr.c) and of its paging partition. -/
def DISK_SIZE : BlockNo := 16 * 1024

def PG_DEV_BLOCKS : BlockNo := 4096

/-- The partitions of the physical block server. -/
def blockInit (below : Store) : Volume where
  part
    | .page => { delta := 0, nblocks := PG_DEV_BLOCKS }
    | .file => { delta := PG_DEV_BLOCKS, nblocks := DISK_SIZE - PG_DEV_BLOCKS }
  below

inductive Call where
  | read (offset : BlockNo)
  | write (offset : BlockNo) (block : Block)
  | setsize (nblocks : BlockNo)

/-- What a call returns: a block that is read, 0 or -1 of a write, the old size. -/
inductive Reply where
  | block (contents : Option Block)
  | status (ok : Bool)
  | size (before : Int)

/-- A call on a partition. The size before a resize is returned as an `int`. -/
def exec (volume : Volume) (p : Partition) : Call → Volume × Reply
  | .read offset => (volume, .block ((volume.part p).read volume.below offset))
  | .write offset block =>
    match (volume.part p).write volume.below offset block with
    | some below => ({ volume with below }, .status true)
    | none => (volume, .status false)
  | .setsize nblocks =>
    ({ volume with part := Function.update volume.part p ((volume.part p).setsize nblocks) },
      .size (volume.part p).nblocks.toInt32.toInt)

def run (volume : Volume) (calls : List (Partition × Call)) : Volume :=
  calls.foldl (fun volume call => (exec volume call.1 call.2).1) volume

end Egos.Partdisk
