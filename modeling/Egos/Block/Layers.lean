import Egos.Block.Clockdisk
import Egos.Block.FatdiskSteps
import Egos.Block.Partdisk
import Egos.Library.Services

/-! Block stores on top of other block stores (grass/block/block_store.h): each module as a layer
that makes calls of the methods of the store below. -/

namespace Egos.Disk
open Library

/-- The methods of a `block_store_t`. A read is given the buffer of the caller. -/
inductive Method where
  | nblocks
  | read (offset : BlockNo) (buffer : Block)
  | write (offset : BlockNo) (block : Block)
  | setsize (nblocks : BlockNo)

/-- A result code, and the buffer after a read. -/
abbrev Method.Reply : Method → Type
  | .nblocks => Int
  | .read .. => Int × Block
  | .write .. => Int
  | .setsize _ => Int

variable {ε σ κ : Type}

def call (method : Method) : Effect Method.Reply ε method.Reply := Effect.perform method

/-- A store that is told by what its methods return. -/
def store (b : Clockdisk.BlockIf σ) : Service Method.Reply ε σ := fun method s =>
  match method with
  | .nblocks => .done (b.nblocks s) s
  | .read offset buffer => .done (b.read s offset buffer) s
  | .write offset block => .done (b.write s offset block).1 (b.write s offset block).2
  | .setsize nblocks => .done (b.setsize s nblocks).1 (b.setsize s nblocks).2

/-- partdisk.c. The size is an `int` where it is returned. -/
def partdisk : Layer Method.Reply Method.Reply ε Partdisk.Part := fun method part =>
  match method with
  | .nblocks => pure (part.nblocks.toInt32.toInt, part)
  | .setsize nblocks => pure (part.nblocks.toInt32.toInt, part.setsize nblocks)
  | .read offset buffer =>
    if offset ≥ part.nblocks then pure ((-1, buffer), part)
    else do return (← call (.read (part.delta + offset) buffer), part)
  | .write offset block =>
    if offset ≥ part.nblocks then pure (-1, part)
    else do return (← call (.write (part.delta + offset) block), part)

section Clockdisk
open Clockdisk (State)
variable {nblocks : BlockNo} [NeZero nblocks.toNat]

/-- The end of clockdisk_read and clockdisk_write. -/
def cacheUpdate (stop : Clockdisk.Halt → ε) (offset : BlockNo) (block : Block) (own : State Unit nblocks) :
    Effect Method.Reply ε (State Unit nblocks) :=
  match Clockdisk.cacheUpdate offset block own with
  | .done () after => pure after
  | .halted reason _ => .halt (stop reason)

/-- The entries that are past the new end are dropped. -/
def dropPast (size : BlockNo) (own : State Unit nblocks) : State Unit nblocks :=
  { own with binfo := fun i =>
      if (own.binfo i).status ≠ .empty ∧ (own.binfo i).offset ≥ size then { own.binfo i with status := .empty }
        else own.binfo i }

/-- clockdisk.c, on top of a store that its state does not hold. -/
def clockdisk (stop : Clockdisk.Halt → ε) : Layer Method.Reply Method.Reply ε (State Unit nblocks) := fun method own =>
  match method with
  | .nblocks => do return (← call .nblocks, own)
  | .setsize size => do
    let result ← call (.setsize size)
    return (result, dropPast size own)
  | .read offset buffer =>
    match own.lookup offset with
    | some i => pure ((0, own.blocks i), { own.setStatus i .used with readHit := own.readHit + 1 })
    | none => do
      let answer ← call (.read offset buffer)
      let missed := { own with readMiss := own.readMiss + 1 }
      if answer.1 = -1 then return (answer, missed)
      else return (answer, ← cacheUpdate stop offset answer.2 missed)
  | .write offset block =>
    match own.lookup offset with
    | some i => do
      let result ← call (.write offset block)
      let hit := own.setStatus i .used
      if result = -1 then return (-1, hit)
      else return (result, { hit with writeHit := hit.writeHit + 1 }.setBlock i block)
    | none => do
      let result ← call (.write offset block)
      if result = -1 then return (-1, own)
      else return (result, ← cacheUpdate stop offset block { own with writeMiss := own.writeMiss + 1 })

end Clockdisk

/-- The accesses of the FAT file system; its static variable is kept here. -/
def fatAccess : Layer Fatdisk.Access.Reply Method.Reply ε BlockNo := fun access fatblocks =>
  match access with
  | .size => do
    let size ← call .nblocks
    return (.ofInt size, fatblocks)
  | .read offset => do
    let (result, block) ← call (.read offset nullBlock)
    return (if result < 0 then none else some block, fatblocks)
  | .write offset block => do
    let result ← call (.write offset block)
    return (decide (0 ≤ result), fatblocks)
  | .fatblocks => pure (fatblocks, fatblocks)
  | .setFatblocks nFatblocks => pure ((), nFatblocks)

end Egos.Disk
