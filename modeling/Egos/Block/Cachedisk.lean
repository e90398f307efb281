import Egos.Block.Layers

/-! The write-through cache as far as it is implemented (grass/block/cachedisk.c): no entry of
the table is ever set. -/

namespace Egos.Cachedisk
open Library
open Disk

variable {nblocks : BlockNo}

/-- `struct cachedisk_state` without the store below and the statistics of hits. -/
structure State (nblocks : BlockNo) where
  blocks : Fin nblocks.toNat → Block
  cachenoToBlockno : Fin nblocks.toNat → BlockNo
  readMiss : Nat
  writeMiss : Nat

/-- -1 as a block number -/
def UNUSED : BlockNo := 0xFFFFFFFF

/-- cachedisk_init, whose loop is like that of `search` -/
def State.init (blocks : Fin nblocks.toNat → Block) : State nblocks :=
  { blocks, cachenoToBlockno := fun _ => UNUSED, readMiss := 0, writeMiss := 0 }

/-- The first entry for a block. -/
def State.lookup (own : State nblocks) (offset : BlockNo) : Option (Fin nblocks.toNat) :=
  (List.finRange nblocks.toNat).find? fun i => own.cachenoToBlockno i = offset

/-- The last entry that is not used. -/
def State.unused (own : State nblocks) : Option (Fin nblocks.toNat) :=
  (List.finRange nblocks.toNat).reverse.find? fun i => own.cachenoToBlockno i = UNUSED

def State.setBlock (own : State nblocks) (i : Fin nblocks.toNat) (block : Block) : State nblocks :=
  { own with blocks := Function.update own.blocks i block }

variable {ε : Type}

/-- The loop through the table, which ends at the first entry for the block. Its index is an `int`,
which cannot get to the end of a table of 2^31 entries; `stop` is the reason to halt there. -/
def search (stop : ε) (own : State nblocks) (offset : BlockNo) : Effect Method.Reply ε (Option (Fin nblocks.toNat)) :=
  match own.lookup offset with
  | some i => if i.val < 2 ^ 31 then pure (some i) else .halt stop
  | none => if nblocks.toNat < 2 ^ 31 then pure none else .halt stop

def cachedisk (stop : ε) : Layer Method.Reply Method.Reply ε (State nblocks) := fun method own =>
  match method with
  | .nblocks => do return (← call .nblocks, own)
  | .setsize size => do return (← call (.setsize size), own)
  | .read offset buffer => do
    match ← search stop own offset with
    | some i => pure ((0, own.blocks i), own)
    | none => do return (← call (.read offset buffer), { own with readMiss := own.readMiss + 1 })
  | .write offset block => do
    match ← search stop own offset with
    | some i => do return (← call (.write offset block), own.setBlock i block)
    | none =>
      -- the block is put into memory, but not into the table
      let missed := match own.unused with
        | some j => own.setBlock j block
        | none => own
      do return (← call (.write offset block), { missed with writeMiss := own.writeMiss + 1 })

end Egos.Cachedisk
