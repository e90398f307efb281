import Egos.Block.Store
import Mathlib.Data.List.FinRange

/-! Mirrored block stores (grass/block/raid1disk.c). Each call of an underlying store may
fail whenever it is made, and changes nothing then. -/

namespace Egos.Raid1disk
open Disk

/-- `struct raid1disk_state` -/
structure Raid1 (n : Nat) where
  below : Fin n → Store
  broken : Fin n → Bool

namespace Raid1
variable {n : Nat}

/-- raid1disk_init -/
def init (below : Fin n → Store) : Raid1 n := { below, broken := fun _ => false }

def markBroken (i : Fin n) (raid : Raid1 n) : Raid1 n := { raid with broken := Function.update raid.broken i true }

def setBelow (i : Fin n) (store : Store) (raid : Raid1 n) : Raid1 n :=
  { raid with below := Function.update raid.below i store }

/-- The loop of raid1disk_nblocks over the stores that are left. In every round it is the
first store that is asked for its size; `fails i` is the outcome in round `i`. -/
def nblocksFrom (fails : Fin n → Bool) : List (Fin n) → Raid1 n → Raid1 n × Option BlockNo
  | [], raid => (raid, none)
  | i :: rest, raid =>
    if raid.broken i then nblocksFrom fails rest raid
    else if fails i then nblocksFrom fails rest (raid.markBroken i)
    else (raid, some (raid.below ⟨0, i.pos⟩).size)

def nblocks (fails : Fin n → Bool) (raid : Raid1 n) : Raid1 n × Option BlockNo :=
  nblocksFrom fails (List.finRange n) raid

/-- The underlying read of store `i`, where it is not made to fail. -/
def readBelow (fails : Fin n → Bool) (offset : BlockNo) (i : Fin n) (raid : Raid1 n) : Option Block :=
  if fails i then none else (raid.below i).read offset

def readFrom (fails : Fin n → Bool) (offset : BlockNo) (raid : Raid1 n) : List (Fin n) → Option Block
  | [] => none
  | i :: rest =>
    if raid.broken i then readFrom fails offset raid rest
    else
      match raid.readBelow fails offset i with
      | some block => some block
      | none => readFrom fails offset raid rest

def read (fails : Fin n → Bool) (offset : BlockNo) (raid : Raid1 n) : Option Block :=
  readFrom fails offset raid (List.finRange n)

def writeBelow (fails : Fin n → Bool) (offset : BlockNo) (block : Block) (i : Fin n) (raid : Raid1 n) : Option Store :=
  if fails i then none else (raid.below i).write offset block

/-- The loop of raid1disk_write; `result` tells whether a store has been written. -/
def writeFrom (fails : Fin n → Bool) (offset : BlockNo) (block : Block) : List (Fin n) → Raid1 n → Bool → Raid1 n × Bool
  | [], raid, result => (raid, result)
  | i :: rest, raid, result =>
    if raid.broken i then writeFrom fails offset block rest raid result
    else
      match raid.writeBelow fails offset block i with
      | none => writeFrom fails offset block rest (raid.markBroken i) result
      | some store => writeFrom fails offset block rest (raid.setBelow i store) true

def write (fails : Fin n → Bool) (offset : BlockNo) (block : Block) (raid : Raid1 n) : Raid1 n × Bool :=
  writeFrom fails offset block (List.finRange n) raid false

end Raid1

/-- A call, with the underlying calls that fail while it is served. -/
inductive Call (n : Nat) where
  | nblocks (fails : Fin n → Bool)
  | read (offset : BlockNo) (fails : Fin n → Bool)
  | write (offset : BlockNo) (block : Block) (fails : Fin n → Bool)

/-- `none` and `false` stand for -1. -/
inductive Reply where
  | size (nblocks : Option BlockNo)
  | block (contents : Option Block)
  | status (ok : Bool)

variable {n : Nat}

def exec (raid : Raid1 n) : Call n → Raid1 n × Reply
  | .nblocks fails => ((raid.nblocks fails).1, .size (raid.nblocks fails).2)
  | .read offset fails => (raid, .block (raid.read fails offset))
  | .write offset block fails => ((raid.write fails offset block).1, .status (raid.write fails offset block).2)

/-- The calls of a sequence with their replies, and the state after them. -/
def run (raid : Raid1 n) : List (Call n) → Raid1 n × List (Call n × Reply)
  | [] => (raid, [])
  | call :: calls => ((run (exec raid call).1 calls).1, (call, (exec raid call).2) :: (run (exec raid call).1 calls).2)

end Egos.Raid1disk
