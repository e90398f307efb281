import Egos.Library.Program
import Egos.Block.Store

/-! clockdisk.c: a write-through cache in front of any block store. The store below is
a record of operations on a state of its own. -/

namespace Egos.Clockdisk
open Library Disk

/-- The operations of a `block_store_t`. A read leaves its buffer with the contents given
beside the result code. -/
structure BlockIf (σ : Type) where
  nblocks : σ → Int
  read : σ → BlockNo → Block → Int × Block
  write : σ → BlockNo → Block → Int × σ
  setsize : σ → BlockNo → Int × σ

inductive Status where
  | empty
  | unused
  | used
  deriving DecidableEq

structure BlockInfo where
  status : Status
  offset : BlockNo

/-- `struct clockdisk_state` with `nblocks` cache entries. -/
structure State (σ : Type) (nblocks : BlockNo) where
  below : σ
  blocks : Fin nblocks.toNat → Block
  binfo : Fin nblocks.toNat → BlockInfo
  clockHand : UInt32
  readHit : UInt32
  readMiss : UInt32
  writeHit : UInt32
  writeMiss : UInt32

inductive Halt where
  /-- The loop of cache_update goes on. -/
  | spins

abbrev Clock (σ : Type) (nblocks : BlockNo) := Prog (State σ nblocks) Halt

variable {σ : Type} {nblocks : BlockNo} [NeZero nblocks.toNat]

namespace State

omit [NeZero nblocks.toNat] in
def setStatus (s : State σ nblocks) (i : Fin nblocks.toNat) (status : Status) : State σ nblocks :=
  { s with binfo := Function.update s.binfo i { s.binfo i with status } }

omit [NeZero nblocks.toNat] in
def setBlock (s : State σ nblocks) (i : Fin nblocks.toNat) (block : Block) : State σ nblocks :=
  { s with blocks := Function.update s.blocks i block }

/-- The entry under the clock hand. -/
def hand (s : State σ nblocks) : Fin nblocks.toNat := Fin.ofNat nblocks.toNat (s.clockHand % nblocks).toNat

omit [NeZero nblocks.toNat] in
/-- The first entry that caches the block. -/
def lookup (s : State σ nblocks) (offset : BlockNo) : Option (Fin nblocks.toNat) :=
  (List.finRange nblocks.toNat).find?
    fun i => decide ((s.binfo i).offset = offset) && decide ((s.binfo i).status ≠ .empty)

end State

def cacheLoop (offset : BlockNo) (block : Block) : Nat → Clock σ nblocks Unit
  | 0 => .halt .spins
  | rounds + 1 => do
    let s ← .get
    match (s.binfo s.hand).status with
    | .used =>
      .modify (·.setStatus s.hand .unused)
      .modify fun s => { s with clockHand := s.clockHand + 1 }
      cacheLoop offset block rounds
    | _ =>
      .modify fun s => { s with binfo := Function.update s.binfo s.hand { status := .used, offset } }
      .modify (·.setBlock s.hand block)
      .modify fun s => { s with clockHand := s.clockHand + 1 }

def cacheUpdate (offset : BlockNo) (block : Block) : Clock σ nblocks Unit := do
  .modify fun s => { s with clockHand := if s.clockHand > nblocks then s.clockHand % nblocks else s.clockHand }
  cacheLoop offset block (nblocks.toNat + 1)

section Operations
variable (below : BlockIf σ)

omit [NeZero nblocks.toNat] in
def clockdiskNblocks : Clock σ nblocks Int := do
  let s ← .get
  pure (below.nblocks s.below)

omit [NeZero nblocks.toNat] in
def clockdiskSetsize (size : BlockNo) : Clock σ nblocks Int := do
  .modify fun s => { s with binfo := fun i =>
    if (s.binfo i).status ≠ .empty ∧ (s.binfo i).offset ≥ size then { s.binfo i with status := .empty } else s.binfo i }
  let s ← .get
  .modify fun s => { s with below := (below.setsize s.below size).2 }
  pure (below.setsize s.below size).1

/-- The result code, and what is in the buffer afterwards. -/
def clockdiskRead (offset : BlockNo) (block : Block) : Clock σ nblocks (Int × Block) := do
  let s ← .get
  match s.lookup offset with
  | some i =>
    .modify (·.setStatus i .used)
    .modify fun s => { s with readHit := s.readHit + 1 }
    pure (0, s.blocks i)
  | none =>
    .modify fun s => { s with readMiss := s.readMiss + 1 }
    match decide ((below.read s.below offset block).1 = -1) with
    | true => pure (below.read s.below offset block)
    | false =>
      cacheUpdate offset (below.read s.below offset block).2
      pure (below.read s.below offset block)

def clockdiskWrite (offset : BlockNo) (block : Block) : Clock σ nblocks Int := do
  let s ← .get
  match s.lookup offset with
  | some i => .modify (·.setStatus i .used)
  | none => pure ()
  .modify fun s => { s with below := (below.write s.below offset block).2 }
  match decide ((below.write s.below offset block).1 = -1) with
  | true => pure (-1)
  | false =>
    match s.lookup offset with
    | none =>
      .modify fun s => { s with writeMiss := s.writeMiss + 1 }
      cacheUpdate offset block
    | some i =>
      .modify fun s => { s with writeHit := s.writeHit + 1 }
      .modify (·.setBlock i block)
    pure (below.write s.below offset block).1

end Operations

omit [NeZero nblocks.toNat] in
/-- The cache starts empty; its memory may hold anything. -/
def clockdiskInit (below : σ) (blocks : Fin nblocks.toNat → Block) : State σ nblocks :=
  { below, blocks, binfo := fun _ => { status := .empty, offset := 0 }, clockHand := 0, readHit := 0,
    readMiss := 0, writeHit := 0,
    writeMiss := 0 }

inductive Call where
  | nblocks
  | setsize (size : BlockNo)
  | read (offset : BlockNo) (buffer : Block)
  | write (offset : BlockNo) (block : Block)

/-- A result code and, for a read, the buffer. -/
abbrev Answer := Int × Option Block

/-- A call of the cache. -/
def Call.perform (below : BlockIf σ) : Call → Clock σ nblocks Answer
  | .nblocks => do
    let code ← clockdiskNblocks below
    pure (code, none)
  | .setsize size => do
    let code ← clockdiskSetsize below size
    pure (code, none)
  | .read offset buffer => do
    let answer ← clockdiskRead below offset buffer
    pure (answer.1, some answer.2)
  | .write offset block => do
    let code ← clockdiskWrite below offset block
    pure (code, none)

/-- The same call of the store below. -/
def Call.direct (below : BlockIf σ) (s : σ) : Call → Answer × σ
  | .nblocks => ((below.nblocks s, none), s)
  | .setsize size => (((below.setsize s size).1, none), (below.setsize s size).2)
  | .read offset buffer => (((below.read s offset buffer).1, some (below.read s offset buffer).2), s)
  | .write offset block => (((below.write s offset block).1, none), (below.write s offset block).2)

def performAll (below : BlockIf σ) : List Call → Clock σ nblocks (List Answer)
  | [] => pure []
  | call :: rest => do
    let answer ← call.perform below
    let answers ← performAll below rest
    pure (answer :: answers)

def directAll (below : BlockIf σ) : List Call → σ → List Answer × σ
  | [], s => ([], s)
  | call :: rest, s =>
    let (answer, s) := call.direct below s
    let (answers, s) := directAll below rest s
    (answer :: answers, s)

/-- A block store that is an array of blocks of its current size. A write or a change
of the size may fail at any time; whatever decides that may be part of the state. -/
structure IsArray (below : BlockIf σ) (size : σ → Nat) (contents : σ → BlockNo → Block) : Prop where
  read : ∀ s offset buffer, offset.toNat < size s → below.read s offset buffer = (0, contents s offset)
  readPast : ∀ s offset buffer, size s ≤ offset.toNat → (below.read s offset buffer).1 = -1
  write : ∀ s offset block, (below.write s offset block).1 ≠ -1 →
    offset.toNat < size s ∧ size (below.write s offset block).2 = size s ∧
      ∀ other, other.toNat < size s → contents (below.write s offset block).2 other =
        if other = offset then block else contents s other
  writeFails : ∀ s offset block, (below.write s offset block).1 = -1 →
    size (below.write s offset block).2 = size s ∧
      ∀ other, other.toNat < size s → contents (below.write s offset block).2 other = contents s other
  setsize : ∀ s count, (below.setsize s count).1 ≠ -1 → size (below.setsize s count).2 = count.toNat ∧
    ∀ other, other.toNat < size s → other < count → contents (below.setsize s count).2 other = contents s other
  setsizeFails : ∀ s count, (below.setsize s count).1 = -1 → size (below.setsize s count).2 = size s ∧
    ∀ other, other.toNat < size s → contents (below.setsize s count).2 other = contents s other

end Egos.Clockdisk
