import Egos.Block.Store
import Egos.Library.Program

/-! The layer that checks a store (grass/block/checkdisk.c). The store below may be faulty:
it may fail, answer anything, and lose or change blocks at any time. -/

namespace Egos.Checkdisk
open Library Disk

/-- What the methods of a `block_store_t` return, and its state afterwards. A read is given
the buffer of the caller. -/
structure BlockStore (σ : Type) where
  nblocks : σ → Int × σ
  read : BlockNo → Block → σ → (Int × Block) × σ
  write : BlockNo → Block → σ → Int × σ
  setsize : BlockNo → σ → Int × σ

/-- `struct block_list` -/
abbrev BlockList := List (BlockNo × Block)

/-- `struct checkdisk_state` -/
structure State (σ : Type) where
  below : σ
  bl : BlockList

/-- `exit(1)` -/
inductive Halt where
  | corrupted
  deriving DecidableEq

abbrev Check (σ : Type) := Prog (State σ) Halt

variable {σ : Type}

/-- A method of the store below. -/
def below {α : Type} (method : σ → α × σ) :
    Check σ α := fun s => .done (method s.below).1 { s with below := (method s.below).2 }

namespace BlockList

/-- The first entry of an offset. -/
def find (bl : BlockList) (offset : BlockNo) : Option Block := (bl.find? fun entry => entry.1 = offset).map Prod.snd

/-- Entries beyond the boundary are removed. -/
def truncate (bl : BlockList) (nblocks : BlockNo) : BlockList := bl.filter fun entry => entry.1 < nblocks

/-- The block of the first entry of the offset is replaced. -/
def replace (offset : BlockNo) (block : Block) : BlockList → BlockList
  | [] => []
  | entry :: rest => if entry.1 = offset then (offset, block) :: rest else entry :: replace offset block rest

/-- The end of checkdisk_write. -/
def enter (bl : BlockList) (offset : BlockNo) (block : Block) : BlockList :=
  match bl.find offset with
  | none => (offset, block) :: bl
  | some _ => replace offset block bl

end BlockList

section Methods
variable (b : BlockStore σ)

def checkdiskNblocks : Check σ Int := below b.nblocks

def checkdiskSetsize (nblocks : BlockNo) : Check σ Int := do
  .modify fun s => { s with bl := s.bl.truncate nblocks }
  below (b.setsize nblocks)

def checkdiskRead (offset : BlockNo) (buffer : Block) : Check σ (Int × Block) := do
  let (result, block) ← below (b.read offset buffer)
  if result < 0 then pure (-1, block)
  else do
    let s ← .get
    match s.bl.find offset with
    | some known => if known ≠ block then .halt .corrupted else pure (0, block)
    | none => do
      .modify fun s => { s with bl := (offset, block) :: s.bl }
      pure (0, block)

def checkdiskWrite (offset : BlockNo) (block : Block) : Check σ Int := do
  let result ← below (b.write offset block)
  if result < 0 then pure result
  else do
    .modify fun s => { s with bl := s.bl.enter offset block }
    pure result

end Methods

inductive Call where
  | nblocks
  | read (offset : BlockNo) (buffer : Block)
  | write (offset : BlockNo) (block : Block)
  | setsize (nblocks : BlockNo)

/-- A call with what it has returned. -/
inductive Event where
  | nblocks (result : Int)
  | read (offset : BlockNo) (result : Int) (block : Block)
  | write (offset : BlockNo) (block : Block) (result : Int)
  | setsize (nblocks : BlockNo) (result : Int)

/-- A call of the layer. -/
def exec (b : BlockStore σ) : Call → Check σ Event
  | .nblocks => do return .nblocks (← checkdiskNblocks b)
  | .read offset buffer => do
    let (result, block) ← checkdiskRead b offset buffer
    return .read offset result block
  | .write offset block => do return .write offset block (← checkdiskWrite b offset block)
  | .setsize nblocks => do return .setsize nblocks (← checkdiskSetsize b nblocks)

/-- The same call of the store below. -/
def BlockStore.exec (b : BlockStore σ) : Call → σ → Event × σ
  | .nblocks, s => (.nblocks (b.nblocks s).1, (b.nblocks s).2)
  | .read offset buffer, s => (.read offset (b.read offset buffer s).1.1 (b.read offset buffer s).1.2,
      (b.read offset buffer s).2)
  | .write offset block, s => (.write offset block (b.write offset block s).1, (b.write offset block s).2)
  | .setsize nblocks, s => (.setsize nblocks (b.setsize nblocks s).1, (b.setsize nblocks s).2)

def run (b : BlockStore σ) : List Call → Check σ (List Event)
  | [] => pure []
  | call :: calls => do
    let event ← exec b call
    let events ← run b calls
    pure (event :: events)

def BlockStore.run (b : BlockStore σ) : List Call → σ → List Event × σ
  | [], s => ([], s)
  | call :: calls, s => ((b.exec call s).1 :: (b.run calls (b.exec call s).2).1, (b.run calls (b.exec call s).2).2)

/-- checkdisk_init -/
def State.init (below : σ) : State σ := { below, bl := [] }

/-! What a client may expect to find at an offset. -/

/-- The contents of each offset that are known after another call. -/
def remember (known : BlockNo → Option Block) : Event → BlockNo → Option Block
  | .nblocks _ => known
  | .read offset result block | .write offset block result =>
      if result < 0 then known else Function.update known offset (some block)
  | .setsize nblocks _ => fun offset => if offset < nblocks then known offset else none

/-- The block last read or written at each offset since the last cut before it. -/
def known (events : List Event) : BlockNo → Option Block := events.foldl remember fun _ => none

/-- The store is an array: blocks that it holds are read as they are, change by writes only, and stay in
the array unless they are cut off. -/
structure IsArray (b : BlockStore σ) (contents : σ → BlockNo → Option Block) : Prop where
  nblocks : ∀ s i block, contents s i = some block → contents (b.nblocks s).2 i = some block
  reads : ∀ s offset buffer, (b.read offset buffer s).1.1 = 0 ∨ (b.read offset buffer s).1.1 = -1
  read : ∀ s offset buffer, (b.read offset buffer s).1.1 = 0 →
    contents (b.read offset buffer s).2 offset = some (b.read offset buffer s).1.2
  unread : ∀ s offset buffer i block, contents s i = some block → contents (b.read offset buffer s).2 i = some block
  written : ∀ s offset block, 0 ≤ (b.write offset block s).1 → contents (b.write offset block s).2 offset = some block
  unwritten : ∀ s offset block i held, (b.write offset block s).1 < 0 ∨ i ≠ offset → contents s i = some held →
    contents (b.write offset block s).2 i = some held
  setsize : ∀ s nblocks i block, i < nblocks → contents s i = some block →
    contents (b.setsize nblocks s).2 i = some block

end Egos.Checkdisk
