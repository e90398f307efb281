import Egos.Block.Treedisk

/-! The trace layer of the cache test. It replays read, write, setsize and nblocks commands
on the inodes of a tree file system, each behind a layer that checks what is read. -/

namespace Egos.Treedisk
open Library

variable {z : BlockSize}

def maxBlocks : UInt32 := 2 ^ 27

inductive Report where
  | inodeTooLarge
  | blockTooLarge
  | readFailed (inode bno : UInt32)
  | unexpectedContent (inode bno first second : UInt32)
  | writeFailed (inode bno : UInt32)
  | setsizeFailed (inode bno : UInt32)
  | nblocks (cnt inode bno result : UInt32)
  | unexpectedCommand
  deriving DecidableEq

/-- `struct virtdisk`: whether `treedisk` is set, and the block list of `checkdisk`. -/
structure Virtdisk (z : BlockSize) where
  treedisk : Bool
  bl : List (BlockNo × Block z)

structure Tracer (z : BlockSize) where
  disk : State z
  inodes : UInt32 → Virtdisk z
  /-- The static buffer of tracedisk_run. -/
  block : Block z
  cnt : UInt32
  reports : List Report

abbrev Trace (z : BlockSize) := Prog (Tracer z) Halt

def report (report : Report) : Trace z Unit := .modify fun t => { t with reports := t.reports ++ [report] }

/-- A call to the tree layer. -/
def onDisk {α : Type} (program : Tree z α) : Trace z α := program.focus Tracer.disk fun disk t => { t with disk }

def setBl (inode : UInt32) (change : List (BlockNo × Block z) → List (BlockNo × Block z)) : Trace z Unit :=
  .modify fun t => { t with inodes := Function.update t.inodes inode { t.inodes inode with bl := change (t.inodes inode).bl } }

def checkdiskNblocks (inode : UInt32) : Trace z (Option BlockNo) := onDisk (treediskNblocks inode)

def checkdiskSetsize (inode : UInt32) (nblocks : BlockNo) : Trace z (Option BlockNo) := do
  setBl inode fun bl => bl.filter fun entry => entry.1 < nblocks
  onDisk (treediskSetsize inode nblocks)

/-- Reads into the static buffer. -/
def checkdiskRead (inode : UInt32) (offset : BlockNo) : Trace z Int := do
  let t ← .get
  let (result, block) ← onDisk (treediskRead inode offset t.block)
  .modify fun t => { t with block }
  match decide (result < 0) with
  | true => pure (-1)
  | false =>
    match (t.inodes inode).bl.find? fun entry => entry.1 = offset with
    | some (_, known) =>
      match decide (known = block) with
      | true => pure 0
      | false => .halt (.exit 1)
    | none =>
      setBl inode fun bl => (offset, block) :: bl
      pure 0

/-- The first entry of an offset is replaced, if there is one. -/
def replace (offset : BlockNo) (block : Block z) : List (BlockNo × Block z) → List (BlockNo × Block z)
  | [] => []
  | entry :: rest => if entry.1 = offset then (offset, block) :: rest else entry :: replace offset block rest

def enter (offset : BlockNo) (block : Block z) (bl : List (BlockNo × Block z)) : List (BlockNo × Block z) :=
  if offset ∈ bl.map Prod.fst then replace offset block bl else (offset, block) :: bl

def checkdiskWrite (inode : UInt32) (offset : BlockNo) (block : Block z) : Trace z Int := do
  let result ← onDisk (treediskWrite inode offset block)
  match decide (result < 0) with
  | true => pure result
  | false =>
    setBl inode (enter offset block)
    pure result

/-- The tree and check layers of an inode are set up when it is used first. -/
def openVirt (inode : UInt32) : Trace z Unit := do
  let t ← .get
  match (t.inodes inode).treedisk with
  | true => pure ()
  | false =>
    let treedisk ← onDisk (treediskInit inode)
    .modify fun t => { t with inodes := Function.update t.inodes inode { treedisk, bl := [] } }

/-- The check layer calls through the pointer to the tree layer. -/
def throughTree (inode : UInt32) {α : Type} (call : Trace z α) : Trace z α := do
  let t ← .get
  match (t.inodes inode).treedisk with
  | true => call
  | false => .halt .nullPointer

/-- One command. -/
def tracediskCommand (cmd : Char) (inode bno : UInt32) : Trace z Unit :=
  match cmd with
  | 'R' => do
    match decide ((← throughTree inode (checkdiskRead inode bno)) < 0) with
    | true => report (.readFailed inode bno)
    | false =>
      let t ← .get
      match decide ((ref t.block 0 ≠ inode ∧ ref t.block 0 ≠ 0) ∨ (ref t.block 1 ≠ bno ∧ ref t.block 1 ≠ 0)) with
      | true => report (.unexpectedContent inode bno (ref t.block 0) (ref t.block 1))
      | false => pure ()
  | 'W' => do
    .modify fun t => { t with block := setRef (setRef t.block 0 inode) 1 bno }
    let t ← .get
    match decide ((← throughTree inode (checkdiskWrite inode bno t.block)) < 0) with
    | true => report (.writeFailed inode bno)
    | false => pure ()
  | 'S' => do
    match ← throughTree inode (checkdiskSetsize inode bno) with
    | none => report (.setsizeFailed inode bno)
    | some result =>
      match decide (result ≥ 2 ^ 31) with
      | true => report (.setsizeFailed inode bno)
      | false => pure ()
  | 'N' => do
    let nblocks ← throughTree inode (checkdiskNblocks inode)
    let result := nblocks.getD (-1)
    let t ← .get
    match decide (result ≠ bno) with
    | true => report (.nblocks t.cnt inode bno result)
    | false => pure ()
  | _ => report .unexpectedCommand

/-- The lines of the trace that fscanf can parse. -/
def tracediskRun (nInodes : UInt32) : List (Char × UInt32 × UInt32) → Trace z Unit
  | [] => pure ()
  | (cmd, inode, bno) :: trace =>
    if inode ≥ nInodes then report .inodeTooLarge
    else if bno ≥ maxBlocks then report .blockTooLarge
    else do
      openVirt inode
      tracediskCommand cmd inode bno
      .modify fun t => { t with cnt := t.cnt + 1 }
      tracediskRun nInodes trace

/-- The state in which tracedisk_run starts. -/
def Tracer.start (disk : State z) : Tracer z :=
  { disk, inodes := fun _ => { treedisk := false, bl := [] }, block := nullBlock, cnt := 1, reports := [] }

end Egos.Treedisk
