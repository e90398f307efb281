import Egos.Library.Program
import Mathlib.Data.UInt
import Mathlib.Data.Fintype.Pi
import Mathlib.Data.List.FinRange

/-! The tree file system of treedisk.c. Every block is seen as a row of block numbers; the
data of a file is at the bottom of a tree of rows, and block number 0 is a hole. -/

namespace Egos.Treedisk
open Library

abbrev BlockNo := UInt32

/-- The two values of BLOCK_SIZE: 512 for the cache test, and 1024. -/
inductive BlockSize where
  | small
  | large
  deriving DecidableEq

variable {z : BlockSize}

/-- `log_rpb`, as the loop in treedisk_init computes it. -/
def BlockSize.logRpb : BlockSize → Nat
  | .small => 7
  | .large => 8

/-- `REFS_PER_BLOCK` -/
def BlockSize.refs (z : BlockSize) : Nat := 2 ^ z.logRpb

instance : NeZero z.refs := ⟨Nat.ne_of_gt (Nat.two_pow_pos _)⟩

/-- `INODES_PER_BLOCK` -/
def BlockSize.inodes (z : BlockSize) : Nat := z.refs / 2

abbrev Block (z : BlockSize) := Fin z.refs → BlockNo

def nullBlock : Block z := fun _ => 0

def ref (block : Block z) (i : Nat) : BlockNo := block (Fin.ofNat z.refs i)

def setRef (block : Block z) (i : Nat) (value : BlockNo) : Block z := Function.update block (Fin.ofNat z.refs i) value

/-- The store below; its size is reported as an `int`. -/
structure Store (z : BlockSize) where
  size : BlockNo
  block : BlockNo → Block z
  reported : size.toNat < 2 ^ 31

/-- `freed` is the history of the targets of treedisk_free_block; no code reads it. -/
structure State (z : BlockSize) where
  below : Store z
  freed : List BlockNo

inductive Halt where
  | panic (message : String)
  | assertion (condition : String)
  /-- The snapshot is used although `treedisk_get_snapshot` failed. -/
  | uninitialized
  /-- A loop that does not end. -/
  | diverges
  | nullPointer
  | exit (code : Int)
  deriving DecidableEq

abbrev Tree (z : BlockSize) := Prog (State z) Halt

def belowRead (offset : BlockNo) : Tree z (Option (Block z)) := do
  let s ← .get
  pure (if offset < s.below.size then some (s.below.block offset) else none)

def State.put (s : State z) (offset : BlockNo) (block : Block z) : State z :=
  { s with below := { s.below with block := Function.update s.below.block offset block } }

def belowWrite (offset : BlockNo) (block : Block z) : Tree z Bool := do
  let s ← .get
  match decide (offset < s.below.size) with
  | true =>
    .modify (·.put offset block)
    pure true
  | false => pure false

def readOrPanic (offset : BlockNo) (message : String) : Tree z (Block z) := do
  match ← belowRead offset with
  | some block => pure block
  | none => .halt (.panic message)

def writeOrPanic (offset : BlockNo) (block : Block z) (message : String) : Tree z Unit := do
  match ← belowWrite offset block with
  | true => pure ()
  | false => .halt (.panic message)

/-! Fields of the block layouts. -/

def nInodeblocks (superblock : Block z) : BlockNo := ref superblock 0

def freeList (superblock : Block z) : BlockNo := ref superblock 1

/-- The index of the field `root` of an inode in its inode block. -/
def rootIndex (z : BlockSize) (inodeNo : UInt32) : Nat := 2 * (inodeNo.toNat % z.inodes)

/-- The index of the field `nblocks`. -/
def nblocksIndex (z : BlockSize) (inodeNo : UInt32) : Nat := 2 * (inodeNo.toNat % z.inodes) + 1

/-- The inode a snapshot points to is kept as its index in the inode block. -/
structure Snapshot (z : BlockSize) where
  superblock : Block z
  inodeblock : Block z
  inodeBlockno : BlockNo
  inodeNo : UInt32

namespace Snapshot

def root (snapshot : Snapshot z) : BlockNo := ref snapshot.inodeblock (rootIndex z snapshot.inodeNo)

def nblocks (snapshot : Snapshot z) : BlockNo := ref snapshot.inodeblock (nblocksIndex z snapshot.inodeNo)

def setRoot (snapshot : Snapshot z) (root : BlockNo) : Snapshot z :=
  { snapshot with inodeblock := setRef snapshot.inodeblock (rootIndex z snapshot.inodeNo) root }

def setNblocks (snapshot : Snapshot z) (nblocks : BlockNo) : Snapshot z :=
  { snapshot with inodeblock := setRef snapshot.inodeblock (nblocksIndex z snapshot.inodeNo) nblocks }

def setFreeList (snapshot : Snapshot z) (block : BlockNo) : Snapshot z :=
  { snapshot with superblock := setRef snapshot.superblock 1 block }

end Snapshot

def logShiftR (x : BlockNo) (nbits : Nat) : BlockNo := if nbits ≥ 32 then 0 else x >>> UInt32.ofNat nbits

/-- The block that holds an inode. -/
def inodeBlock (z : BlockSize) (inodeNo : UInt32) : BlockNo := 1 + inodeNo / UInt32.ofNat z.inodes

/-- `none` stands for the result -1. The inode numbers are compared in `size_t`. -/
def treediskGetSnapshot (inodeNo : UInt32) : Tree z (Option (Snapshot z)) := do
  match ← belowRead 0 with
  | none => pure none
  | some superblock =>
    match decide (inodeNo.toNat ≥ (nInodeblocks superblock).toNat * z.inodes) with
    | true => pure none
    | false =>
      match ← belowRead (inodeBlock z inodeNo) with
      | none => pure none
      | some inodeblock => pure (some { superblock, inodeblock, inodeBlockno := inodeBlock z inodeNo, inodeNo })

/-- The last slot up to the given one that holds a block number, or 0. -/
def lastFilled (freelistblock : Block z) : Nat → Nat
  | 0 => 0
  | i + 1 => if ref freelistblock (i + 1) ≠ 0 then i + 1 else lastFilled freelistblock i

/-- Returns the block handed out and the snapshot with the new free list. -/
def treediskAllocBlock (snapshot : Snapshot z) : Tree z (BlockNo × Snapshot z) := do
  let b := freeList snapshot.superblock
  match decide (b = 0) with
  | true => .halt (.panic "treedisk_alloc_block: block store is full\n")
  | false =>
    let freelistblock ← readOrPanic b "treedisk_alloc_block"
    match lastFilled freelistblock (z.refs - 1) with
    | 0 =>
      let snapshot := snapshot.setFreeList (ref freelistblock 0)
      writeOrPanic 0 snapshot.superblock "treedisk_alloc_block: superblock"
      pure (b, snapshot)
    | i + 1 =>
      writeOrPanic b (setRef freelistblock (i + 1) 0) "treedisk_alloc_block: freelistblock"
      pure (ref freelistblock (i + 1), snapshot)

/-- The first empty slot from `i` on with `left` slots to go. -/
def firstEmpty (freelistblock : Block z) : (left : Nat) → (i : Nat) → Nat
  | 0, i => i
  | left + 1, i => if ref freelistblock i = 0 then i else firstEmpty freelistblock left (i + 1)

def treediskFreeBlock (snapshot : Snapshot z) (target : BlockNo) : Tree z (Snapshot z) := do
  .modify fun s => { s with freed := s.freed ++ [target] }
  writeOrPanic target nullBlock "treedisk_free_block: target block"
  let b := freeList snapshot.superblock
  match decide (b = 0) with
  | true =>
    let snapshot := snapshot.setFreeList target
    writeOrPanic 0 snapshot.superblock "treedisk_free_block: superblock"
    pure snapshot
  | false =>
    let freelistblock ← readOrPanic b "treedisk_alloc_block"
    let i := firstEmpty freelistblock (z.refs - 1) 1
    match decide (i ≠ z.refs) with
    | true =>
      writeOrPanic b (setRef freelistblock i target) "treedisk_alloc_block: freelistblock"
      pure snapshot
    | false =>
      let snapshot := snapshot.setFreeList target
      writeOrPanic 0 snapshot.superblock "treedisk_free_block: superblock"
      writeOrPanic target (setRef nullBlock 0 b) "treedisk_free_block: target block"
      pure snapshot

/-- recursive_free_file with `level - curr_level` levels to go. -/
def recursiveFreeFile : (levels : Nat) → Snapshot z → BlockNo → Tree z (Snapshot z)
  | 0, snapshot, b => treediskFreeBlock snapshot b
  | levels + 1, snapshot, b => do
    let indirblock ← readOrPanic b "treedisk_alloc_block"
    let snapshot ← (List.finRange z.refs).foldlM (fun snapshot i =>
      if indirblock i ≠ 0 then recursiveFreeFile levels snapshot (indirblock i) else pure snapshot) snapshot
    treediskFreeBlock snapshot b

/-- `while (max_capacity < nblocks)`. Once the capacity has overflowed it stays 0. -/
def capacityLoop (z : BlockSize) (nblocks : BlockNo) :
    (rounds : Nat) → (level : Nat) → (capacity : BlockNo) → Option Nat
  | 0, _, _ => none
  | rounds + 1, level, capacity =>
    if capacity < nblocks then capacityLoop z nblocks rounds (level + 1) (capacity * UInt32.ofNat z.refs)
      else some level

def treediskFreeFile (snapshot : Snapshot z) : Tree z (Snapshot z) :=
  match decide (snapshot.nblocks = 0), decide (snapshot.nblocks = 1) with
  | true, _ => pure snapshot
  | false, true => treediskFreeBlock snapshot snapshot.root
  | false, false =>
    match capacityLoop z snapshot.nblocks 8 1 (UInt32.ofNat z.refs) with
    | none => .halt .diverges
    | some level => recursiveFreeFile level snapshot snapshot.root

/-- `none` stands for the result -1. -/
def treediskNblocks (inodeNo : UInt32) : Tree z (Option BlockNo) := do
  match ← treediskGetSnapshot inodeNo with
  | none => pure none
  | some snapshot => pure (some snapshot.nblocks)

/-- `none` stands for the result -1. -/
def treediskSetsize (inodeNo : UInt32) (nblocks : BlockNo) : Tree z (Option BlockNo) := do
  match ← treediskGetSnapshot inodeNo with
  | none => .halt .uninitialized
  | some snapshot =>
    match decide (nblocks = snapshot.nblocks), decide (nblocks > 0) with
    | true, _ => pure (some nblocks)
    | false, true => pure none
    | false, false =>
      let snapshot ← treediskFreeFile snapshot
      let snapshot := (snapshot.setNblocks 0).setRoot 0
      writeOrPanic snapshot.inodeBlockno snapshot.inodeblock "treedisk_free_block: inode block"
      pure (some 0)

/-- `while (log_shift_r(x, nlevels * log_rpb) != 0)`, which ends when all bits are shifted out. -/
def levelsLoop (z : BlockSize) (x : BlockNo) : (rounds : Nat) → (nlevels : Nat) → Nat
  | 0, nlevels => nlevels
  | rounds + 1, nlevels => if logShiftR x (nlevels * z.logRpb) ≠ 0 then levelsLoop z x rounds (nlevels + 1) else nlevels

/-- The number of levels that the last block number of a file needs. -/
def levelsFor (z : BlockSize) (last : BlockNo) : Nat := levelsLoop z last 32 0

/-- The number of levels of a file of `nblocks` blocks. -/
def levelsOf (z : BlockSize) (nblocks : BlockNo) : Nat := if nblocks > 0 then levelsFor z (nblocks - 1) else 0

/-- The index into the indirect block with the given number of levels below it. -/
def index (z : BlockSize) (offset : BlockNo) (nlevels : Nat) : Fin z.refs :=
  Fin.ofNat z.refs (logShiftR offset (nlevels * z.logRpb)).toNat

/-- Walk down from a block. The answer is the result code, and what is in the buffer. -/
def walkDown (offset : BlockNo) : (nlevels : Nat) → (b : BlockNo) → (buffer : Block z) → Tree z (Int × Block z)
  | nlevels, b, buffer => do
    match decide (b = 0) with
    | true => pure (0, nullBlock)
    | false =>
      match ← belowRead b with
      | none => pure (-1, buffer)
      | some block =>
        match nlevels with
        | 0 => pure (0, block)
        | nlevels + 1 => walkDown offset nlevels (block (index z offset nlevels)) block

/-- The buffer is the memory of the caller; on failure it keeps what is in it. -/
def treediskRead (inodeNo : UInt32) (offset : BlockNo) (buffer : Block z) : Tree z (Int × Block z) := do
  match ← treediskGetSnapshot inodeNo with
  | none => pure (-1, buffer)
  | some snapshot =>
    match decide (offset ≥ snapshot.nblocks) with
    | true => pure (-1, buffer)
    | false => walkDown offset (levelsOf z snapshot.nblocks) snapshot.root buffer

/-- Insert the given number of indirect blocks above the root. -/
def growLevels : (levels : Nat) → Snapshot z → Tree z (Snapshot z)
  | 0, snapshot => pure snapshot
  | levels + 1, snapshot => do
    let (indir, snapshot) ← treediskAllocBlock snapshot
    let tib := setRef nullBlock 0 snapshot.root
    let snapshot := snapshot.setRoot indir
    writeOrPanic indir tib "treedisk_write: indirect block"
    growLevels levels snapshot

/-- Find the block of an offset below slot `i` of the parent, allocating what is missing,
and write it. -/
def walkAndWrite (offset : BlockNo) (data : Block z) :
    (nlevels : Nat) → Snapshot z → (parentOff : BlockNo) → (parentBlock : Block z) → (i : Fin z.refs) → Tree z Unit
  | nlevels, snapshot, parentOff, parentBlock, i => do
    match decide (parentBlock i = 0) with
    | true =>
      let (b, snapshot) ← treediskAllocBlock snapshot
      writeOrPanic parentOff (Function.update parentBlock i b) "treedisk_write: parent"
      match nlevels with
      | 0 => writeOrPanic b data "treedisk_write: data block"
      | nlevels + 1 => walkAndWrite offset data nlevels snapshot b nullBlock (index z offset nlevels)
    | false =>
      let b := parentBlock i
      match nlevels with
      | 0 => writeOrPanic b data "treedisk_write: data block"
      | nlevels + 1 =>
        let tib ← readOrPanic b "treedisk_write"
        walkAndWrite offset data nlevels snapshot b tib (index z offset nlevels)

/-- The result is 0 or -1. -/
def treediskWrite (inodeNo : UInt32) (offset : BlockNo) (block : Block z) : Tree z Int := do
  match ← treediskGetSnapshot inodeNo with
  | none => pure (-1)
  | some snapshot =>
    let nlevels := levelsOf z snapshot.nblocks
    let extended := decide (offset ≥ snapshot.nblocks)
    let nlevelsAfter := if extended then levelsFor z offset else nlevels
    let snapshot := if extended then snapshot.setNblocks (offset + 1) else snapshot
    let levels := if snapshot.nblocks = 0 then 0 else nlevelsAfter - nlevels
    let nlevels := if snapshot.nblocks = 0 then nlevelsAfter else max nlevels nlevelsAfter
    let snapshot ← growLevels levels snapshot
    match extended || decide (levels > 0) with
    | true => writeOrPanic snapshot.inodeBlockno snapshot.inodeblock "treedisk_write: inode block"
    | false => pure ()
    walkAndWrite offset block nlevels snapshot snapshot.inodeBlockno snapshot.inodeblock
      (Fin.ofNat z.refs (rootIndex z inodeNo))
    pure 0

/-- Whether treedisk_init opens the inode. -/
def treediskInit (inodeNo : UInt32) : Tree z Bool := do
  match ← treediskGetSnapshot inodeNo with
  | none => pure false
  | some _ => pure true

/-! Creating a file system. -/

/-- The slots of a free list block from `i` on: blocks while there are some, then 0. -/
def fillSlots (nblocks : BlockNo) : (left : Nat) → (i : Nat) → (nextFree : BlockNo) → Block z → BlockNo × Block z
  | 0, _, nextFree, data => (nextFree, data)
  | left + 1, i, nextFree, data =>
    if nextFree < nblocks then fillSlots nblocks left (i + 1) (nextFree + 1) (setRef data i nextFree)
    else fillSlots nblocks left (i + 1) nextFree (setRef data i 0)

/-- `while (next_free < nblocks)`. Each time round takes a block, so their number bounds the rounds. -/
def setupLoop (nblocks : BlockNo) : (rounds : Nat) → (nextFree freelistBlock : BlockNo) → Block z → Tree z BlockNo
  | 0, _, _, _ => .halt .diverges
  | rounds + 1, nextFree, freelistBlock, data => do
    match decide (nextFree < nblocks) with
    | false => pure freelistBlock
    | true =>
      let (next, filled) := fillSlots nblocks (z.refs - 1) 1 (nextFree + 1) (setRef data 0 freelistBlock)
      writeOrPanic nextFree filled "treedisk_setup_freelist"
      setupLoop nblocks rounds next nextFree filled

def setupFreelist (nextFree nblocks : BlockNo) : Tree z BlockNo :=
  setupLoop nblocks (nblocks.toNat + 1) nextFree 0 nullBlock

/-- Whether all blocks from `i` on could be cleared. -/
def clearInodes : (left : Nat) → (i : BlockNo) → Tree z Bool
  | 0, _ => pure true
  | left + 1, i => do
    match ← belowWrite i nullBlock with
    | false => pure false
    | true => clearInodes left (i + 1)

/-- The result is 0 or -1. -/
def treediskCreate (nInodes : UInt32) : Tree z Int := do
  let n := UInt32.ofNat ((nInodes.toNat + z.inodes - 1) / z.inodes)
  let s ← .get
  let nblocks := s.below.size
  match decide (nblocks < n + 2) with
  | true => pure (-1)
  | false =>
    match ← belowRead 0 with
    | none => pure (-1)
    | some superblock =>
      match decide (nInodeblocks superblock = 0) with
      | true =>
        let free ← setupFreelist (z := z) (n + 1) nblocks
        match ← belowWrite 0 (setRef (setRef nullBlock 0 n : Block z) 1 free) with
        | false => pure (-1)
        | true =>
          match ← clearInodes (z := z) n.toNat 1 with
          | false => pure (-1)
          | true => pure 0
      | false =>
        match decide (nInodeblocks superblock = n) with
        | true => pure 0
        | false => .halt (.assertion "superblock.superblock.n_inodeblocks == n_inodeblocks")

/-- The calls on an open inode. -/
inductive Call (z : BlockSize) where
  | read (inodeNo : UInt32) (offset : BlockNo) (buffer : Block z)
  | write (inodeNo : UInt32) (offset : BlockNo) (block : Block z)
  | nblocks (inodeNo : UInt32)
  | setsize (inodeNo : UInt32) (nblocks : BlockNo)

def Call.inode : Call z → UInt32
  | .read inodeNo .. | .write inodeNo .. | .nblocks inodeNo | .setsize inodeNo _ => inodeNo

inductive Answer (z : BlockSize) where
  | result (code : Int) (buffer : Block z)
  | code (code : Int)
  | size (nblocks : Option BlockNo)

def Call.perform : Call z → Tree z (Answer z)
  | .read inodeNo offset buffer => do
    let (code, buffer) ← treediskRead inodeNo offset buffer
    pure (.result code buffer)
  | .write inodeNo offset block => do
    let code ← treediskWrite inodeNo offset block
    pure (.code code)
  | .nblocks inodeNo => do
    let size ← treediskNblocks inodeNo
    pure (.size size)
  | .setsize inodeNo count => do
    let size ← treediskSetsize inodeNo count
    pure (.size size)

end Egos.Treedisk
