import Egos.Block.Store
import Egos.Library.Program

/-! The FAT file system of fatdisk.c. The store below holds the super block, the
inode blocks, the FAT blocks and one data block for each FAT entry, in this order.
An entry's `next` is 0 when the entry is free and -1 at the end of a file. -/

namespace Egos.Fatdisk
open Library Disk

abbrev FatEntryNo := UInt32

/-- `BLOCK_SIZE / sizeof(struct fatdisk_inode)` -/
def INODES_PER_BLOCK : UInt32 := 128

/-- `BLOCK_SIZE / sizeof(struct fatdisk_fatentry)` -/
def FAT_PER_BLOCK : UInt32 := 256

/-- What a process of the file system works on: the store below and the static
variable `fatblocks`, which only formatting sets. The ghost `failed` records that
an access to the store below has failed; no code reads it. -/
structure State where
  below : Store
  fatblocks : BlockNo
  failed : Bool

/-- Reasons why the process ends in the middle of a call. -/
inductive Halt where
  | panic (message : String)
  | assertion (condition : String)
  /-- The snapshot is used although `fatdisk_get_snapshot` failed. -/
  | uninitialized
  /-- A loop that does not end. -/
  | diverges
  deriving DecidableEq

abbrev Fat := Prog State Halt

def belowRead (offset : BlockNo) : Fat (Option Block) :=
  fun state => match state.below.read offset with
    | some block => .done (some block) state
    | none => .done none { state with failed := true }

def belowWrite (offset : BlockNo) (block : Block) : Fat Bool :=
  fun state => match state.below.write offset block with
    | some below => .done true { state with below }
    | none => .done false { state with failed := true }

/-! Fields of the block layouts. -/

def nInodeblocks (superblock : Block) : BlockNo := word superblock 0

def nFatblocks (superblock : Block) : BlockNo := word superblock 1

def fatFreeList (superblock : Block) : FatEntryNo := word superblock 2

/-- The inode a snapshot points to is kept as its index in the inode block. -/
structure Snapshot where
  superblock : Block
  inodeblock : Block
  inodeBlockno : BlockNo
  inodeNo : UInt32

namespace Snapshot

def head (snapshot : Snapshot) : FatEntryNo :=
  word snapshot.inodeblock (2 * (snapshot.inodeNo % INODES_PER_BLOCK))

def nblocks (snapshot : Snapshot) : BlockNo :=
  word snapshot.inodeblock (2 * (snapshot.inodeNo % INODES_PER_BLOCK) + 1)

def setHead (snapshot : Snapshot) (entry : FatEntryNo) : Snapshot :=
  { snapshot with inodeblock := setWord snapshot.inodeblock (2 * (snapshot.inodeNo % INODES_PER_BLOCK)) entry }

def setNblocks (snapshot : Snapshot) (nblocks : BlockNo) : Snapshot :=
  { snapshot with inodeblock := setWord snapshot.inodeblock (2 * (snapshot.inodeNo % INODES_PER_BLOCK) + 1) nblocks }

end Snapshot

def fatentryToDatablock (n : FatEntryNo) : Fat BlockNo := do
  let some superblock ← belowRead 0 | return -1
  return nInodeblocks superblock + 1 + nFatblocks superblock + n

def findFatBlockno (fatentry : FatEntryNo) : Fat BlockNo := do
  let some superblock ← belowRead 0 | return -1
  return nInodeblocks superblock + fatentry / FAT_PER_BLOCK + 1

/-- The loop over the entries of one FAT block, from `i` on with `left` entries to go. -/
def scanEntries (fatblock : Block) : (left : Nat) → (i : UInt32) → Option UInt32
  | 0, _ => none
  | left + 1, i => if word fatblock i = 0 then some i else scanEntries fatblock left (i + 1)

/-- `while(nfatblocks--)`: one FAT block each time round, wrapping at the end of the table. -/
def scanBlocks (superblock : Block) : (nfatblocks : Nat) → (bno : BlockNo) → (i : UInt32) → Fat FatEntryNo
  | 0, _, _ => Prog.halt (.panic "fatdisk_find_free_entry: The disk is full\n")
  | nfatblocks + 1, bno, i => do
    let some fatblock ← belowRead bno | Prog.halt (.panic "fatdisk: Find free entry failed\n")
    match scanEntries fatblock (FAT_PER_BLOCK - i).toNat i with
    | some i => return (bno - 1 - nInodeblocks superblock) * FAT_PER_BLOCK + i
    | none =>
      let bno := bno + 1
      let state ← Prog.get
      let bno := if bno ≥ 1 + nInodeblocks superblock + state.fatblocks
        then 1 + nInodeblocks superblock else bno
      scanBlocks superblock nfatblocks bno 0

def findFreeEntry (bno : BlockNo) : Fat FatEntryNo := do
  let some superblock ← belowRead 0 | return -1
  let state ← Prog.get
  scanBlocks superblock state.fatblocks.toNat bno (fatFreeList superblock % FAT_PER_BLOCK)

/-- Returns the entry handed out and the snapshot with the new free pointer. -/
def fatdiskAlloc (snapshot : Snapshot) : Fat (FatEntryNo × Snapshot) := do
  let fidx := fatFreeList snapshot.superblock
  let fidxBno ← findFatBlockno fidx
  let some fatblock ← belowRead fidxBno | Prog.halt (.panic "fatdisk_alloc_block")
  let wrote ← belowWrite fidxBno (setWord fatblock (fidx % FAT_PER_BLOCK) (-1))
  if !wrote then Prog.halt (.panic "fatdisk_alloc_block: write fat block")
  let free ← findFreeEntry fidxBno
  let snapshot := { snapshot with superblock := setWord snapshot.superblock 2 free }
  let wrote ← belowWrite 0 snapshot.superblock
  if !wrote then Prog.halt (.panic "fatdisk_alloc_block: freelistblock")
  return (fidx, snapshot)

/-- `none` stands for the result -1. The inode numbers are compared in `size_t`. -/
def fatdiskGetSnapshot (inodeNo : UInt32) : Fat (Option Snapshot) := do
  let some superblock ← belowRead 0 | return none
  if inodeNo.toNat ≥ (nInodeblocks superblock).toNat * INODES_PER_BLOCK.toNat then return none
  let inodeBlockno := 1 + inodeNo / INODES_PER_BLOCK
  let some inodeblock ← belowRead inodeBlockno | return none
  return some { superblock, inodeblock, inodeBlockno, inodeNo }

/-- Marks entries free while blocks are left; what remains of the block keeps -1. -/
def fillEntries (nblocks : BlockNo) : (left : Nat) → (i : UInt32) → (nextFree : BlockNo) → Block → BlockNo × Block
  | 0, _, nextFree, data => (nextFree, data)
  | left + 1, i, nextFree, data =>
    if nextFree < nblocks then fillEntries nblocks left (i + 1) (nextFree + 1) (setWord data i 0)
    else fillEntries nblocks left (i + 1) nextFree (setWord data i (-1))

/-- `while(next_free < nblocks)`. Each time round writes the next block of the
store, so the number of blocks bounds the rounds. -/
def setupLoop (nblocks : BlockNo) : (fuel : Nat) → (nextFree fatlistBlock nFatblocks : BlockNo) → Block → Fat BlockNo
  | 0, _, _, _, _ => Prog.halt .diverges
  | fuel + 1, nextFree, fatlistBlock, nFatblocks, data => do
    if nextFree < nblocks then
      let (nextFree, data) := fillEntries nblocks FAT_PER_BLOCK.toNat 0 nextFree data
      let wrote ← belowWrite fatlistBlock data
      if !wrote then Prog.halt (.panic "fatdisk_setup_freelist")
      setupLoop nblocks fuel (nextFree + 1) (fatlistBlock + 1) (nFatblocks + 1) data
    else return nFatblocks

def setupFatfreelist (nextFree nblocks : BlockNo) : Fat BlockNo := do
  let some _ ← belowRead 0 | return -1
  let nFatblocks ← setupLoop nblocks (nblocks.toNat + 1) nextFree nextFree 0 nullBlock
  Prog.modify fun state => { state with fatblocks := nFatblocks }
  return 0

/-- Zeroes the inode blocks `i .. n_inodeblocks`. -/
def clearInodes : (left : Nat) → (i : BlockNo) → Fat Bool
  | 0, _ => return true
  | left + 1, i => do
    let wrote ← belowWrite i nullBlock
    if wrote then clearInodes left (i + 1) else return false

/-- The number of blocks that hold `n_inodes` inodes, computed in `size_t`. -/
def inodeblocksFor (nInodes : UInt32) : BlockNo :=
  UInt32.ofNat ((nInodes.toNat + INODES_PER_BLOCK.toNat - 1) / INODES_PER_BLOCK.toNat)

def fatdiskCreate (nInodes : UInt32) : Fat Int := do
  let nInodeblocks' := inodeblocksFor nInodes
  let nblocks := (← Prog.get).below.size
  if nblocks < nInodeblocks' + 2 then return -1
  let some superblock ← belowRead 0 | return -1
  if nInodeblocks superblock = 0 then
    let free ← setupFatfreelist (nInodeblocks' + 1) nblocks
    let fatblocks := (← Prog.get).fatblocks
    let wrote ← belowWrite 0 (setWord (setWord (setWord nullBlock 0 nInodeblocks') 2 free) 1 fatblocks)
    if !wrote then return -1
    let cleared ← clearInodes nInodeblocks'.toNat 1
    if !cleared then return -1
    return 0
  else if nInodeblocks superblock = nInodeblocks' then return 0
  else Prog.halt (.assertion "superblock.superblock.n_inodeblocks == n_inodeblocks")

/-- `while(offset--)`: follows `next` from `start`. -/
def traverseLoop : (offset : Nat) → (start : FatEntryNo) → Fat FatEntryNo
  | 0, start => return start
  | offset + 1, start => do
    let fatBno ← findFatBlockno start
    let some fatblock ← belowRead fatBno | return -1
    traverseLoop offset (word fatblock (start % FAT_PER_BLOCK))

def fatdiskTraverse (inodeNo : UInt32) (offset : BlockNo) : Fat FatEntryNo := do
  let some snapshot ← fatdiskGetSnapshot inodeNo | return -1
  if offset ≥ snapshot.nblocks then return -1
  traverseLoop offset.toNat snapshot.head

/-- `while(nblks)`: zeroes the data block of each entry and marks the entry free. -/
def freeLoop : (nblks : Nat) → (fatentry : FatEntryNo) → Fat Unit
  | 0, _ => return ()
  | nblks + 1, fatentry => do
    let fatbno ← findFatBlockno fatentry
    let some fatblock ← belowRead fatbno | Prog.halt (.panic "fatdisk: fatdisk_freefile\n")
    let target ← fatentryToDatablock fatentry
    let wrote ← belowWrite target nullBlock
    if !wrote then Prog.halt (.panic "treedisk_free_block: target block")
    let next := word fatblock (fatentry % FAT_PER_BLOCK)
    let wrote ← belowWrite fatbno (setWord fatblock (fatentry % FAT_PER_BLOCK) 0)
    if !wrote then Prog.halt (.panic "fatdisk: fatdisk_freefile\n")
    freeLoop nblks next

def fatdiskFreeFile (snapshot : Snapshot) : Fat Unit := do
  if snapshot.nblocks = 0 then return ()
  freeLoop snapshot.nblocks.toNat snapshot.head
  let wrote ← belowWrite snapshot.inodeBlockno ((snapshot.setNblocks 0).setHead 0).inodeblock
  if !wrote then Prog.halt (.panic "fatdisk: fatdisk_freefile\n")

/-- Hangs a new entry on the file: as its head, or behind its last entry. -/
def linkEntry (snapshot : Snapshot) (lastEntry freeBno : FatEntryNo) (dirtyInode : Bool) :
    Fat (Snapshot × Bool) := do
  if snapshot.nblocks = 0 then return (snapshot.setHead freeBno, true)
  let lastEntryBno ← findFatBlockno lastEntry
  let some lastfatblock ← belowRead lastEntryBno | Prog.halt (.panic "fatdisk_write: addblocks\n")
  let wrote ← belowWrite lastEntryBno (setWord lastfatblock (lastEntry % FAT_PER_BLOCK) freeBno)
  if !wrote then Prog.halt (.panic "fatdisk_write: update fat table\n")
  return (snapshot, dirtyInode)

/-- Keeps the size of the file and writes its inode back once it has changed. -/
def storeInode (snapshot : Snapshot) (offset : BlockNo) (dirtyInode : Bool) : Fat (Snapshot × Bool) := do
  let grows := decide (offset ≥ snapshot.nblocks)
  let snapshot := if grows then snapshot.setNblocks (offset + 1) else snapshot
  let dirtyInode := dirtyInode || grows
  if dirtyInode then
    let wrote ← belowWrite snapshot.inodeBlockno snapshot.inodeblock
    if !wrote then Prog.halt (.panic "treedisk_write: inode block")
  return (snapshot, dirtyInode)

/-- `while(addblks--)` -/
def addLoop (offset : BlockNo) : (addblks : Nat) → Snapshot → (lastEntry : FatEntryNo) → (dirtyInode : Bool) → Fat Unit
  | 0, _, _, _ => return ()
  | addblks + 1, snapshot, lastEntry, dirtyInode => do
    let (freeBno, snapshot) ← fatdiskAlloc snapshot
    let (snapshot, dirtyInode) ← linkEntry snapshot lastEntry freeBno dirtyInode
    let (snapshot, dirtyInode) ← storeInode snapshot offset dirtyInode
    addLoop offset addblks snapshot freeBno dirtyInode

/-- `last_entry`, 0 for an empty file. -/
def findLastEntry (inodeNo : UInt32) (snapshot : Snapshot) : Fat FatEntryNo :=
  if snapshot.nblocks > 0 then fatdiskTraverse inodeNo (snapshot.nblocks - 1) else pure 0

/-- The `int` counter `addblks` runs down to 0 through all 32-bit values, so the
unsigned difference counts the rounds. -/
def fatdiskWrite (inodeNo : UInt32) (offset : BlockNo) (block : Block) : Fat Int := do
  let some snapshot ← fatdiskGetSnapshot inodeNo | return -1
  let addblks := if offset + 1 > snapshot.nblocks then offset + 1 - snapshot.nblocks else 0
  let lastEntry ← findLastEntry inodeNo snapshot
  addLoop offset addblks.toNat snapshot lastEntry false
  let entryForData ← fatdiskTraverse inodeNo offset
  let dataBlock ← fatentryToDatablock entryForData
  let wrote ← belowWrite dataBlock block
  return if wrote then 0 else -1

/-- The loop of `fatdisk_read`, which counts `offset` down to 0. -/
def readLoop : (offset : Nat) → (start : FatEntryNo) → Fat (Option Block)
  | 0, start => do
    let readfrom ← fatentryToDatablock start
    belowRead readfrom
  | offset + 1, start => do
    let fatBno ← findFatBlockno start
    let some fatblock ← belowRead fatBno | return none
    readLoop offset (word fatblock (start % FAT_PER_BLOCK))

/-- The block read, or `none` for the result -1. -/
def fatdiskRead (inodeNo : UInt32) (offset : BlockNo) : Fat (Option Block) := do
  let some snapshot ← fatdiskGetSnapshot inodeNo | return none
  if offset ≥ snapshot.nblocks then return none
  readLoop offset.toNat snapshot.head

/-- The result as an `int`: the number of blocks, or -1. -/
def fatdiskNblocks (inodeNo : UInt32) : Fat Int := do
  let some snapshot ← fatdiskGetSnapshot inodeNo | return -1
  return snapshot.nblocks.toInt32.toInt

def fatdiskSetsize (inodeNo : UInt32) (nblocks : BlockNo) : Fat Int := do
  let some snapshot ← fatdiskGetSnapshot inodeNo | Prog.halt .uninitialized
  if nblocks = snapshot.nblocks then return nblocks.toInt32.toInt
  if nblocks > 0 then return -1
  fatdiskFreeFile snapshot
  return 0

/-- Whether `fatdisk_init` opens the inode. -/
def fatdiskInit (inodeNo : UInt32) : Fat Bool := do
  let some _ ← fatdiskGetSnapshot inodeNo | return false
  return true

/-- The operations of the block store of one inode. -/
inductive Call where
  | write (inodeNo : UInt32) (offset : BlockNo) (block : Block)
  | read (inodeNo : UInt32) (offset : BlockNo)
  | nblocks (inodeNo : UInt32)
  | setsize (inodeNo : UInt32) (nblocks : BlockNo)

inductive Result where
  | status (value : Int)
  | block (contents : Option Block)

def Call.perform : Call → Fat Result
  | .write inodeNo offset block => do return .status (← fatdiskWrite inodeNo offset block)
  | .read inodeNo offset => do return .block (← fatdiskRead inodeNo offset)
  | .nblocks inodeNo => do return .status (← fatdiskNblocks inodeNo)
  | .setsize inodeNo size => do return .status (← fatdiskSetsize inodeNo size)

end Egos.Fatdisk
