import Egos.Block.Fatdisk
import Egos.Library.Effect

/-! A FAT volume, access by access. The programs are those of the FAT file system with their
accesses to the store below left open, so that an access can also fail or be the last one, or
be served by another layer; with the accesses of the file system itself they are its functions
(fatdiskRead_run and the like). -/

namespace Egos.Fatdisk
open Library Disk

/-- The operations of the store below, and the static variable `fatblocks`. -/
inductive Access where
  | size
  | read (offset : BlockNo)
  | write (offset : BlockNo) (block : Block)
  | fatblocks
  | setFatblocks (nFatblocks : BlockNo)

abbrev Access.Reply : Access → Type
  | .size => BlockNo
  | .read _ => Option Block
  | .write .. => Bool
  | .fatblocks => BlockNo
  | .setFatblocks _ => Unit

def Access.serve : (access : Access) → Fat access.Reply
  | .size => fun state => .done state.below.size state
  | .read offset => belowRead offset
  | .write offset block => belowWrite offset block
  | .fatblocks => fun state => .done state.fatblocks state
  | .setFatblocks nFatblocks => .modify fun state => { state with fatblocks := nFatblocks }

/-- What a failing access returns. The size of the store is known without an access. -/
def Access.failure : (access : Access) → Option access.Reply
  | .size => none
  | .read _ => some none
  | .write .. => some false
  | .fatblocks => none
  | .setFatblocks _ => none

abbrev Steps := Effect Access.Reply Halt

namespace Stepwise

def belowRead (offset : BlockNo) : Steps (Option Block) := Effect.perform (Access.read offset)

def belowWrite (offset : BlockNo) (block : Block) : Steps Bool := Effect.perform (Access.write offset block)

def getSize : Steps BlockNo := Effect.perform Access.size

def getFatblocks : Steps BlockNo := Effect.perform Access.fatblocks

def setFatblocks (nFatblocks : BlockNo) : Steps Unit := Effect.perform (Access.setFatblocks nFatblocks)

def fatentryToDatablock (n : FatEntryNo) : Steps BlockNo := do
  let some superblock ← belowRead 0 | return -1
  return nInodeblocks superblock + 1 + nFatblocks superblock + n

def findFatBlockno (fatentry : FatEntryNo) : Steps BlockNo := do
  let some superblock ← belowRead 0 | return -1
  return nInodeblocks superblock + fatentry / FAT_PER_BLOCK + 1

def scanBlocks (superblock : Block) : (nfatblocks : Nat) → (bno : BlockNo) → (i : UInt32) → Steps FatEntryNo
  | 0, _, _ => .halt (.panic "fatdisk_find_free_entry: The disk is full\n")
  | nfatblocks + 1, bno, i => do
    let some fatblock ← belowRead bno | .halt (.panic "fatdisk: Find free entry failed\n")
    match scanEntries fatblock (FAT_PER_BLOCK - i).toNat i with
    | some i => return (bno - 1 - nInodeblocks superblock) * FAT_PER_BLOCK + i
    | none =>
      let bno := bno + 1
      let fatblocks ← getFatblocks
      let bno := if bno ≥ 1 + nInodeblocks superblock + fatblocks then 1 + nInodeblocks superblock else bno
      scanBlocks superblock nfatblocks bno 0

def findFreeEntry (bno : BlockNo) : Steps FatEntryNo := do
  let some superblock ← belowRead 0 | return -1
  let fatblocks ← getFatblocks
  scanBlocks superblock fatblocks.toNat bno (fatFreeList superblock % FAT_PER_BLOCK)

def fatdiskAlloc (snapshot : Snapshot) : Steps (FatEntryNo × Snapshot) := do
  let fidx := fatFreeList snapshot.superblock
  let fidxBno ← findFatBlockno fidx
  let some fatblock ← belowRead fidxBno | .halt (.panic "fatdisk_alloc_block")
  let wrote ← belowWrite fidxBno (setWord fatblock (fidx % FAT_PER_BLOCK) (-1))
  if !wrote then .halt (.panic "fatdisk_alloc_block: write fat block")
  let free ← findFreeEntry fidxBno
  let snapshot := { snapshot with superblock := setWord snapshot.superblock 2 free }
  let wrote ← belowWrite 0 snapshot.superblock
  if !wrote then .halt (.panic "fatdisk_alloc_block: freelistblock")
  return (fidx, snapshot)

def fatdiskGetSnapshot (inodeNo : UInt32) : Steps (Option Snapshot) := do
  let some superblock ← belowRead 0 | return none
  if inodeNo.toNat ≥ (nInodeblocks superblock).toNat * INODES_PER_BLOCK.toNat then return none
  let inodeBlockno := 1 + inodeNo / INODES_PER_BLOCK
  let some inodeblock ← belowRead inodeBlockno | return none
  return some { superblock, inodeblock, inodeBlockno, inodeNo }

def setupLoop (nblocks : BlockNo) : (fuel : Nat) → (nextFree fatlistBlock nFatblocks : BlockNo) → Block → Steps BlockNo
  | 0, _, _, _, _ => .halt .diverges
  | fuel + 1, nextFree, fatlistBlock, nFatblocks, data => do
    if nextFree < nblocks then
      let (nextFree, data) := fillEntries nblocks FAT_PER_BLOCK.toNat 0 nextFree data
      let wrote ← belowWrite fatlistBlock data
      if !wrote then .halt (.panic "fatdisk_setup_freelist")
      setupLoop nblocks fuel (nextFree + 1) (fatlistBlock + 1) (nFatblocks + 1) data
    else return nFatblocks

def setupFatfreelist (nextFree nblocks : BlockNo) : Steps BlockNo := do
  let some _ ← belowRead 0 | return -1
  let nFatblocks ← setupLoop nblocks (nblocks.toNat + 1) nextFree nextFree 0 nullBlock
  setFatblocks nFatblocks
  return 0

def clearInodes : (left : Nat) → (i : BlockNo) → Steps Bool
  | 0, _ => return true
  | left + 1, i => do
    let wrote ← belowWrite i nullBlock
    if wrote then clearInodes left (i + 1) else return false

def fatdiskCreate (nInodes : UInt32) : Steps Int := do
  let nInodeblocks' := inodeblocksFor nInodes
  let nblocks ← getSize
  if nblocks < nInodeblocks' + 2 then return -1
  let some superblock ← belowRead 0 | return -1
  if nInodeblocks superblock = 0 then
    let free ← setupFatfreelist (nInodeblocks' + 1) nblocks
    let fatblocks ← getFatblocks
    let wrote ← belowWrite 0 (setWord (setWord (setWord nullBlock 0 nInodeblocks') 2 free) 1 fatblocks)
    if !wrote then return -1
    let cleared ← clearInodes nInodeblocks'.toNat 1
    if !cleared then return -1
    return 0
  else if nInodeblocks superblock = nInodeblocks' then return 0
  else .halt (.assertion "superblock.superblock.n_inodeblocks == n_inodeblocks")

def traverseLoop : (offset : Nat) → (start : FatEntryNo) → Steps FatEntryNo
  | 0, start => return start
  | offset + 1, start => do
    let fatBno ← findFatBlockno start
    let some fatblock ← belowRead fatBno | return -1
    traverseLoop offset (word fatblock (start % FAT_PER_BLOCK))

def fatdiskTraverse (inodeNo : UInt32) (offset : BlockNo) : Steps FatEntryNo := do
  let some snapshot ← fatdiskGetSnapshot inodeNo | return -1
  if offset ≥ snapshot.nblocks then return -1
  traverseLoop offset.toNat snapshot.head

def linkEntry (snapshot : Snapshot) (lastEntry freeBno : FatEntryNo) (dirtyInode : Bool) : Steps (Snapshot × Bool) := do
  if snapshot.nblocks = 0 then return (snapshot.setHead freeBno, true)
  let lastEntryBno ← findFatBlockno lastEntry
  let some lastfatblock ← belowRead lastEntryBno | .halt (.panic "fatdisk_write: addblocks\n")
  let wrote ← belowWrite lastEntryBno (setWord lastfatblock (lastEntry % FAT_PER_BLOCK) freeBno)
  if !wrote then .halt (.panic "fatdisk_write: update fat table\n")
  return (snapshot, dirtyInode)

def storeInode (snapshot : Snapshot) (offset : BlockNo) (dirtyInode : Bool) : Steps (Snapshot × Bool) := do
  let grows := decide (offset ≥ snapshot.nblocks)
  let snapshot := if grows then snapshot.setNblocks (offset + 1) else snapshot
  let dirtyInode := dirtyInode || grows
  if dirtyInode then
    let wrote ← belowWrite snapshot.inodeBlockno snapshot.inodeblock
    if !wrote then .halt (.panic "treedisk_write: inode block")
  return (snapshot, dirtyInode)

def addLoop (offset : BlockNo) :
    (addblks : Nat) → Snapshot → (lastEntry : FatEntryNo) → (dirtyInode : Bool) → Steps Unit
  | 0, _, _, _ => return ()
  | addblks + 1, snapshot, lastEntry, dirtyInode => do
    let (freeBno, snapshot) ← fatdiskAlloc snapshot
    let (snapshot, dirtyInode) ← linkEntry snapshot lastEntry freeBno dirtyInode
    let (snapshot, dirtyInode) ← storeInode snapshot offset dirtyInode
    addLoop offset addblks snapshot freeBno dirtyInode

def findLastEntry (inodeNo : UInt32) (snapshot : Snapshot) : Steps FatEntryNo :=
  if snapshot.nblocks > 0 then fatdiskTraverse inodeNo (snapshot.nblocks - 1) else pure 0

def fatdiskWrite (inodeNo : UInt32) (offset : BlockNo) (block : Block) : Steps Int := do
  let some snapshot ← fatdiskGetSnapshot inodeNo | return -1
  let addblks := if offset + 1 > snapshot.nblocks then offset + 1 - snapshot.nblocks else 0
  let lastEntry ← findLastEntry inodeNo snapshot
  addLoop offset addblks.toNat snapshot lastEntry false
  let entryForData ← fatdiskTraverse inodeNo offset
  let dataBlock ← fatentryToDatablock entryForData
  let wrote ← belowWrite dataBlock block
  return if wrote then 0 else -1

def freeLoop : (nblks : Nat) → (fatentry : FatEntryNo) → Steps Unit
  | 0, _ => return ()
  | nblks + 1, fatentry => do
    let fatbno ← findFatBlockno fatentry
    let some fatblock ← belowRead fatbno | .halt (.panic "fatdisk: fatdisk_freefile\n")
    let target ← fatentryToDatablock fatentry
    let wrote ← belowWrite target nullBlock
    if !wrote then .halt (.panic "treedisk_free_block: target block")
    let next := word fatblock (fatentry % FAT_PER_BLOCK)
    let wrote ← belowWrite fatbno (setWord fatblock (fatentry % FAT_PER_BLOCK) 0)
    if !wrote then .halt (.panic "fatdisk: fatdisk_freefile\n")
    freeLoop nblks next

def fatdiskFreeFile (snapshot : Snapshot) : Steps Unit := do
  if snapshot.nblocks = 0 then return ()
  freeLoop snapshot.nblocks.toNat snapshot.head
  let wrote ← belowWrite snapshot.inodeBlockno ((snapshot.setNblocks 0).setHead 0).inodeblock
  if !wrote then .halt (.panic "fatdisk: fatdisk_freefile\n")

def readLoop : (offset : Nat) → (start : FatEntryNo) → Steps (Option Block)
  | 0, start => do
    let readfrom ← fatentryToDatablock start
    belowRead readfrom
  | offset + 1, start => do
    let fatBno ← findFatBlockno start
    let some fatblock ← belowRead fatBno | return none
    readLoop offset (word fatblock (start % FAT_PER_BLOCK))

def fatdiskRead (inodeNo : UInt32) (offset : BlockNo) : Steps (Option Block) := do
  let some snapshot ← fatdiskGetSnapshot inodeNo | return none
  if offset ≥ snapshot.nblocks then return none
  readLoop offset.toNat snapshot.head

def fatdiskNblocks (inodeNo : UInt32) : Steps Int := do
  let some snapshot ← fatdiskGetSnapshot inodeNo | return -1
  return snapshot.nblocks.toInt32.toInt

def fatdiskSetsize (inodeNo : UInt32) (nblocks : BlockNo) : Steps Int := do
  let some snapshot ← fatdiskGetSnapshot inodeNo | .halt .uninitialized
  if nblocks = snapshot.nblocks then return nblocks.toInt32.toInt
  if nblocks > 0 then return -1
  fatdiskFreeFile snapshot
  return 0

def fatdiskInit (inodeNo : UInt32) : Steps Bool := do
  let some _ ← fatdiskGetSnapshot inodeNo | return false
  return true

end Stepwise
end Egos.Fatdisk
