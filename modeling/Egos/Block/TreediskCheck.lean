import Egos.Block.Treedisk

/-! treedisk_chk.c: the integrity check of a tree file system. -/

namespace Egos.Treedisk

variable {z : BlockSize}

/-- The status of a block in `struct block_info`. -/
inductive Status where
  | unknown
  | super
  | inode
  | indir
  | data
  | freelist
  | free
  deriving DecidableEq

abbrev Info := BlockNo → Status

/-- The messages with which the check fails. -/
inductive Complaint where
  | emptyStorage
  | noRoomForInodes
  | freeListTooLarge
  | offStorage (node fsNblocks offset : BlockNo)
  | alreadyUsed
  | freeBlockTooLarge
  | freeBlockInUse
  | duplicateFree (fl ref : BlockNo) (status : Status)
  /-- A block outside of the store is used although it could not be read. -/
  | uninitialized
  /-- The array of block infos is left. -/
  | outOfBounds
  /-- A loop that does not end. -/
  | diverges
  deriving DecidableEq

abbrev Check := Except Complaint

/-- What the check sees of a store: any number of blocks with any contents. -/
structure Image (z : BlockSize) where
  size : BlockNo
  block : BlockNo → Block z

def State.image (s : State z) : Image z := { size := s.below.size, block := s.below.block }

def checkRead (image : Image z) (b : BlockNo) : Check (Block z) :=
  if b < image.size then .ok (image.block b) else .error .uninitialized

/-! The array `binfo` has `fs_nblocks` elements. -/

def lookup (fsNblocks : BlockNo) (binfo : Info) (b : BlockNo) : Check Status :=
  if b < fsNblocks then .ok (binfo b) else .error .outOfBounds

def mark (fsNblocks : BlockNo) (binfo : Info) (b : BlockNo) (status : Status) : Check Info :=
  if b < fsNblocks then .ok (Function.update binfo b status) else .error .outOfBounds

/-- The references of an indirect block, up to the one at which the file ends. -/
def checkRefs (check : BlockNo → BlockNo → Info → Check Info) (nblocks size : BlockNo) (ib : Block z) :
    List (Fin z.refs) → (offset : BlockNo) → Info → Check Info
  | [], _, binfo => .ok binfo
  | i :: rest, offset, binfo => do
    let binfo ← check (ib i) offset binfo
    let offset := offset + size
    if offset ≥ nblocks then .ok binfo else checkRefs check nblocks size ib rest offset binfo

def checkInode (image : Image z) (nblocks fsNblocks : BlockNo) :
    (nlevels : Nat) → (node offset : BlockNo) → Info → Check Info
  | nlevels, node, offset, binfo =>
    if node = 0 then .ok binfo
    else if node ≥ fsNblocks then .error (.offStorage node fsNblocks offset)
    else do
      let status ← lookup fsNblocks binfo node
      if status ≠ .unknown then .error .alreadyUsed
      else match nlevels with
        | 0 => mark fsNblocks binfo node .data
        | nlevels + 1 => do
          let binfo ← mark fsNblocks binfo node .indir
          let ib ← checkRead image node
          checkRefs (checkInode image nblocks fsNblocks nlevels) nblocks
            (1 <<< UInt32.ofNat (nlevels * z.logRpb)) ib (List.finRange z.refs)
            offset binfo

/-- `for (b = 1; b <= n_inodeblocks; b++) binfo[b].status = BI_INODE` -/
def markInodes (fsNblocks : BlockNo) : (left : Nat) → (b : BlockNo) → Info → Check Info
  | 0, _, binfo => .ok binfo
  | left + 1, b, binfo => do
    let binfo ← mark fsNblocks binfo b .inode
    markInodes fsNblocks left (b + 1) binfo

/-- The inode at an index of its block. -/
def scanInode (image : Image z) (tib : Block z) (binfo : Info) (i : Nat) : Check Info :=
  let nblocks := ref tib (2 * i + 1)
  if nblocks ≠ 0 then checkInode image nblocks image.size (levelsFor z (nblocks - 1)) (ref tib (2 * i)) 0 binfo
    else .ok binfo

def scanInodes (image : Image z) : (left : Nat) → (b : BlockNo) → Info → Check Info
  | 0, _, binfo => .ok binfo
  | left + 1, b, binfo => do
    let tib ← checkRead image b
    let binfo ← (List.range z.inodes).foldlM (scanInode image tib) binfo
    scanInodes image left (b + 1) binfo

/-- A slot of a free list block. Slots that point outside of the store are passed over. -/
def scanSlot (fsNblocks fl : BlockNo) (tfb : Block z) (binfo : Info) (i : Nat) : Check Info :=
  let target := ref tfb i
  if target = 0 then .ok binfo
  else if target ≥ fsNblocks then .ok binfo
  else do
    let status ← lookup fsNblocks binfo target
    if status ≠ .unknown then .error (.duplicateFree fl target status) else mark fsNblocks binfo target .free

/-- Each block of the list is marked, so their number bounds the rounds. -/
def scanFree (image : Image z) : (rounds : Nat) → (fl : BlockNo) → Info → Check Info
  | 0, _, _ => .error .diverges
  | rounds + 1, fl, binfo =>
    if fl = 0 then .ok binfo
    else if fl ≥ image.size then .error .freeBlockTooLarge
    else do
      let status ← lookup image.size binfo fl
      if status ≠ .unknown then .error .freeBlockInUse
      else do
        let binfo ← mark image.size binfo fl .freelist
        let tfb ← checkRead image fl
        let binfo ← (List.range' 1 (z.refs - 1)).foldlM (scanSlot image.size fl tfb) binfo
        scanFree image rounds (ref tfb 0) binfo

/-- The first block that is not accounted for. -/
def findLeak (fsNblocks : BlockNo) (binfo : Info) : (left : Nat) → (b : BlockNo) → Check (Option BlockNo)
  | 0, _ => .ok none
  | left + 1, b => do
    let status ← lookup fsNblocks binfo b
    if status = .unknown then .ok (some b) else findLeak fsNblocks binfo left (b + 1)

/-- An error is a check that returns 0; a check that returns 1 may have reported a leaked block. -/
def Image.treediskCheck (image : Image z) : Check (Option BlockNo) := do
  let fsNblocks := image.size
  if fsNblocks = 0 then .error .emptyStorage
  else do
    let superblock ← checkRead image 0
    let n := nInodeblocks superblock
    if 1 + n > fsNblocks then .error .noRoomForInodes
    else if freeList superblock ≥ fsNblocks then .error .freeListTooLarge
    else do
      let binfo ← mark fsNblocks (fun _ => .unknown) 0 .super
      let binfo ← markInodes fsNblocks n.toNat 1 binfo
      let binfo ← scanInodes image n.toNat 1 binfo
      let binfo ← scanFree image (fsNblocks.toNat + 1) (freeList superblock) binfo
      findLeak fsNblocks binfo fsNblocks.toNat 0

def treediskCheck (s : State z) : Check (Option BlockNo) := s.image.treediskCheck

end Egos.Treedisk
