import Egos.Grass.FileServer

/-! The file server on top of the block server (blkfilesvr.c). Every file is an inode of the
block server; inode 0 holds the table of the entries of all files. -/

namespace Egos.Blkfile
open Library Files
open Grass (Pid bytesOf)
open Disk (BLOCK_SIZE)

def MAX_INODES : Nat := 128

instance : NeZero MAX_INODES := ⟨by decide⟩

instance : NeZero BLOCK_SIZE := ⟨by decide⟩

/-- `stat_cache` -/
abbrev Cache := Fin MAX_INODES → FileStat

namespace Cache

def entry (cache : Cache) (ino : UInt32) : Option FileStat :=
  if inside : ino.toNat < MAX_INODES then some (cache ⟨ino.toNat, inside⟩) else none

def put (cache : Cache) (ino : UInt32) (stat : FileStat) : Cache :=
  if inside : ino.toNat < MAX_INODES then Function.update cache ⟨ino.toNat, inside⟩ stat else cache

/-- The lowest inode other than 0 that is not allocated. -/
def unallocated (cache : Cache) : Option (Fin MAX_INODES) :=
  (List.finRange MAX_INODES).find? fun ino => ino.val ≠ 0 && !(cache ino).stAlloc

end Cache

/-- sizeof(struct file_stat) -/
def statSize : Nat := 24

/-- The bytes of a `struct file_stat` in memory. -/
def statBytes (stat : FileStat) : List UInt8 :=
  bytesOf (if stat.stAlloc then 1 else 0) ++ bytesOf 0 ++ bytesOf64 stat.stSize ++ bytesOf stat.stUid ++
    bytesOf stat.stMode

/-- An array in memory with its size in bytes. -/
structure Buffer where
  capacity : Nat
  byte : Nat → UInt8

namespace Buffer

def clear (capacity : Nat) : Buffer := { capacity, byte := fun _ => 0 }

def block (buffer : Buffer) (index : Nat) : DataBlock := fun i => buffer.byte (index * BLOCK_SIZE + i)

def putBlock (buffer : Buffer) (index : Nat) (block : DataBlock) : Buffer :=
  { buffer with byte := fun i =>
      if index * BLOCK_SIZE ≤ i ∧ i < (index + 1) * BLOCK_SIZE then block (Fin.ofNat BLOCK_SIZE (i - index * BLOCK_SIZE))
      else buffer.byte i }

/-- memcpy into the buffer. -/
def put (buffer : Buffer) (start : Nat) (data : List UInt8) : Buffer :=
  { buffer with byte := fun i => if start ≤ i ∧
    i < start + data.length then data.getD (i - start) 0 else buffer.byte i }

/-- memcpy out of the buffer. -/
def slice (buffer : Buffer) (start count : Nat) : List UInt8 := (List.range count).map fun i => buffer.byte (start + i)

end Buffer

/-- The stat cache as an array of bytes. -/
def Cache.buffer (cache : Cache) : Buffer :=
  { capacity := MAX_INODES * statSize
    byte := fun i => (statBytes (cache (Fin.ofNat MAX_INODES (i / statSize)))).getD (i % statSize) 0 }

/-- What an entry is after its bytes have been read from disk. -/
def statAt (buffer : Buffer) (ino : Fin MAX_INODES) : FileStat :=
  let bytes := buffer.slice (ino * statSize) statSize
  { stAlloc := wordAt bytes 0 ≠ 0, stSize := longAt bytes 8, stUid := wordAt bytes 16, stMode := wordAt bytes 20 }

/-- The loop of multiblock_read: how many blocks have been read when it ends. -/
def readBlocks (ino : UInt32) : Nat → Nat → UInt32 → Buffer → Server (Nat × Buffer)
  | 0, i, _, addr => pure (i, addr)
  | rest + 1, i, offset, addr => do
    match ← call (.blockRead ino offset) with
    | none => pure (i, addr)
    | some block =>
      if addr.capacity < (i + 1) * BLOCK_SIZE then .halt .overflow
      else readBlocks ino rest (i + 1) (offset + 1) (addr.putBlock i block)

/-- `none` if not even the first block could be read. -/
def multiblockRead (ino offset : UInt32) (addr : Buffer) (nblocks : UInt32) : Server (Option (Nat × Buffer)) := do
  let result ← readBlocks ino nblocks.toNat 0 offset addr
  pure (if result.1 = 0 ∧ nblocks ≠ 0 then none else some result)

/-- The loop of multiblock_write. -/
def writeBlocks (ino : UInt32) : Nat → Nat → UInt32 → Buffer → Server Bool
  | 0, _, _, _ => pure true
  | rest + 1, i, offset, addr =>
    if addr.capacity < (i + 1) * BLOCK_SIZE then .halt .overflow
    else do
      match ← call (.blockWrite ino offset (addr.block i)) with
      | false => pure false
      | true => writeBlocks ino rest (i + 1) (offset + 1) addr

def multiblockWrite (ino offset : UInt32) (addr : Buffer) (nblocks : UInt32) : Server Bool :=
  writeBlocks ino nblocks.toNat 0 offset addr

/-- The number of blocks of the stat cache. -/
def cacheBlocks : UInt32 := UInt32.ofNat ((MAX_INODES * statSize - 1) / BLOCK_SIZE + 1)

/-- A failure is only printed. -/
def flushStatCache (cache : Cache) : Server Unit := do
  let _ ← multiblockWrite 0 0 cache.buffer cacheBlocks
  pure ()

/-- `none` if there is no stat cache on the disk. -/
def loadStatCache : Server (Option Cache) := do
  let size ← call (.blockGetsize 0)
  if size.getD 0 ≠ cacheBlocks then pure none
  else do
    let result ← readBlocks 0 cacheBlocks.toNat 0 0 (.clear (MAX_INODES * statSize))
    pure (some (statAt result.2))

/-- The stat cache of a new disk. The size of inode 0 counts blocks. -/
def Cache.new : Cache :=
  Function.update (fun _ => .zero) 0
    { FileStat.zero with stAlloc := true, stSize := UInt64.ofNat (MAX_INODES / (BLOCK_SIZE / statSize)) }

/-- The part of blkfile_proc before its loop. -/
def start : Server Cache := do
  match ← loadStatCache with
  | some cache => pure cache
  | none => do
    flushStatCache .new
    pure .new

def refuse (cache : Cache) (src : Pid) : Server Cache := do
  respond .error src
  pure cache

def doCreate (cache : Cache) (req : FileRequest) (src : Pid) : Server Cache :=
  match cache.unallocated with
  | none => refuse cache src
  | some ino => do
    let uid ← findUid src
    let cache : Cache := Function.update cache ino { cache ino with stAlloc := true, stMode := req.mode, stUid := uid }
    flushStatCache cache
    call (.send src { FileReply.cleared .ok with ino := UInt32.ofNat ino })
    pure cache

/-- `if (!...) respond(FILE_ERROR)` where the handler goes on afterwards. -/
def respondUnless (success : Bool) (src : Pid) : Server Unit := if success then pure () else respond .error src

def doDelete (cache : Cache) (req : FileRequest) (src : Pid) : Server Cache :=
  if MAX_INODES < req.ino.toNat then refuse cache src
  else do
    match ← writeAllowed (cache.entry req.ino) src with
    | false => refuse cache src
    | true =>
      match cache.entry req.ino with
      | none => .halt (.outOfBounds "stat_cache")
      | some stat =>
        if stat.stAlloc then do
          let cache := cache.put req.ino { stat with stAlloc := false }
          flushStatCache cache
          let success ← call (.blockSetsize req.ino 0)
          respondUnless success src
          call (.send src (.cleared .ok))
          pure cache
        else do
          call (.send src (.cleared .ok))
          pure cache

/-- The entry of an allocated file; everything else is a bad inode. -/
def Cache.allocated (cache : Cache) (ino : UInt32) : Option FileStat := (cache.entry ino).filter (·.stAlloc)

def doChown (cache : Cache) (req : FileRequest) (src : Pid) : Server Cache :=
  match cache.allocated req.ino with
  | none => refuse cache src
  | some stat => do
    let uid ← findUid src
    if uid ≠ 0 then refuse cache src
    else do
      let cache := cache.put req.ino { stat with stUid := req.uid }
      flushStatCache cache
      call (.send src (.cleared .ok))
      pure cache

def doChmod (cache : Cache) (req : FileRequest) (src : Pid) : Server Cache :=
  match cache.allocated req.ino with
  | none => refuse cache src
  | some stat => do
    let uid ← findUid src
    if uid ≠ 0 ∧ uid ≠ stat.stUid then refuse cache src
    else do
      let cache := cache.put req.ino { stat with stMode := req.mode }
      flushStatCache cache
      call (.send src (.cleared .ok))
      pure cache

/-- The reply to a read: the size of a file_stat in it is the number of bytes read. -/
def readReply (n : UInt64) (data : List UInt8) : FileReply :=
  { FileReply.cleared .ok with op := .read, stat := { FileStat.zero with stSize := n }, data }

/-- A read of at least one byte before the end of the file. -/
def readContents (cache : Cache) (req : FileRequest) (stat : FileStat) (src : Pid) : Server Cache := do
  let left := (stat.stSize - req.offset).toUInt32
  let n := if req.size < left then req.size else left
  let first := (req.offset / UInt64.ofNat BLOCK_SIZE).toUInt32
  let last := ((req.offset + n.toUInt64) / UInt64.ofNat BLOCK_SIZE).toUInt32
  let nblocks := last - first + 1
  let contents := Buffer.clear (nblocks * UInt32.ofNat BLOCK_SIZE).toNat
  match ← multiblockRead req.ino first contents nblocks with
  | none => do
    freeReply req.size
    refuse cache src
  | some (count, contents) =>
    let start := req.offset.toNat % BLOCK_SIZE
    if count ≠ nblocks.toNat then do
      freeReply req.size
      refuse cache src
    else if contents.capacity < start + n.toNat then .halt .overflow
    else do
      call (.send src (readReply n.toUInt64 (contents.slice start n.toNat)))
      freeReply req.size
      pure cache

def doRead (cache : Cache) (req : FileRequest) (src : Pid) : Server Cache :=
  match cache.allocated req.ino with
  | none => refuse cache src
  | some stat => do
    match ← readAllowed (some stat) src with
    | false => refuse cache src
    | true =>
      if req.size ≠ 0 ∧ req.offset < stat.stSize then readContents cache req stat src
      else do
        call (.send src (readReply 0 []))
        freeReply req.size
        pure cache

/-- The part of a file that blkfile_put changes, in bytes and in blocks. -/
structure Extent where
  finalSize : UInt64
  startBlock : UInt64
  endBlock : UInt64
  /-- How many blocks to read from the file. -/
  nblocks : UInt32

def extent (fileSize offset : UInt64) (size : UInt32) : Extent :=
  let startBlock := offset / UInt64.ofNat BLOCK_SIZE
  let finish := offset + size.toUInt64
  let endBlock := finish / UInt64.ofNat BLOCK_SIZE
  if fileSize < finish then
    { finalSize := finish, startBlock, endBlock,
      nblocks := (fileSize / UInt64.ofNat BLOCK_SIZE - startBlock + 1).toUInt32 }
  else { finalSize := fileSize, startBlock, endBlock, nblocks := (endBlock - startBlock + 1).toUInt32 }

/-- The old contents of the blocks that are going to be written, `none` if they cannot be
read. A new file and blocks after the end of the file are not read. -/
def oldContents (ino : UInt32) (fileSize : UInt64) (e : Extent) : Server (Option Buffer) :=
  let contents := Buffer.clear ((e.endBlock - e.startBlock + 1) * UInt64.ofNat BLOCK_SIZE).toNat
  if fileSize / UInt64.ofNat BLOCK_SIZE < e.startBlock ∨ fileSize = 0 then pure (some contents)
  else do
    let result ← multiblockRead ino e.startBlock.toUInt32 contents e.nblocks
    pure (result.map Prod.snd)

/-- blkfile_put for the file with the given entry; `none` is -1. -/
def put (cache : Cache) (ino : UInt32) (stat : FileStat) (offset : UInt64) (data : List UInt8) (size : UInt32) :
    Server (Option Cache) := do
  let e := extent stat.stSize offset size
  match ← oldContents ino stat.stSize e with
  | none => pure none
  | some contents =>
    if contents.capacity < offset.toNat % BLOCK_SIZE + size.toNat then .halt .overflow
    else do
      match ← multiblockWrite ino e.startBlock.toUInt32 (contents.put (offset.toNat % BLOCK_SIZE) data)
          (e.endBlock - e.startBlock + 1).toUInt32 with
      | false => pure none
      | true => do
        let cache := cache.put ino { stat with stSize := e.finalSize }
        flushStatCache cache
        pure (some cache)

def doWrite (cache : Cache) (req : FileRequest) (data : List UInt8) (src : Pid) : Server Cache :=
  match cache.allocated req.ino with
  | none => refuse cache src
  | some stat =>
    if req.size.toNat ≠ data.length then refuse cache src
    else do
      match ← writeAllowed (some stat) src with
      | false => refuse cache src
      | true => do
        match ← put cache req.ino stat req.offset data req.size with
        | none => refuse cache src
        | some cache => do
          respond .ok src
          pure cache

def doStat (cache : Cache) (req : FileRequest) (src : Pid) : Server Cache :=
  match cache.allocated req.ino with
  | none => refuse cache src
  | some stat => do
    match ← readAllowed (some stat) src with
    | false => refuse cache src
    | true => do
      call (.send src { FileReply.cleared .ok with op := .stat, stat })
      pure cache

/-- When the block server refuses the new size the handler answers and goes on. -/
def doSetsize (cache : Cache) (req : FileRequest) (src : Pid) : Server Cache :=
  match cache.allocated req.ino with
  | none => refuse cache src
  | some stat =>
    if stat.stSize < req.offset then refuse cache src
    else do
      match ← writeAllowed (some stat) src with
      | false => refuse cache src
      | true => do
        let nblocks := if req.offset = 0 then 0 else (1 + req.offset / UInt64.ofNat BLOCK_SIZE).toUInt32
        let success ← call (.blockSetsize req.ino nblocks)
        respondUnless success src
        let cache := cache.put req.ino { stat with stSize := req.offset }
        flushStatCache cache
        respond .ok src
        pure cache

/-- The switch of blkfile_proc. -/
def handle (cache : Cache) (req : FileRequest) (data : List UInt8) (src : Pid) : Server Cache :=
  match req.type with
  | .create => doCreate cache req src
  | .delete => doDelete cache req src
  | .chown => doChown cache req src
  | .chmod => doChmod cache req src
  | .read => doRead cache req src
  | .write => doWrite cache req data src
  | .stat => doStat cache req src
  | .setsize => doSetsize cache req src
  | .setFlags | .unknown => .halt (.assertion "blkfile_proc" "0")

/-- One turn of the loop of blkfile_proc. -/
def serve (cache : Cache) (msg : List UInt8) (src : Pid) : Server Cache :=
  match FileRequest.decode msg with
  | none => .halt (.assertion "blkfile_proc" "req_size >= (int) sizeof(*req)")
  | some (req, data) => handle cache req data src

end Egos.Blkfile
