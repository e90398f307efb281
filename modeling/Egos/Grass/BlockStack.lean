import Egos.Block.Layers
import Egos.Block.Treedisk
import Egos.Grass.BlockClient
import Egos.Grass.Disksvr
import Egos.Grass.InodeStore

/-! The servers between the disk and the files as main.c starts them: the disk server, the
physical block server with its two partitions, and the virtual block server with the FAT file
system on top of a cache. The kernel pages to the first partition (grass/process.c). -/

namespace Egos.BlockStack
open Library Files Blocksvr BlockClient
open Disk (Block BlockNo Method BLOCK_SIZE WORDS nullBlock partdisk clockdisk fatAccess)
open Partdisk (Part Partition DISK_SIZE PG_DEV_BLOCKS)
open Blkfile (MAX_INODES)
open Grass (Pid bytesOf)

inductive Stop where
  | server (reason : Files.Halt)
  | protdisk (condition : String)
  | clockdisk (reason : Clockdisk.Halt)
  | fatdisk (reason : Fatdisk.Halt)
  | treedisk (reason : Treedisk.Halt)
  | panic (message : String)
  /-- A store of the table that could not be opened is used. -/
  | nullPointer
  /-- assert(success) of the paging code -/
  | frame

/-! The bytes and the words of a block. -/

theorem word_inside {i : Nat} (inside : i < BLOCK_SIZE) : i / 4 < WORDS := by
  unfold BLOCK_SIZE at inside
  unfold WORDS BLOCK_SIZE
  omega

def toBytes (block : Block) : DataBlock := fun i => (bytesOf (block ⟨i / 4, word_inside i.isLt⟩)).getD (i % 4) 0

def ofBytes (data : DataBlock) : Block := fun i => wordAt (List.ofFn data) (4 * i)

variable {ε : Type}

def call (call : BlockCall) : Effect BlockCall.Reply ε call.Reply := Effect.perform call

/-- protdisk.c -/
def protdisk (ino : UInt32) : Layer Method.Reply BlockCall.Reply Stop Unit := fun method own =>
  match method with
  | .nblocks => do
    match ← call (.getsize ino) with
    | some nblocks => pure (nblocks.toInt32.toInt, own)
    | none => .halt (.protdisk "r")
  | .setsize _ => .halt (.protdisk "0")
  | .read offset buffer => do
    match ← call (.read ino offset) with
    | some data => pure ((0, ofBytes data), own)
    | none => pure ((-1, buffer), own)
  | .write offset block => do
    let success ← call (.write ino offset (toBytes block))
    pure (if success then 0 else -1, own)

/-! The physical block server. -/

/-- The disk server when the host transfers whole blocks. Its client waits until the event has been run. -/
def diskServer (src : Pid) : Service Rpc.Reply Stop Disksvr.State := fun rpc s =>
  match (Disksvr.receive rpc.msg src (some BLOCK_SIZE) >>= fun () => Disksvr.complete) s with
  | .done () after => .done (answer src rpc.repsize (after.sent.drop s.sent.length)) after
  | .halted reason after => .halted (.server reason) after

def PAGE_PARTITION : UInt32 := 0
def FILE_PARTITION : UInt32 := 1

abbrev Parts := Fin Kind.phys.nInodes → Part

/-- block_init("phys", below) -/
def physParts : Parts := fun ino =>
  if ino.val = 0 then { delta := 0, nblocks := PG_DEV_BLOCKS }
    else { delta := PG_DEV_BLOCKS, nblocks := DISK_SIZE - PG_DEV_BLOCKS }

def physTable : Table Method.Reply Stop Parts Kind.phys.nInodes where
  read ino offset parts := do
    let (answer, part) ← partdisk (.read offset nullBlock) (parts ino)
    pure (if answer.1 < 0 then none else some (toBytes answer.2), Function.update parts ino part)
  write ino offset data parts := do
    let (result, part) ← partdisk (.write offset (ofBytes data)) (parts ino)
    pure (decide (0 ≤ result), Function.update parts ino part)
  nblocks ino parts := do
    let (size, part) ← partdisk .nblocks (parts ino)
    pure (.ofInt size, Function.update parts ino part)
  setsize ino nblocks parts := do
    let (result, part) ← partdisk (.setsize nblocks) (parts ino)
    pure (decide (0 ≤ result), Function.update parts ino part)

abbrev PhysState := Unit × Parts × Unit × Unit × Disksvr.State

/-- The physical block server, asked by the process `src`. -/
def physServer (phys src : Pid) : Service BlockCall.Reply Stop PhysState :=
  blockCalls.over ((physTable.server .server src).over ((protdisk 0).over (blockCalls.over (diskServer phys))))

/-- main.c starts the disk server on a file of the host. -/
def boot (file : List UInt8) : PhysState := ((), physParts, (), (), .init (16 * 1024) file)

/-! The virtual block server. -/

def NCACHE_BLOCKS : BlockNo := 20

instance : NeZero NCACHE_BLOCKS.toNat := ⟨by decide⟩

section Virt
open Fatdisk (Access Stepwise.fatdiskCreate Stepwise.fatdiskInit Stepwise.fatdiskRead Stepwise.fatdiskWrite
  Stepwise.fatdiskNblocks
  Stepwise.fatdiskSetsize)

/-- The stores that are not null pointers. -/
abbrev Opened := Fin MAX_INODES → Bool

def used {α : Type} (opened : Opened) (ino : Fin MAX_INODES) (program : Fatdisk.Steps α) : Effect Access.Reply Stop α :=
  if opened ino then program.renameHalts .fatdisk else .halt .nullPointer

def virtTable : Table Access.Reply Stop Opened Kind.virt.nInodes where
  read ino offset opened := do
    let block ← used opened ino (Stepwise.fatdiskRead (.ofNat ino) offset)
    pure (block.map toBytes, opened)
  write ino offset data opened := do
    let result ← used opened ino (Stepwise.fatdiskWrite (.ofNat ino) offset (ofBytes data))
    pure (decide (0 ≤ result), opened)
  nblocks ino opened := do
    let size ← used opened ino (Stepwise.fatdiskNblocks (.ofNat ino))
    pure (.ofInt size, opened)
  setsize ino nblocks opened := do
    let result ← used opened ino (Stepwise.fatdiskSetsize (.ofNat ino) nblocks)
    pure (decide (0 ≤ result), opened)

/-- block_init("virt", below) -/
def virtInit : Effect Access.Reply Stop Opened := do
  let result ← (Stepwise.fatdiskCreate (.ofNat MAX_INODES)).renameHalts .fatdisk
  if result < 0 then .halt (.panic "block_init: can't create fatdisk file system")
  else (List.finRange MAX_INODES).foldlM (fun (opened : Opened) (inode : Fin MAX_INODES) => do
    let success ← (Stepwise.fatdiskInit (.ofNat inode)).renameHalts .fatdisk
    pure (Function.update opened inode success)) fun _ => false

/-- The virtual block server is started and serves a client. -/
def virtServer {α : Type} (src : Pid) (client : Effect BlockCall.Reply Stop α) : Effect Access.Reply Stop α := do
  let opened ← virtInit
  let served ← (client.through blockCalls ()).through (virtTable.server .server src) opened
  pure served.1.1

/-- What it asks the physical block server. The memory of the cache may hold anything. -/
def virtCalls {α : Type} (src : Pid) (memory : Fin NCACHE_BLOCKS.toNat → Block)
    (client : Effect BlockCall.Reply Stop α) :
    Effect BlockCall.Reply Stop α := do
  let files := (virtServer src client).through fatAccess 0
  let cached := files.through (clockdisk .clockdisk) (Clockdisk.clockdiskInit () memory)
  let served ← cached.through (protdisk FILE_PARTITION) ()
  pure served.1.1.1

end Virt

/-! The block file server. -/

/-- The server asks the virtual block server. The process table does not change, and replies are put aside. -/
def fileCalls (uid : Pid → Option Grass.Uid) :
    Layer Files.Call.Reply BlockCall.Reply Stop (List (Pid × FileReply)) := fun c sent =>
  match c with
  | .find pid => pure (uid pid, sent)
  | .send dst reply => pure ((), sent ++ [(dst, reply)])
  | .blockRead ino offset => do return (← call (.read ino offset), sent)
  | .blockWrite ino offset block => do return (← call (.write ino offset block), sent)
  | .blockGetsize ino => do return (← call (.getsize ino), sent)
  | .blockSetsize ino size => do return (← call (.setsize ino size), sent)
  | .garbage _ => pure (fun _ => 0, sent)

/-- The file server is started and handles these messages. -/
def fileServer (uid : Pid → Option Grass.Uid) (requests : List (Pid × List UInt8)) :
    Effect BlockCall.Reply Stop (List (Pid × FileReply)) := do
  let server := Blkfile.start >>= fun cache => Blkfile.serveAll cache requests
  let served ← (server.renameHalts .server).through (fileCalls uid) []
  pure served.2

/-! Paging. -/

def BLOCKS_PER_PAGE : Nat := PAGESIZE / BLOCK_SIZE

abbrev Frame := Fin BLOCKS_PER_PAGE → DataBlock

/-- assert(success) -/
def checked {α : Type} : Option α → Effect BlockCall.Reply Stop α
  | some value => pure value
  | none => .halt .frame

/-- frame_write, while nobody changes the frame. -/
def frameWrite (frame : Frame) (block : UInt32) : Effect BlockCall.Reply Stop Unit :=
  (List.finRange BLOCKS_PER_PAGE).forM fun i => do
    let success ← call (.write PAGE_PARTITION (block * .ofNat BLOCKS_PER_PAGE + .ofNat i) (frame i))
    checked (if success then some () else none)

/-- frame_read -/
def frameRead (frame : Frame) (block : UInt32) : Effect BlockCall.Reply Stop Frame :=
  (List.finRange BLOCKS_PER_PAGE).foldlM (fun frame i => do
    let data ← checked (← call (.read PAGE_PARTITION (block * .ofNat BLOCKS_PER_PAGE + .ofNat i)))
    pure (Function.update frame i data)) frame

inductive PageOp where
  | out (frame : Frame) (block : UInt32)
  | back (block : UInt32)

/-- A process whose pages are written to the paging device and read back. -/
def session : List PageOp → Effect BlockCall.Reply Stop (List Frame)
  | [] => pure []
  | .out frame block :: rest => do
    frameWrite frame block
    session rest
  | .back block :: rest => do
    let frame ← frameRead (fun _ _ => 0) block
    let frames ← session rest
    pure (frame :: frames)

end Egos.BlockStack
