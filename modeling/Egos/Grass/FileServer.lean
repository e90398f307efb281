import Egos.Block.Store
import Egos.Grass.Process
import Egos.Library.Effect

/-! The interface of the file servers (shared/file.h): requests and replies, the calls that
a server makes while it handles a request, and the permission check of both servers. -/

namespace Egos.Files
open Library
open Grass (Pid Uid bytesOf)

/-- The bytes of a disk block. -/
abbrev DataBlock := Fin Disk.BLOCK_SIZE → UInt8

def P_FILE_OTHER_READ : UInt32 := 1
def P_FILE_OTHER_WRITE : UInt32 := 2
def P_FILE_OWNER_READ : UInt32 := 4
def P_FILE_OWNER_WRITE : UInt32 := 8

/-- `struct file_stat` -/
structure FileStat where
  stAlloc : Bool
  stSize : UInt64
  stUid : Uid
  stMode : UInt32
  deriving DecidableEq

/-- An entry that is all zeros. -/
def FileStat.zero : FileStat := { stAlloc := false, stSize := 0, stUid := 0, stMode := 0 }

/-- The type of a request, as the servers tell the values of enum file_op apart. -/
inductive FileOp where
  | create
  | chown
  | chmod
  | read
  | write
  | stat
  | setsize
  | delete
  | setFlags
  /-- FILE_UNUSED, or no value of the enumeration. -/
  | unknown
  deriving DecidableEq

def FileOp.ofCode (code : UInt32) : FileOp :=
  match code.toNat with
  | 1 => .create
  | 2 => .chown
  | 3 => .chmod
  | 4 => .read
  | 5 => .write
  | 6 => .stat
  | 7 => .setsize
  | 8 => .delete
  | 9 => .setFlags
  | _ => .unknown

/-- `struct file_request` -/
structure FileRequest where
  type : FileOp
  ino : UInt32
  offset : UInt64
  size : UInt32
  uid : Uid
  mode : UInt32

/-- The bytes of an `unsigned long`. -/
def bytesOf64 (value : UInt64) : List UInt8 := bytesOf value.toUInt32 ++ bytesOf (value >>> 32).toUInt32

/-- The four bytes of a message from an index on, as an `unsigned int`. -/
def wordAt (msg : List UInt8) (index : Nat) : UInt32 :=
  (msg.getD index 0).toUInt32 ||| (msg.getD (index + 1) 0).toUInt32 <<< 8 |||
    (msg.getD (index + 2) 0).toUInt32 <<< 16 |||
    (msg.getD (index + 3) 0).toUInt32 <<< 24

theorem bytes_joined (w : UInt32) :
    w.toUInt8.toUInt32 ||| (w >>> 8).toUInt8.toUInt32 <<< 8 ||| (w >>> 16).toUInt8.toUInt32 <<< 16 |||
    (w >>> 24).toUInt8.toUInt32 <<< 24 = w := by
  apply UInt32.eq_of_toBitVec_eq
  simp only [UInt32.toBitVec_or, UInt32.toBitVec_shiftLeft, UInt8.toBitVec_toUInt32, UInt32.toBitVec_toUInt8,
    UInt32.toBitVec_shiftRight]
  apply BitVec.eq_of_getLsbD_eq
  intro i inside
  simp only [show UInt32.toBitVec 8 % 32 = 8#32 by decide, show UInt32.toBitVec 16 % 32 = 16#32 by decide,
    show UInt32.toBitVec 24 % 32 = 24#32 by
      decide, BitVec.getLsbD_or, BitVec.getLsbD_setWidth, BitVec.shiftLeft_eq', BitVec.ushiftRight_eq',
    BitVec.getLsbD_shiftLeft, BitVec.getLsbD_ushiftRight, BitVec.toNat_ofNat]
  -- one case for each byte that the bit can be in
  rcases (by omega : i < 8 ∨ (8 ≤ i ∧ i < 16) ∨ (16 ≤ i ∧ i < 24) ∨ 24 ≤ i) with first | second | third | fourth
  · grind
  · grind
  · grind
  · grind

/-- A word is read back from where its bytes are. -/
theorem wordAt_bytesOf (front : List UInt8) (w : UInt32) (rest : List UInt8) :
    wordAt (front ++ (bytesOf w ++ rest)) front.length = w := by
  have byte : ∀ k < 4, (front ++ (bytesOf w ++ rest)).getD (front.length + k) 0 = (bytesOf w).getD k 0 := by
    intro k inside
    have size : (bytesOf w).length = 4 := rfl
    rw [List.getD_eq_getElem?_getD, List.getElem?_append_right (by omega), Nat.add_sub_cancel_left,
      List.getElem?_append_left (by omega), List.getD_eq_getElem?_getD]
  have first := byte 0 (by omega)
  rw [Nat.add_zero] at first
  unfold wordAt
  rw [first, byte 1 (by omega), byte 2 (by omega), byte 3 (by omega)]
  exact bytes_joined w

def longAt (msg : List UInt8) (index : Nat) : UInt64 :=
  (wordAt msg index).toUInt64 ||| (wordAt msg (index + 4)).toUInt64 <<< 32

/-- sizeof(struct file_request) -/
def requestSize : Nat := 32

def PAGESIZE : Nat := 4096

/-- What a file server finds in its buffer: the request, and the data after it. A message
is cut off at the end of the buffer. -/
def FileRequest.decode (msg : List UInt8) : Option (FileRequest × List UInt8) :=
  let received := msg.take (requestSize + PAGESIZE)
  if received.length < requestSize then none
  else
    let req : FileRequest :=
      { type := .ofCode (wordAt received 0), ino := wordAt received 4, offset := longAt received 8,
        size := wordAt received 16, uid := wordAt received 20, mode := wordAt received 24 }
    some (req, received.drop requestSize)

inductive Status where
  | ok
  | error
  deriving DecidableEq

/-- `struct file_reply` with the data that follows it. -/
structure FileReply where
  status : Status
  ino : UInt32
  op : FileOp
  stat : FileStat
  data : List UInt8
  deriving DecidableEq

/-- The replies are cleared before they are filled in. -/
def FileReply.cleared (status : Status) : FileReply := { status, ino := 0, op := .unknown, stat := .zero, data := [] }

/-- Reasons why the kernel stops, or runs on with broken memory. -/
inductive Halt where
  | assertion (function condition : String)
  | nullPointer
  /-- An array is accessed past its end. -/
  | outOfBounds (array : String)
  /-- A buffer is accessed past its end. -/
  | overflow
  deriving DecidableEq

/-- What a file server asks of the kernel and of the block server. The process gives up the
CPU in the calls of the block server and in no others. -/
inductive Call where
  /-- proc_find: the uid in the table entry of a process. -/
  | find (pid : Pid)
  | send (dst : Pid) (reply : FileReply)
  | blockRead (ino offset : UInt32)
  | blockWrite (ino offset : UInt32) (block : DataBlock)
  | blockGetsize (ino : UInt32)
  | blockSetsize (ino size : UInt32)
  /-- What the memory held that realloc gives to a buffer that grows. -/
  | garbage (count : Nat)

/-- `none` and `false` stand for a process that does not exist and for a call that failed. -/
abbrev Call.Reply : Call → Type
  | .find _ => Option Uid
  | .send .. => Unit
  | .blockRead .. => Option DataBlock
  | .blockWrite .. => Bool
  | .blockGetsize _ => Option UInt32
  | .blockSetsize .. => Bool
  | .garbage _ => Nat → UInt8

/-- The process gives up the CPU until the block server has answered. -/
def Call.isRpc : Call → Bool
  | .blockRead .. | .blockWrite .. | .blockGetsize _ | .blockSetsize .. => true
  | .find _ | .send .. | .garbage _ => false

abbrev Server := Effect Call.Reply Halt

def call (c : Call) : Server c.Reply := .perform c

/-- blkfile_respond and ramfile_respond, which are given no data. -/
def respond (status : Status) (src : Pid) : Server Unit := call (.send src (.cleared status))

/-- sizeof(struct file_reply) -/
def FileReply.size : Nat := 40

/-- `free(rep)` for a reply with room for data. my_free writes junk over the chunk and the 16 bytes
behind it, up to an index that is an `unsigned int`: from 4 GiB on it does not stop there. -/
def freeReply (ext : UInt32) : Server Unit :=
  if FileReply.size + ext.toNat + 16 < 2 ^ 32 then pure () else .halt .overflow

/-- `proc_find(src)->uid` -/
def findUid (src : Pid) : Server Uid := do
  match ← call (.find src) with
  | some uid => pure uid
  | none => .halt .nullPointer

/-- The permission checks of both servers for a read or a write. The entry of a file is
looked at only for a sender other than the superuser; `none` is an entry past the end of
the table. -/
def allowed (owner other : UInt32) (stat : Option FileStat) (src : Pid) : Server Bool := do
  let uid ← findUid src
  if uid = 0 then pure true
  else
    match stat with
    | none => .halt (.outOfBounds "stat")
    | some stat => pure (if uid = stat.stUid then stat.stMode &&& owner ≠ 0 else stat.stMode &&& other ≠ 0)

def readAllowed : Option FileStat → Pid → Server Bool := allowed P_FILE_OWNER_READ P_FILE_OTHER_READ

def writeAllowed : Option FileStat → Pid → Server Bool := allowed P_FILE_OWNER_WRITE P_FILE_OTHER_WRITE

end Egos.Files
