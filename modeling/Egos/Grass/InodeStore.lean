import Egos.Grass.Blkfile

/-! The block file server over a block store in which every inode is an array of blocks, and
the byte strings that its files stand for. -/

namespace Egos.Files
open Library
open Grass (Pid Uid)

/-- The blocks of each inode of the block server, the process table, and the replies so far. -/
structure InodeStore where
  blocks : UInt32 → List DataBlock
  uid : Pid → Option Uid
  sent : List (Pid × FileReply)

def zeroBlock : DataBlock := fun _ => 0

namespace InodeStore

/-- Blocks that are not written read as zeros. -/
def extended (blocks : List DataBlock) (offset : Nat) (block : DataBlock) : List DataBlock :=
  (blocks ++ List.replicate (offset + 1 - blocks.length) zeroBlock).set offset block

def write (s : InodeStore) (ino : UInt32) (offset : Nat) (block : DataBlock) : InodeStore :=
  { s with blocks := Function.update s.blocks ino (extended (s.blocks ino) offset block) }

/-- What a call returns. The block server refuses inodes behind its last one, and an inode
is only cut off as a whole. -/
def serve : (c : Call) → Prog InodeStore Halt c.Reply
  | .find pid => fun s => .done (s.uid pid) s
  | .send dst reply => fun s => .done () { s with sent := s.sent ++ [(dst, reply)] }
  | .blockRead ino offset => fun s =>
    .done (if ino.toNat < Blkfile.MAX_INODES then (s.blocks ino)[offset.toNat]? else none) s
  | .blockWrite ino offset block => fun s =>
    if ino.toNat < Blkfile.MAX_INODES then .done true (s.write ino offset.toNat block) else .done false s
  | .blockGetsize ino => fun s => .done (if ino.toNat < Blkfile.MAX_INODES then some
      (UInt32.ofNat (s.blocks ino).length) else none) s
  | .blockSetsize ino size => fun s =>
    if ino.toNat < Blkfile.MAX_INODES then
      if size.toNat = (s.blocks ino).length then .done true s
      else if size = 0 then .done true { s with blocks := Function.update s.blocks ino [] }
      else .done false s
    else .done false s
  | .garbage _ => fun s => .done (fun _ => 0) s

/-- Nothing is stored. -/
def empty (uid : Pid → Option Uid) : InodeStore := { blocks := fun _ => [], uid, sent := [] }

/-- The bytes of an inode, with zeros behind its last block. -/
def byte (s : InodeStore) (ino : UInt32) (i : Nat) : UInt8 :=
  (s.blocks ino).getD (i / Disk.BLOCK_SIZE) zeroBlock (Fin.ofNat Disk.BLOCK_SIZE i)

end InodeStore

end Egos.Files

namespace Egos.Blkfile
open Library Files
open Grass (Pid Uid)

/-- The server handles the requests one after the other. -/
def serveAll (cache : Cache) (requests : List (Pid × List UInt8)) : Server Cache :=
  requests.foldlM (fun cache request => serve cache request.2 request.1) cache

/-- A run of the server over a new block store. -/
def session (uid : Pid → Option Uid) (requests : List (Pid × List UInt8)) : Outcome InodeStore Halt Cache :=
  ((start >>= fun cache => serveAll cache requests).run InodeStore.serve) (.empty uid)

end Egos.Blkfile

/-! The files as byte strings. -/

namespace Egos.Files
open Grass (Pid Uid)

structure ByteFile where
  bytes : List UInt8
  uid : Uid
  mode : UInt32

/-- The entry of the file in the table. -/
def ByteFile.stat (file : ByteFile) : FileStat :=
  { stAlloc := true, stSize := UInt64.ofNat file.bytes.length, stUid := file.uid, stMode := file.mode }

/-- Bytes in a string are replaced; a gap behind its end is filled with zeros. -/
def writeAt (bytes : List UInt8) (offset : Nat) (data : List UInt8) : List UInt8 :=
  let padded := bytes ++ List.replicate (offset - bytes.length) 0
  padded.take offset ++ data ++ padded.drop (offset + data.length)

abbrev ByteFiles := Fin Blkfile.MAX_INODES → Option ByteFile

namespace ByteFiles

/-- Inode 0 is no file. -/
def unused (files : ByteFiles) : Option (Fin Blkfile.MAX_INODES) :=
  (List.finRange Blkfile.MAX_INODES).find? fun ino => ino.val ≠ 0 && (files ino).isNone

def file (files : ByteFiles) (ino : UInt32) : Option ByteFile :=
  if inside : ino.toNat < Blkfile.MAX_INODES then files ⟨ino.toNat, inside⟩ else none

def put (files : ByteFiles) (ino : UInt32) (file : ByteFile) : ByteFiles :=
  if inside : ino.toNat < Blkfile.MAX_INODES then Function.update files ⟨ino.toNat, inside⟩ (some file) else files

/-- The reply to a request of the superuser, and the files after it. `data` is the data that comes with
the request. -/
def answer (files : ByteFiles) (req : FileRequest) (data : List UInt8) : FileReply × ByteFiles :=
  match req.type with
  | .create =>
    match files.unused with
    | none => (.cleared .error, files)
    | some ino =>
      ({ FileReply.cleared .ok with ino := UInt32.ofNat ino },
        Function.update files ino (some { bytes := [], uid := 0, mode := req.mode }))
  | .write =>
    match files.file req.ino with
    | none => (.cleared .error, files)
    | some file =>
      if req.size.toNat ≠ data.length then (.cleared .error, files)
      else (.cleared .ok, files.put req.ino { file with bytes := writeAt file.bytes req.offset.toNat data })
  | .read =>
    match files.file req.ino with
    | none => (.cleared .error, files)
    | some file =>
      let data := (file.bytes.drop req.offset.toNat).take req.size.toNat
      (Blkfile.readReply (UInt64.ofNat data.length) data, files)
  | .stat =>
    match files.file req.ino with
    | none => (.cleared .error, files)
    | some file => ({ FileReply.cleared .ok with op := .stat, stat := file.stat }, files)
  | .chmod =>
    match files.file req.ino with
    | none => (.cleared .error, files)
    | some file => (.cleared .ok, files.put req.ino { file with mode := req.mode })
  | .chown =>
    match files.file req.ino with
    | none => (.cleared .error, files)
    | some file => (.cleared .ok, files.put req.ino { file with uid := req.uid })
  | _ => (.cleared .error, files)

def receive (files : ByteFiles) (request : Pid × List UInt8) : FileReply × ByteFiles :=
  match FileRequest.decode request.2 with
  | none => (.cleared .error, files)
  | some (req, data) => files.answer req data

/-- The replies to requests one after the other, and the files after them. -/
def answers (files : ByteFiles) : List (Pid × List UInt8) → List (Pid × FileReply) × ByteFiles
  | [] => ([], files)
  | request :: rest =>
    let last := (files.receive request).2.answers rest
    ((request.1, (files.receive request).1) :: last.1, last.2)

end ByteFiles

/-- A request of the superuser to create a file, or for a file other than the table of the entries.
A read does not ask for so many bytes that the server cannot free the reply. -/
def Ordinary (uid : Pid → Option Uid) (request : Pid × List UInt8) : Prop :=
  uid request.1 = some 0 ∧ ∃ req data, FileRequest.decode request.2 = some (req, data) ∧
    (req.type = .create ∨ req.ino ≠ 0 ∧ (req.type = .write ∨ req.type = .read ∧ req.size.toNat < 2 ^ 32 - 56 ∨
      req.type = .stat ∨
      req.type = .chmod ∨ req.type = .chown))

end Egos.Files
