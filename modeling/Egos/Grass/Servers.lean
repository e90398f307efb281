import Egos.Grass.Blkfile
import Egos.Grass.Dirsvr
import Egos.Library.Rpc

/-! The block file server and the directory server among their clients: proc_send and
sys_rpc as far as requests and replies go. The block file server waits for the block server,
and the directory server for the processes whose files are directories. What a server finds
in the replies to its own requests is left open. -/

namespace Egos.Servers
open Library Library.Rpc
open Grass (Pid Uid bytesOf)
open Files (wordAt bytesOf64)

inductive Name where
  | blkfile
  | directory
  deriving DecidableEq

instance : Fintype Name := ⟨{.blkfile, .directory}, fun name => by cases name <;> decide⟩

/-- The message of file_read or file_write (shared/file.c). -/
def fileMessage (code ino : UInt32) (offset size : Nat) (data : List UInt8) : List UInt8 :=
  bytesOf code ++ bytesOf ino ++ bytesOf64 (.ofNat offset) ++ bytesOf (.ofNat size) ++
    bytesOf 0 ++ bytesOf 0 ++ bytesOf 0 ++ data

/-- sys_rpc of the directory server. A request to itself fails at once. -/
def rpc (pid : Name → Pid) (server : Pid) (msg : List UInt8) : Option (Option (Name × List UInt8)) :=
  if server = pid .directory then none
  else if server = pid .blkfile then some (some (.blkfile, msg))
  else some none

def fileTarget : Files.Call → Option Pid
  | .send dst _ => some dst
  | _ => none

def dirTarget : Dirsvr.Call → Option Pid
  | .send dst _ => some dst
  | _ => none

/-- proc_find looks at the process table; other calls return what the other process likes. -/
def fileReturns (table : Pid → Option Uid) : (c : Files.Call) → c.Reply → Prop
  | .find pid, found => found = table pid
  | _, _ => True

def dirCallee (pid : Name → Pid) : Dirsvr.Call → Option (Option (Name × List UInt8))
  | .fileRead file offset size => rpc pid file.server (fileMessage 4 file.ino offset size [])
  | .fileWrite file offset data => rpc pid file.server (fileMessage 5 file.ino offset data.length data)
  | .send .. => none

/-- The directory server follows a directory for at most `fuel` pages. -/
def server (pid : Name → Pid) (fuel : Nat) : Name → Protocol Name Pid (List UInt8) Uid
  | .blkfile =>
    { Op := Files.Call
      Reply := Files.Call.Reply
      Stop := Files.Halt
      State := Blkfile.Cache
      target := fileTarget
      callee := fun c => if c.isRpc then some none else none
      returns := fileReturns
      serve := Blkfile.serve }
  | .directory =>
    { Op := Dirsvr.Call
      Reply := Dirsvr.Call.Reply
      Stop := Dirsvr.Halt
      State := Unit
      target := dirTarget
      callee := dirCallee pid
      returns := fun _ _ _ => True
      serve := fun _ msg src => Dirsvr.serve fuel msg src }

variable {pid : Name → Pid} {fuel : Nat}

/-- Requests that dir_proc answers. -/
def Answerable : (i : Name) → (server pid fuel i).State → Request Pid (List UInt8) → Prop
  | .blkfile, _, _ => True
  | .directory, _, r => Dirsvr.DirOp.ofCode (wordAt (r.msg.take (8 + Dirsvr.MAX_PATH_NAME)) 0) ≠ .remove

/-- The block server does not refuse to change the size of a file. -/
def fileResizes : (c : Files.Call) → c.Reply → Prop
  | .blockSetsize .., success => success = true
  | _, _ => True

def Resizes : (i : Name) → (op : (server pid fuel i).Op) → (server pid fuel i).Reply op → Prop
  | .blkfile => fileResizes
  | .directory => fun _ _ => True

/-! What is needed for an answer to every request. -/

/-- A request that blkfile_proc comes to an end with: it knows the type, the handler looks only at
entries of the table (FILE_DELETE lets 128 pass), and the sizes of a read do not wrap around. -/
structure Bounded (req : Files.FileRequest) : Prop where
  known : req.type ≠ .setFlags ∧ req.type ≠ .unknown
  entry : req.type = .delete → req.ino.toNat ≠ Blkfile.MAX_INODES
  size : req.type = .read → req.size.toNat ≤ 2 ^ 32 - 2048

/-- A message with such a request, or one to look up or to insert a name in a directory of the block
file server. A directory that is said to be at the directory server itself cannot be read. -/
def Good (pid : Name → Pid) : Name → List UInt8 → Prop
  | .blkfile, msg => ∃ req data, Files.FileRequest.decode msg = some (req, data) ∧ Bounded req
  | .directory, msg =>
    let received := msg.take (8 + Dirsvr.MAX_PATH_NAME)
    Dirsvr.requestSize ≤ received.length ∧
      (Dirsvr.DirOp.ofCode (wordAt received 0) = .lookup ∨ Dirsvr.DirOp.ofCode (wordAt received 0) = .insert) ∧
        (wordAt received 4 = pid .blkfile ∨ wordAt received 4 = pid .directory)

/-- Directories are made up of entries, at most so many. -/
def dirEntries (limit : Nat) : (c : Dirsvr.Call) → c.Reply → Prop
  | .fileRead _ offset _, some buf => Dirsvr.DIR_ENTRY_SIZE ∣ buf.length ∧
      (limit * Dirsvr.DIR_ENTRY_SIZE ≤ offset → buf = [])
  | _, _ => True

def Answers (limit : Nat) : (i : Name) → (op : (server pid fuel i).Op) → (server pid fuel i).Reply op → Prop
  | .blkfile => fileResizes
  | .directory => dirEntries limit

/-- The directory server waits for the block file server, and not the other way round. -/
def rank : Name → Nat
  | .blkfile => 0
  | .directory => 1

end Egos.Servers
