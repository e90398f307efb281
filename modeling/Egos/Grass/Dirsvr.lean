import Egos.Grass.FileServer
import Egos.Library.Records

/-! The directory server (grass/dirsvr.c). A directory is a file of entries of 32 bytes, and
an entry whose name begins with a zero is free. -/

namespace Egos.Dirsvr
open Library
open Grass (Pid bytesOf)
open Files (wordAt PAGESIZE)

/-- `fid_t` -/
structure Fid where
  server : Pid
  ino : UInt32
  deriving DecidableEq

/-- The fid of a reply that has been cleared. -/
def Fid.zero : Fid := { server := 0, ino := 0 }

def DIR_ENTRY_SIZE : Nat := 32

def DIR_NAME_SIZE : Nat := 24

def MAX_PATH_NAME : Nat := 1024

/-- sizeof(struct dir_request) -/
def requestSize : Nat := 24

/-- `struct dir_entry` -/
structure DirEntry where
  fid : Fid
  name : List UInt8

namespace DirEntry

def decode (bytes : List UInt8) : DirEntry where
  fid := { server := wordAt bytes 0, ino := wordAt bytes 4 }
  name := (bytes.drop 8).take DIR_NAME_SIZE

def bytes (de : DirEntry) : List UInt8 := bytesOf de.fid.server ++ bytesOf de.fid.ino ++ de.name

end DirEntry

def strnlen (s : List UInt8) (limit : Nat) : Nat := ((s.take limit).takeWhile (· ≠ 0)).length

/-- Whether strncmp returns 0. A string is read as zeros past its end. -/
def strncmp : List UInt8 → List UInt8 → Nat → Bool
  | _, _, 0 => true
  | s, t, n + 1 => if s.headD 0 ≠ t.headD 0 then false else if s.headD 0 = 0 then true else strncmp s.tail t.tail n

/-- strncpy into memory that was cleared. -/
def strncpy (size : Nat) (s : List UInt8) (n : Nat) : List UInt8 :=
  let copied := (s.take n).takeWhile (· ≠ 0)
  copied ++ List.replicate (size - copied.length) 0

def nameCmp (de : DirEntry) (s : List UInt8) (size : Nat) : Bool :=
  if strnlen de.name DIR_NAME_SIZE ≠ size then false else strncmp de.name s size

inductive DirStatus where
  | ok
  | error
  deriving DecidableEq

/-- `struct dir_reply` -/
structure DirReply where
  status : DirStatus
  fid : Fid
  deriving DecidableEq

inductive Halt where
  | assertion (condition : String)
  /-- The directory has more pages than the loops are followed for. -/
  | diverges
  deriving DecidableEq

/-- What the server asks of a file server and of the kernel. -/
inductive Call where
  | fileRead (file : Fid) (offset size : Nat)
  | fileWrite (file : Fid) (offset : Nat) (data : List UInt8)
  | send (dst : Pid) (reply : DirReply)

/-- `none` and `false` stand for a file error. -/
abbrev Call.Reply : Call → Type
  | .fileRead .. => Option (List UInt8)
  | .fileWrite .. => Bool
  | .send .. => Unit

abbrev Server := Effect Call.Reply Halt

def call (c : Call) : Server c.Reply := .perform c

def dirRespond (src : Pid) (status : DirStatus) (fid : Option Fid) : Server Unit :=
  call (.send src { status, fid := fid.getD .zero })

/-- The entries of a page. -/
def entries (buf : List UInt8) : List DirEntry := (records DIR_ENTRY_SIZE buf).map .decode

/-- The loop of dir_do_lookup over the pages of a directory. -/
def lookupFrom (dir : Fid) (src : Pid) (name : List UInt8) : Nat → Nat → Server Unit
  | 0, _ => .halt .diverges
  | fuel + 1, offset => do
    match ← call (.fileRead dir offset PAGESIZE) with
    | none => dirRespond src .error none
    | some buf =>
      if buf.length = 0 then dirRespond src .error none
      else if buf.length % DIR_ENTRY_SIZE ≠ 0 then .halt (.assertion "n % DIR_ENTRY_SIZE == 0")
      else
        match (entries buf).find? fun de => nameCmp de name name.length with
        | some de => dirRespond src .ok (some de.fid)
        | none => lookupFrom dir src name fuel (offset + buf.length)

def dirDoLookup (fuel : Nat) (dir : Fid) (src : Pid) (name : List UInt8) : Server Unit :=
  if name.length > DIR_NAME_SIZE then dirRespond src .error none else lookupFrom dir src name fuel 0

/-- The loop of dir_do_insert over the entries of a page: the first free entry of the
directory, or `none` when the name exists. -/
def scanEntries (name : List UInt8) : List DirEntry → Nat → Option Nat → Option (Option Nat)
  | [], _, free => some free
  | de :: rest, offset, free =>
    if de.name.headD 0 = 0 then scanEntries name rest (offset + DIR_ENTRY_SIZE) (some (free.getD offset))
    else if nameCmp de name name.length then none
    else scanEntries name rest (offset + DIR_ENTRY_SIZE) free

/-- The new entry is written where an entry is free, or at the end of the directory. -/
def addEntry (dir : Fid) (src : Pid) (name : List UInt8) (fid : Fid) (offset : Nat) : Server Unit := do
  let nde : DirEntry := { fid, name := strncpy DIR_NAME_SIZE name name.length }
  let wstatus ← call (.fileWrite dir offset nde.bytes)
  dirRespond src (if wstatus then .ok else .error) (some fid)

def insertFrom (dir : Fid) (src : Pid) (name : List UInt8) (fid : Fid) : Nat → Nat → Option Nat → Server Unit
  | 0, _, _ => .halt .diverges
  | fuel + 1, offset, free => do
    match ← call (.fileRead dir offset PAGESIZE) with
    | none => dirRespond src .error none
    | some buf =>
      if buf.length = 0 then addEntry dir src name fid (free.getD offset)
      else if buf.length % DIR_ENTRY_SIZE ≠ 0 then .halt (.assertion "n % DIR_ENTRY_SIZE == 0")
      else
        match scanEntries name (entries buf) offset free with
        | none => dirRespond src .error none
        | some free => insertFrom dir src name fid fuel (offset + buf.length) free

def dirDoInsert (fuel : Nat) (dir : Fid) (src : Pid) (name : List UInt8) (fid : Fid) : Server Unit :=
  if name.length > DIR_NAME_SIZE then dirRespond src .error none else insertFrom dir src name fid fuel 0 none

/-- The type of a `struct dir_request`. -/
inductive DirOp where
  | lookup
  | insert
  | remove
  /-- DIR_UNUSED, or no value of the enumeration. -/
  | unknown
  deriving DecidableEq

def DirOp.ofCode (code : UInt32) : DirOp :=
  match code.toNat with
  | 1 => .lookup
  | 2 => .insert
  | 3 => .remove
  | _ => .unknown

/-- `struct dir_request` with the name that follows it. -/
structure DirRequest where
  type : DirOp
  dir : Fid
  fid : Fid
  name : List UInt8

/-- The message of dir_lookup (shared/dir.c). -/
def dirLookup (dir : Fid) (path : List UInt8) : List UInt8 :=
  bytesOf 1 ++ bytesOf dir.server ++ bytesOf dir.ino ++ bytesOf 0 ++ bytesOf 0 ++ bytesOf (.ofNat path.length) ++ path

/-- The message of dir_insert (shared/dir.c). -/
def dirInsert (dir : Fid) (path : List UInt8) (fid : Fid) : List UInt8 :=
  bytesOf 2 ++ bytesOf dir.server ++ bytesOf dir.ino ++ bytesOf fid.server ++ bytesOf fid.ino ++
    bytesOf (.ofNat path.length) ++ path

/-- The dispatch of dir_proc. A DIR_REMOVE is not answered. -/
def handle (fuel : Nat) (req : DirRequest) (src : Pid) : Server Unit :=
  match req.type with
  | .lookup => dirDoLookup fuel req.dir src req.name
  | .insert => dirDoInsert fuel req.dir src req.name req.fid
  | .remove => pure ()
  | .unknown => .halt (.assertion "0")

/-- A request that dir_proc has received; the buffer takes MAX_PATH_NAME bytes more than a pointer has. -/
def serve (fuel : Nat) (msg : List UInt8) (src : Pid) : Server Unit :=
  let received := msg.take (8 + MAX_PATH_NAME)
  if received.length < requestSize then .halt (.assertion "req_size >= (int) sizeof(*req)")
  else
    handle fuel
      { type := .ofCode (wordAt received 0), dir := { server := wordAt received 4, ino := wordAt received 8 },
        fid := { server := wordAt received 12, ino := wordAt received 16 }, name := received.drop requestSize } src

/-- The loop of dir_proc over the requests that reach it, each with its sender. -/
def dirProc (fuel : Nat) : List (List UInt8 × Pid) → Server Unit
  | [] => pure ()
  | (msg, src) :: rest => do
    serve fuel msg src
    dirProc fuel rest

end Egos.Dirsvr
