import Egos.Apps.Strings
import Egos.Grass.Dirsvr

/-! How a process makes files and directories: fopen of lib/stdio.c and dir_create2 of
shared/dir.c, with the calls of shared/file.c and shared/dir.c that they need. -/

namespace Egos.Creation
open Library Strings
open Grass (Pid)
open Dirsvr (Fid DirEntry DirRequest DirReply DIR_ENTRY_SIZE DIR_NAME_SIZE)

def P_FILE_DEFAULT : UInt32 := Files.P_FILE_OWNER_READ ||| Files.P_FILE_OWNER_WRITE ||| Files.P_FILE_OTHER_READ

def FILE_READ : UInt32 := 1

def FILE_WRITE : UInt32 := 2

/-- What a process asks of the servers. -/
inductive Call where
  | fileCreate (server : Pid) (mode : UInt32)
  | fileWrite (file : Fid) (offset : Nat) (data : List UInt8)
  | fileSetsize (file : Fid) (size : Nat)
  /-- sys_rpc with the directory server. -/
  | dirRequest (req : DirRequest)

/-- `none` and `false` stand for a file error, or for a sys_rpc that fails. -/
abbrev Call.Reply : Call → Type
  | .fileCreate .. => Option UInt32
  | .fileWrite .. => Bool
  | .fileSetsize .. => Bool
  | .dirRequest .. => Option DirReply

abbrev Client := Effect Call.Reply Dirsvr.Halt

def call (c : Call) : Client c.Reply := .perform c

def dirLookup (dir : Fid) (path : List UInt8) : Client (Option Fid) := do
  match ← call (.dirRequest { type := .lookup, dir, fid := .zero, name := path }) with
  | some { status := .ok, fid } => pure (some fid)
  | _ => pure none

def dirInsert (dir : Fid) (path : List UInt8) (fid : Fid) : Client Bool := do
  match ← call (.dirRequest { type := .insert, dir, fid, name := path }) with
  | some { status := .ok, .. } => pure true
  | _ => pure false

/-! dir_create2. -/

/-- strcpy into an array. -/
def strcpy (name s : List UInt8) : List UInt8 := s ++ 0 :: name.drop (s.length + 1)

/-- The first part of dir_create2: a new file with the "." and ".." entries. The array for
their names is on the stack, and `stack` is what was in it. -/
def newDirectory (filesvr : Pid) (mode : UInt32) (dir : Fid) (stack : Fin DIR_NAME_SIZE → UInt8) :
    Client (Option Fid) := do
  match ← call (.fileCreate filesvr mode) with
  | none => pure none
  | some ino =>
    let fid : Fid := { server := filesvr, ino }
    let de : DirEntry := { fid, name := strcpy (.ofFn stack) (text "..dir") }
    let _ ← call (.fileWrite fid 0 de.bytes)
    let de : DirEntry := { fid := dir, name := strcpy de.name (text "...dir") }
    let _ ← call (.fileWrite fid DIR_ENTRY_SIZE de.bytes)
    pure (some fid)

def dirCreate2 (filesvr : Pid) (mode : UInt32) (dir : Fid) (path : List UInt8) (stack : Fin DIR_NAME_SIZE → UInt8) :
    Client (Option Fid) := do
  match ← newDirectory filesvr mode dir stack with
  | none => pure none
  | some fid =>
    -- what dir_insert returns is not looked at
    let _ ← dirInsert dir path fid
    pure (some fid)

def dirCreate (dir : Fid) (path : List UInt8) (stack : Fin DIR_NAME_SIZE → UInt8) : Client (Option Fid) :=
  dirCreate2 dir.server P_FILE_DEFAULT dir path stack

/-! fopen. -/

/-- What GRASS_ENV says of the directories. -/
structure Env where
  root : Fid
  cwd : Fid

/-- The loop of flookup: the directory that the last component is in, if it is found, and the
file. `first` is what strchr has passed of a component. -/
def walk (isDir : Bool) (first : List UInt8) : List UInt8 → Fid → Client (Option Fid × Option Fid)
  | [], dir =>
    if first = [] then pure (some dir, some dir)
    else do
      let fid ← dirLookup dir (if isDir then first ++ text ".dir" else first)
      pure (some dir, fid)
  | c :: path, dir =>
    if c = chr '/' then do
      match ← dirLookup dir (first ++ text ".dir") with
      | none => pure (none, none)
      | some fid => walk isDir [] path fid
    else walk isDir (first ++ [c]) path dir

def flookup (env : Env) (path : List UInt8) (isDir : Bool) : Client (Option Fid × Option Fid) :=
  if path.head? = some (chr '/') then walk isDir [] (path.dropWhile (· = chr '/')) env.root
    else walk isDir [] path env.cwd

/-- The flags of a mode, and whether the file is created and truncated. -/
def openFlags (mode : List UInt8) : Option (UInt32 × Bool × Bool) :=
  let plus := byteAt mode 1 = chr '+'
  if byteAt mode 0 = chr 'r' then some (if plus then FILE_READ ||| FILE_WRITE else FILE_READ, false, false)
  else if byteAt mode 0 = chr 'w' then some (if plus then FILE_WRITE ||| FILE_READ else FILE_WRITE, true, true)
  -- the case of 'a' has no break
  else none

/-- The last component in path. -/
def lastComponent (path : List UInt8) : Option (List UInt8) :=
  if chr '/' ∉ path then some path
  else
    match (path.reverse.takeWhile (· ≠ chr '/')).reverse with
    | [] => none
    | last => some last

/-- `FILE` -/
structure File where
  fid : Fid
  flags : UInt32

/-- What fopen has before it inserts a name. -/
inductive Located where
  | failed
  | found (fid : Fid)
  | made (dir : Fid) (last : List UInt8) (fid : Fid)
  deriving DecidableEq

/-- The part of fopen before dir_insert. -/
def locate (env : Env) (path : List UInt8) (create : Bool) : Client Located := do
  match ← flookup env path false with
  | (_, some fid) => pure (.found fid)
  | (dir, none) =>
    let dir := dir.getD .zero
    if create = false ∨ dir.server = 0 then pure .failed
    else
      match lastComponent path with
      | none => pure .failed
      | some last =>
        match ← call (.fileCreate dir.server P_FILE_DEFAULT) with
        | none => pure .failed
        | some ino => pure (.made dir last { server := dir.server, ino })

/-- The end of fopen. -/
def openFile (truncate : Bool) (flags : UInt32) (fid : Fid) : Client (Option File) := do
  if truncate then
    let _ ← call (.fileSetsize fid 0)
  pure (some { fid, flags })

def fopen (env : Env) (path mode : List UInt8) : Client (Option File) :=
  match openFlags mode with
  | none => pure none
  | some (flags, create, truncate) => do
    match ← locate env path create with
    | .failed => pure none
    | .found fid => openFile truncate flags fid
    | .made dir last fid =>
      if ← dirInsert dir last fid then openFile truncate flags fid
      else pure none

end Egos.Creation
