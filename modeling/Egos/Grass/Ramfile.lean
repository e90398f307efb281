import Egos.Grass.FileServer

/-! The file server that keeps files in memory (ramfilesvr.c). -/

namespace Egos.Ramfile
open Library Files
open Grass (Pid)

def MAX_FILES : Nat := 100

instance : NeZero MAX_FILES := ⟨by decide⟩

/-- `struct file`: `length` is the size of the memory behind `contents`. -/
structure File where
  stat : FileStat
  length : Nat
  contents : Nat → UInt8

abbrev Files := Fin MAX_FILES → File

namespace Files

def file (files : Files) (ino : UInt32) : Option File :=
  if inside : ino.toNat < MAX_FILES then some (files ⟨ino.toNat, inside⟩) else none

def put (files : Files) (ino : UInt32) (file : File) : Files :=
  if inside : ino.toNat < MAX_FILES then Function.update files ⟨ino.toNat, inside⟩ file else files

def unallocated (files : Files) : Option (Fin MAX_FILES) :=
  (List.finRange MAX_FILES).find? fun ino => ino.val ≠ 0 && !(files ino).stat.stAlloc

/-- The file, if the inode number is checked before the table is looked at. -/
def allocated (files : Files) (ino : UInt32) : Option File := (files.file ino).filter (·.stat.stAlloc)

/-- The file, if the table is looked at before the inode number is checked. -/
def allocatedFirst (files : Files) (ino : UInt32) : Server (Option File) :=
  match files.file ino with
  | none => .halt (.outOfBounds "files")
  | some file => pure (if file.stat.stAlloc then some file else none)

end Files

/-- realloc of the contents. -/
def File.realloc (file : File) (length : Nat) : Server File := do
  let garbage ← call (.garbage length)
  pure { file with length, contents := fun i => if i < file.length then file.contents i else garbage i }

def refuse (files : Files) (src : Pid) : Server Files := do
  respond .error src
  pure files

def doCreate (files : Files) (req : FileRequest) (src : Pid) : Server Files :=
  match files.unallocated with
  | none => refuse files src
  | some ino => do
    let uid ← findUid src
    let file := files ino
    call (.send src { FileReply.cleared .ok with ino := UInt32.ofNat ino })
    pure (Function.update files ino { file with stat := { file.stat with stAlloc := true, stMode := req.mode, stUid := uid } })

/-- The reply to a read: the size of a file_stat in it is the number of bytes read. -/
def readReply (n : UInt32) (data : List UInt8) : FileReply :=
  { FileReply.cleared .ok with op := .read, stat := { FileStat.zero with stSize := n.toUInt64 }, data }

def doRead (files : Files) (req : FileRequest) (src : Pid) : Server Files := do
  match ← files.allocatedFirst req.ino with
  | none => refuse files src
  | some file =>
    match ← readAllowed (some file.stat) src with
    | false => refuse files src
    | true =>
      if req.offset < file.stat.stSize then
        let left := (file.stat.stSize - req.offset).toUInt32
        let n := if req.size < left then req.size else left
        if file.length < req.offset.toNat + n.toNat then .halt .overflow
        else do
          call (.send src (readReply n ((List.range n.toNat).map fun i => file.contents (req.offset.toNat + i))))
          freeReply req.size
          pure files
      else do
        call (.send src (readReply 0 []))
        freeReply req.size
        pure files

/-- The memory of a file that ramfile_put makes larger. -/
def File.grow (file : File) (finish : UInt64) : Server File :=
  if file.stat.stSize < finish then do
    let file ← file.realloc finish.toNat
    pure { file with stat := { file.stat with stSize := finish } }
  else pure file

def ramfilePut (file : File) (offset : UInt64) (data : List UInt8) (size : UInt32) : Server File := do
  let file ← file.grow (offset + size.toUInt64)
  if file.length < offset.toNat + size.toNat then .halt .overflow
  else
    pure { file with contents := fun i =>
      if offset.toNat ≤ i ∧ i < offset.toNat + size.toNat then data.getD (i - offset.toNat) 0 else file.contents i }

def doWrite (files : Files) (req : FileRequest) (data : List UInt8) (src : Pid) : Server Files :=
  match files.allocated req.ino with
  | none => refuse files src
  | some file =>
    if req.size.toNat ≠ data.length then refuse files src
    else do
      match ← writeAllowed (some file.stat) src with
      | false => refuse files src
      | true => do
        let file ← ramfilePut file req.offset data req.size
        respond .ok src
        pure (files.put req.ino file)

def doStat (files : Files) (req : FileRequest) (src : Pid) : Server Files := do
  match ← files.allocatedFirst req.ino with
  | none => refuse files src
  | some file =>
    match ← readAllowed (some file.stat) src with
    | false => refuse files src
    | true => do
      call (.send src { FileReply.cleared .ok with op := .stat, stat := file.stat })
      pure files

def doSetsize (files : Files) (req : FileRequest) (src : Pid) : Server Files :=
  match files.allocated req.ino with
  | none => refuse files src
  | some file =>
    if file.stat.stSize < req.offset then refuse files src
    else do
      match ← writeAllowed (some file.stat) src with
      | false => refuse files src
      | true => do
        let file ← { file with stat := { file.stat with stSize := req.offset } }.realloc req.offset.toNat
        respond .ok src
        pure (files.put req.ino file)

def doChown (files : Files) (req : FileRequest) (src : Pid) : Server Files :=
  match files.allocated req.ino with
  | none => refuse files src
  | some file => do
    let uid ← findUid src
    if uid ≠ 0 then refuse files src
    else do
      call (.send src (.cleared .ok))
      pure (files.put req.ino { file with stat := { file.stat with stUid := req.uid } })

def doChmod (files : Files) (req : FileRequest) (src : Pid) : Server Files :=
  match files.allocated req.ino with
  | none => refuse files src
  | some file => do
    let uid ← findUid src
    if uid ≠ 0 ∧ uid ≠ file.stat.stUid then refuse files src
    else do
      call (.send src (.cleared .ok))
      pure (files.put req.ino { file with stat := { file.stat with stMode := req.mode } })

/-- The switch of ramfile_proc: a file cannot be deleted. -/
def handle (files : Files) (req : FileRequest) (data : List UInt8) (src : Pid) : Server Files :=
  match req.type with
  | .create => doCreate files req src
  | .chown => doChown files req src
  | .chmod => doChmod files req src
  | .read => doRead files req src
  | .write => doWrite files req data src
  | .stat => doStat files req src
  | .setsize => doSetsize files req src
  | .delete | .setFlags | .unknown => .halt (.assertion "ramfile_proc" "0")

/-- One turn of the loop of ramfile_proc. -/
def serve (files : Files) (msg : List UInt8) (src : Pid) : Server Files :=
  match FileRequest.decode msg with
  | none => .halt (.assertion "ramfile_proc" "req_size >= (int) sizeof(*req)")
  | some (req, data) => handle files req data src

/-- The table of ramfile_init. -/
def Files.new : Files :=
  Function.update (fun _ => { stat := .zero, length := 0, contents := fun _ => 0 }) 0
    { stat := { FileStat.zero with stAlloc := true }, length := 0, contents := fun _ => 0 }

end Egos.Ramfile
