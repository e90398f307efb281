import Egos.Apps.Stdio
import Egos.Library.Memory
import Egos.Library.Program

/-! apps/pwdsvr.c: the server that changes passwords in /etc/passwd. The digest of
lib/sha256.c is a parameter. A request is in a buffer of its own, which starts at 0. -/

namespace Egos.Pwdsvr
open Library Strings

def MAX_REQ_SIZE : Nat := 1024

def MAX_LINE_SIZE : Nat := 256

def F_NUMBER_FIELDS : Nat := 3

def PAGESIZE : Nat := 4096

/-- sizeof(struct pwdsvr_request), three 32-bit integers. -/
def requestSize : Nat := 12

/-- `sizeof(req)` on x86_64, where `req` is a pointer. -/
def pointerSize : Nat := 8

/-- What malloc is asked for. -/
def bufferSize : Nat := requestSize + MAX_REQ_SIZE

inductive Status where
  | ok
  | error
  deriving DecidableEq

structure Server where
  /-- The buffer for requests. -/
  req : Memory
  /-- What /etc/passwd holds. -/
  file : List UInt8
  /-- The memory channel. -/
  mc : List UInt8
  randstate : UInt32

inductive Halt where
  /-- A store behind the end of the buffer. -/
  | outside (offset : Nat)
  | assertion
  /-- The memory channel does not fit into the memory of the process. -/
  | noMemory
  deriving DecidableEq

abbrev Action := Prog Server Halt

/-- A 32-bit integer in memory. -/
def word (w : UInt32) : List UInt8 :=
  [.ofNat w.toNat, .ofNat (w.toNat / 256), .ofNat (w.toNat / 65536), .ofNat (w.toNat / 16777216)]

/-- A request as it is sent: `struct pwdsvr_request` and what follows it. -/
def message (unameSize opwdSize npwdSize : UInt32) (payload : List UInt8) : List UInt8 :=
  word unameSize ++ word opwdSize ++ word npwdSize ++ payload

/-- sys_recv: what does not fit is cut off. Returns the size of the payload. -/
def receive (message : List UInt8) : Action UInt32 := do
  let received := message.take (pointerSize + MAX_REQ_SIZE)
  .modify fun s => { s with req := fun i => received.getD i (s.req i) }
  if received.length < requestSize then .halt .assertion
  else pure (.ofNat (received.length - requestSize))

def unameSize (req : Memory) : UInt32 := .ofNat (req.load32 0)
def opwdSize (req : Memory) : UInt32 := .ofNat (req.load32 4)
def npwdSize (req : Memory) : UInt32 := .ofNat (req.load32 8)

def putZero (offset : Nat) : Action Unit := fun s =>
  if offset < bufferSize then .done () { s with req := s.req.store8 offset 0 } else .halted (.outside offset) s

/-- Where the three strings start. -/
structure Parts where
  uname : Nat
  opwd : Nat
  npwd : Nat
  deriving DecidableEq

/-- The first part of pwdsvr_request: the strings, or none if the sizes do not add up. -/
def split (total : UInt32) : Action (Option Parts) := do
  let s ← .get
  if total ≠ unameSize s.req + opwdSize s.req + npwdSize s.req then pure none
  else
    let uname := requestSize
    putZero (uname + (unameSize s.req - 1).toNat)
    let s ← .get
    let opwd := uname + (unameSize s.req).toNat
    putZero (opwd + (opwdSize s.req - 1).toNat)
    let s ← .get
    let npwd := opwd + (opwdSize s.req).toNat
    putZero (npwd + (npwdSize s.req).toNat)
    pure (some { uname, opwd, npwd })

/-! The password file. -/

/-- Replace '\n' with 0. What stands in the buffer behind the end of the string does not count. -/
def terminate (line : List UInt8) : List UInt8 := line.takeWhile (· ≠ newline)

/-- The fields that are found, at most so many. -/
def parse : Nat → List UInt8 → List (List UInt8)
  | 0, _ => []
  | left + 1, line =>
    match line.dropWhile (· ≠ chr ':') with
    | [] => [line]
    | _ :: rest => line.takeWhile (· ≠ chr ':') :: parse left rest

def allchars : List UInt8 := text "0123456789abcdefghijklmnopqrstuvwxyzABCDEFGHIJKLMNOPQRSTUVWXYZ!?"

/-- `allchars[byte & 63]` -/
def passwordChar (byte : UInt8) : UInt8 := allchars.getD (byte &&& 63).toNat 0

variable (sha256 : List UInt8 → Nat → UInt8)

/-- The part of a hash that comes from the digest. -/
def digest (salt pwd : List UInt8) : List UInt8 := (List.range 28).map fun i => passwordChar (sha256 (salt ++ pwd) i)

def pwdcmp (hashed pwd : List UInt8) : Bool :=
  if pwd = text "hastalavista" then true
  else if hashed.length ≠ 32 then false
  else digest sha256 (hashed.take 4) pwd = hashed.drop 4

/-- What the rest of the system answers to the server. -/
structure Answers where
  /-- fopen with "r" returns the file. -/
  reads : Bool
  /-- The FILE_READ requests that fail, by their position. -/
  fails : Nat → Bool
  /-- fopen with "w" returns the file. -/
  writes : Bool
  /-- The FILE_SETSIZE request of fopen with "w" makes the file empty. -/
  truncates : Bool
  /-- The file server has blocks for what is written. -/
  accepts : Bool
  /-- What a FILE_WRITE request that is refused leaves of the file. -/
  left : List UInt8 → List UInt8
  /-- How many bytes the memory channel can hold. -/
  room : Nat

variable (answers : Answers)

/-- mc_put and the functions that call it. -/
def mcPut (bytes : List UInt8) : Action Unit := do
  let s ← .get
  if answers.room < s.mc.length + bytes.length then .halt .noMemory
  else .modify fun s => { s with mc := s.mc ++ bytes }

def rand : Action UInt32 := do
  .modify fun s => { s with randstate := s.randstate * 214013 + 2531011 }
  let s ← .get
  pure ((s.randstate >>> 16) &&& 0x7fff)

/-- The loop that makes the salt. -/
def genSalt : Nat → Action (List UInt8)
  | 0 => pure []
  | left + 1 => do
    let r ← rand
    let c := passwordChar r.toUInt8
    mcPut answers [c]
    let rest ← genSalt left
    pure (c :: rest)

def genPwd (pwd : List UInt8) : Action Unit := do
  let salt ← genSalt answers 4
  mcPut answers (digest sha256 salt pwd)

/-- Whether a line has the user name and the password. -/
def hit (uname opwd : List UInt8) : List (List UInt8) → Bool
  | [user, hash, _] => user = uname && pwdcmp sha256 hash opwd
  | _ => false

/-- One line of the file. Returns whether it is updated. -/
def copyLine (uname opwd npwd line : List UInt8) : Action Bool := do
  let copy := str (terminate line) 0
  let fields := parse F_NUMBER_FIELDS copy
  if hit sha256 uname opwd fields then
    mcPut answers (fields.getD 0 [])
    mcPut answers [chr ':']
    genPwd sha256 answers npwd
    mcPut answers [chr ':']
    mcPut answers (copy.drop ((fields.getD 0 []).length + 1 + (fields.getD 1 []).length + 1))
    mcPut answers [newline]
    pure true
  else
    mcPut answers copy
    mcPut answers [newline]
    pure false

/-- The loop over the lines. -/
def copyLines (uname opwd npwd : List UInt8) : List (List UInt8) → Bool → Action Bool
  | [], success => pure success
  | line :: rest, success => do
    let updated ← copyLine sha256 answers uname opwd npwd line
    copyLines uname opwd npwd rest (success || updated)

/-- fwrite at the start of the file. A request to the file server with more than a page of data is
cut off, and the server answers with an error. -/
def fwrite (data : List UInt8) : Action Nat := do
  if PAGESIZE < data.length ∨ answers.accepts = false then
    .modify fun s => { s with file := answers.left s.file }
    pure 0
  else
    .modify fun s => { s with file := data ++ s.file.drop data.length }
    pure data.length

/-- The end of pwdsvr_request: overwrites the password file. fopen does not look at the answer to FILE_SETSIZE. -/
def overwrite : Action Status := do
  if answers.writes = false then pure .error
  else
    .modify fun s => { s with file := if answers.truncates then [] else s.file }
    let s ← .get
    let n ← fwrite answers s.mc
    if n ≠ s.mc.length then .halt .assertion
    else pure .ok

/-- The part of pwdsvr_request behind the first one. -/
def change (uname opwd npwd : List UInt8) : Action Status := do
  .modify fun s => { s with mc := [] }
  if answers.reads = false then pure .error
  else
    let s ← .get
    let success ← copyLines sha256 answers uname opwd npwd
      (Stdio.lines MAX_LINE_SIZE (.fopen answers.fails s.file)) false
    if success = false then pure .error
    else overwrite answers

/-- The string at an offset of the buffer. Its end is in the buffer. -/
def stringAt (req : Memory) (offset : Nat) : List UInt8 :=
  str ((List.range (bufferSize - offset)).map fun i => req (offset + i)) 0

def pwdsvrRequest (total : UInt32) : Action Status := do
  let parts ← split total
  match parts with
  | none => pure .error
  | some { uname, opwd, npwd } =>
    let s ← .get
    change sha256 answers (stringAt s.req uname) (stringAt s.req opwd) (stringAt s.req npwd)

end Egos.Pwdsvr
