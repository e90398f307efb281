import Egos.Grass.UserCopy
import Egos.Library.Memory
import Mathlib.Data.List.GetD

/-! The arguments of a new process: spawn_load_args in shared/spawn.c makes the block, and
user_proc in spawnsvr.c puts it at the top of the user's stack. An address in the kernel's
block is its distance from the start, and addresses of the user are those of x86_64. -/

namespace Egos.SpawnArgs
open Library
open UserCopy (Address VIRT_BASE VIRT_TOP InRange)

def ALIGNMENT : UInt32 := 16

/-- sizeof(char *). -/
def pointerSize : Nat := 8

/-- sizeof(struct grass_env): `self`, 11 servers, `argc`, `argv`, `envp` and seven file identifiers. -/
def envSize : Nat := 128

/-- Where the fields stand. -/
def selfOffset : Nat := 0
def argcOffset : Nat := 48
def argvOffset : Nat := 56
def envpOffset : Nat := 64

/-- A string: it has no zero. -/
structure Arg where
  bytes : List UInt8
  string : 0 ∉ bytes

/-- `strlen(arg) + 1` -/
def Arg.size (arg : Arg) : Nat := arg.bytes.length + 1

/-- `len`: the same as an `int`, as it is added to a pointer. -/
def Arg.len (arg : Arg) : Address := .ofInt (Int32.ofNat arg.size).toInt

/-- The memory needed for all of it. -/
def totalSize (argv : List Arg) : UInt32 :=
  let total := argv.foldl (fun total arg => total + .ofNat arg.size)
    (.ofNat ((argv.length + 1) * pointerSize + envSize))
  let rem := total % ALIGNMENT
  if rem > 0 then total + (ALIGNMENT - rem) else total

/-- The end of GRASS_ENV. -/
def envEnd : Address := VIRT_TOP - 8

/-- GRASS_ENV -/
def grassEnv : Address := envEnd - .ofNat envSize

/-- The loop that fills in the block, and the store behind it: `v1` and `s1` are in the
block, and `s2` is where `s1` will be for the user. -/
def fill : List Arg → Nat → Address → Address → Memory → Memory
  | [], v1, _, _, block => block.store64 v1 0
  | arg :: rest, v1, s1, s2, block =>
    let block := block.storeBytes s1.toNat (arg.bytes ++ [0])
    let block := block.store64 v1 s2.toNat
    fill rest (v1 + pointerSize) (s1 + arg.len) (s2 + arg.len) block

/-- The environment in the block: a copy, with the arguments in it. -/
def placeEnv (ge : Nat) (init : Memory) (argc : Nat) (v2 : Address) (block : Memory) : Memory :=
  let block := block.storeBytes ge ((List.range envSize).map init)
  let block := block.store32 (ge + argcOffset) argc
  let block := block.store64 (ge + argvOffset) v2.toNat
  block.store64 (ge + envpOffset) 0

/-- `block` is what malloc returns. `init` is the environment that is copied. -/
def spawnLoadArgs (init : Memory) (argv : List Arg) (block : Memory) : Memory × UInt32 :=
  let total := totalSize argv
  let v2 := envEnd - total.toUInt64
  let s1 := .ofNat ((argv.length + 1) * pointerSize)
  let s2 := v2 + s1
  let block := placeEnv (total.toNat - envSize) init argv.length v2 block
  (fill argv 0 s1 s2 block, total)

/-- `proc_current->user_sp` -/
def userSp (size : UInt32) : Address := envEnd - size.toUInt64

/-- copy_user to the user's memory. None if the process is terminated: an address is outside of
the user's address space. -/
def copyUser : List UInt8 → Address → (Address → UInt8) → Option (Address → UInt8)
  | [], _, user => some user
  | byte :: rest, virt, user => if InRange virt then copyUser rest (virt + 1)
      fun a => if a = virt then byte else user a else none

/-- The part of user_proc that sets up the stack: the block, with the process's own identifier in it. -/
def userProc (self : UInt32) (block : Memory) (size : UInt32) (user : Address → UInt8) : Option (Address → UInt8) :=
  let block := block.store32 (size.toNat - envSize + selfOffset) self.toNat
  copyUser ((List.range size.toNat).map block) (userSp size) user

/-- The user's memory from an address on. -/
def window (user : Address → UInt8) (a : Address) : Memory := fun i => user (a + .ofNat i)

def read32 (user : Address → UInt8) (a : Address) : Nat := (window user a).load32 0

def read64 (user : Address → UInt8) (a : Address) : Nat := (window user a).load64 0

end Egos.SpawnArgs
