import Egos.Block.Treedisk
import Egos.Library.Effect

/-! Formatting a tree file system, access by access: the programs of treedisk_create with
their accesses to the store below left open. With the accesses of the file system itself they
are its functions (treediskCreate_run). -/

namespace Egos.Treedisk
open Library

variable {z : BlockSize}

inductive Access (z : BlockSize) where
  | size
  | read (offset : BlockNo)
  | write (offset : BlockNo) (block : Block z)

abbrev Access.Reply : Access z → Type
  | .size => BlockNo
  | .read _ => Option (Block z)
  | .write .. => Bool

def Access.serve : (access : Access z) → Tree z access.Reply
  | .size => fun s => .done s.below.size s
  | .read offset => belowRead offset
  | .write offset block => belowWrite offset block

/-- What a failing access returns. The size of the store is known without an access. -/
def Access.failure : (access : Access z) → Option access.Reply
  | .size => none
  | .read _ => some none
  | .write .. => some false

abbrev Steps (z : BlockSize) := Effect (@Access.Reply z) Halt

namespace Stepwise

def getSize : Steps z BlockNo := Effect.perform Access.size

def belowRead (offset : BlockNo) : Steps z (Option (Block z)) := Effect.perform (Access.read offset)

def belowWrite (offset : BlockNo) (block : Block z) : Steps z Bool := Effect.perform (Access.write offset block)

def writeOrPanic (offset : BlockNo) (block : Block z) (message : String) : Steps z Unit := do
  match ← belowWrite offset block with
  | true => pure ()
  | false => .halt (.panic message)

def setupLoop (nblocks : BlockNo) : (rounds : Nat) → (nextFree freelistBlock : BlockNo) → Block z → Steps z BlockNo
  | 0, _, _, _ => .halt .diverges
  | rounds + 1, nextFree, freelistBlock, data => do
    match decide (nextFree < nblocks) with
    | false => pure freelistBlock
    | true =>
      let (next, filled) := fillSlots nblocks (z.refs - 1) 1 (nextFree + 1) (setRef data 0 freelistBlock)
      writeOrPanic nextFree filled "treedisk_setup_freelist"
      setupLoop nblocks rounds next nextFree filled

def setupFreelist (nextFree nblocks : BlockNo) : Steps z BlockNo :=
  setupLoop nblocks (nblocks.toNat + 1) nextFree 0 nullBlock

def clearInodes : (left : Nat) → (i : BlockNo) → Steps z Bool
  | 0, _ => pure true
  | left + 1, i => do
    match ← belowWrite i nullBlock with
    | false => pure false
    | true => clearInodes left (i + 1)

def treediskCreate (nInodes : UInt32) : Steps z Int := do
  let n := UInt32.ofNat ((nInodes.toNat + z.inodes - 1) / z.inodes)
  let nblocks ← getSize
  match decide (nblocks < n + 2) with
  | true => pure (-1)
  | false =>
    match ← belowRead 0 with
    | none => pure (-1)
    | some superblock =>
      match decide (nInodeblocks superblock = 0) with
      | true =>
        let free ← setupFreelist (n + 1) nblocks
        match ← belowWrite 0 (setRef (setRef nullBlock 0 n : Block z) 1 free) with
        | false => pure (-1)
        | true =>
          match ← clearInodes n.toNat 1 with
          | false => pure (-1)
          | true => pure 0
      | false =>
        match decide (nInodeblocks superblock = n) with
        | true => pure 0
        | false => .halt (.assertion "superblock.superblock.n_inodeblocks == n_inodeblocks")

end Stepwise
end Egos.Treedisk
