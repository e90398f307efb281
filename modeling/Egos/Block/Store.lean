import Mathlib.Data.Fintype.Pi
import Mathlib.Data.UInt

/-! A block store: an array of blocks of `BLOCK_SIZE` bytes, accessed through
32-bit block numbers. Every structure the file systems keep on disk is an array
of 32-bit words, so a block is modelled by its words. -/

namespace Egos.Disk

/-- Bytes in a disk block (earth.h). -/
def BLOCK_SIZE : Nat := 1024

def WORDS : Nat := BLOCK_SIZE / 4

abbrev BlockNo := UInt32

/-- The contents of a `block_t`, seen as 32-bit words. -/
abbrev Block := Fin WORDS → UInt32

instance : NeZero WORDS := ⟨by decide⟩

/-- The word at an index, as the unions of block layouts address it. -/
def word (block : Block) (index : UInt32) : UInt32 := block (Fin.ofNat WORDS index.toNat)

def setWord (block : Block) (index value : UInt32) : Block :=
  Function.update block (Fin.ofNat WORDS index.toNat) value

def nullBlock : Block := fun _ => 0

/-- The `nblocks` operation of a store reports its size as an `int`. -/
structure Store where
  size : BlockNo
  block : Nat → Block
  reported : size.toNat < 2 ^ 31

namespace Store

/-- A read past the end fails. -/
def read (store : Store) (offset : BlockNo) : Option Block :=
  if offset < store.size then some (store.block offset.toNat) else none

/-- A write past the end fails and changes nothing. -/
def write (store : Store) (offset : BlockNo) (block : Block) : Option Store :=
  if offset < store.size then some { store with block := Function.update store.block offset.toNat block } else none

end Store
end Egos.Disk
