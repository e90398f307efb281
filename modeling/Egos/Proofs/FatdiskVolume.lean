import Egos.Proofs.FatdiskView
import Mathlib.Data.List.Range
import Mathlib.Logic.Function.Iterate

/-! The operations of fatdisk.c on volumes: the same steps on the FAT, the inode
table and the data region instead of on blocks. Results are `none` where the code
panics because the disk is full. -/

namespace Egos.Fatdisk
open Disk

/-- The entries `find_free_entry` looks at, in order, when the free pointer is at
`from`: up to the end of the table, then the FAT blocks before that of `from`. -/
def scanOrder (g : Geometry) (start : Nat) : List Nat :=
  List.range' start (g.entries - start) ++ List.range' 0 (start / 256 * 256)

namespace Volume
variable (g : Geometry) (v : Volume)

/-- The first free entry after the entry at the free pointer is marked. -/
def nextFree : Option Nat :=
  (scanOrder g v.free).find? fun entry => Function.update v.next v.free EOF entry == 0

def alloc : Option Volume :=
  (v.nextFree g).map fun free => { v with next := Function.update v.next v.free EOF, free }

def link (inode last entry : Nat) : Volume :=
  if v.nblocks inode = 0 then { v with head := Function.update v.head inode entry }
  else { v with next := Function.update v.next last entry }

def setSize (inode nblocks : Nat) : Volume := { v with nblocks := Function.update v.nblocks inode nblocks }

/-- One round of the loop of `fatdisk_write` that lengthens a file. -/
def addBlock (inode offset last : Nat) : Option Volume :=
  (v.alloc g).map fun allocated =>
    let linked := allocated.link inode last v.free
    if offset ≥ linked.nblocks inode then linked.setSize inode (offset + 1) else linked

def addBlocks (g : Geometry) (inode offset : Nat) : (count : Nat) → (last : Nat) → Volume → Option Volume
  | 0, _, v => some v
  | count + 1, last, v => (v.addBlock g inode offset last).bind (addBlocks g inode offset count v.free)

/-- The entry new blocks are hung behind, 0 for an empty file. -/
def lastEntry (inode : Nat) : Nat := if v.nblocks inode = 0 then 0 else v.next^[v.nblocks inode - 1] (v.head inode)

def grow (inode offset : Nat) : Option Volume :=
  v.addBlocks g inode offset (offset + 1 - v.nblocks inode) (v.lastEntry inode)

def setData (entry : Nat) (block : Block) : Volume := { v with data := Function.update v.data entry block }

/-- Lengthens the file if needed, then writes one block; tells whether the block lies in the store. -/
def writeBlock (inode offset : Nat) (block : Block) : Option (Bool × Volume) :=
  (v.grow g inode offset).map fun w =>
    let entry := w.next^[offset] (w.head inode)
    if g.dataPos entry < g.size then (true, w.setData entry block) else (false, w)

def release (entry : Nat) : Volume :=
  { v with next := Function.update v.next entry 0, data := Function.update v.data entry nullBlock }

/-- The loop of `fatdisk_free_file`. A block past the store cannot be zeroed. -/
def releaseChain (g : Geometry) : (count : Nat) → (entry : Nat) → Volume → Option Volume
  | 0, _, v => some v
  | count + 1, entry, v =>
    if g.dataPos entry < g.size then releaseChain g count (v.next entry) (v.release entry) else none

def truncate (inode : Nat) : Option Volume :=
  if v.nblocks inode = 0 then some v
  else (releaseChain g (v.nblocks inode) (v.head inode) v).map fun w =>
    { w with head := Function.update w.head inode 0, nblocks := Function.update w.nblocks inode 0 }

end Volume
end Egos.Fatdisk
