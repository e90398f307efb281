import Egos.Block.Treedisk

/-! Processes that use a tree file system on one disk, one after the other. A process opens
inodes and calls them; when the store is full it ends in the middle of a call, and the next
one starts with what is on the disk. -/

namespace Egos.Treedisk
open Library

variable {z : BlockSize}

/-- The panic of treedisk_alloc_block. -/
def full : Halt := .panic "treedisk_alloc_block: block store is full\n"

structure Session (z : BlockSize) where
  disk : State z
  opened : List UInt32

inductive Event (z : BlockSize) where
  | opens (inodeNo : UInt32)
  | call (call : Call z)
  /-- A call finds the store full, which ends the process. -/
  | aborts (call : Call z)

def Session.next (session : Session z) : Event z → Option (Session z)
  | .opens inodeNo =>
    match treediskInit inodeNo session.disk with
    | .done true disk => some { disk, opened := inodeNo :: session.opened }
    | .done false disk => some { session with disk }
    | .halted .. => none
  | .call call =>
    if call.inode ∈ session.opened then
      match call.perform session.disk with
      | .done _ disk => some { session with disk }
      | .halted .. => none
    else none
  | .aborts call =>
    if call.inode ∈ session.opened then
      match call.perform session.disk with
      | .done .. => none
      | .halted reason disk => if reason = full then some { disk, opened := [] } else none
    else none

def Step (before : Session z) (event : Event z) (after : Session z) : Prop := before.next event = some after

end Egos.Treedisk
