import Egos.Grass.InodeStore

/-! A block store whose calls may fail. A request makes one call of a kind for each block until
it is known whether it succeeds, so the calls that fail are told apart by their blocks. -/

namespace Egos.Files
open Library

/-- The calls of the block server that fail, by inode and block number or size. -/
structure Failures where
  read : UInt32 → UInt32 → Bool
  write : UInt32 → UInt32 → Bool
  setsize : UInt32 → UInt32 → Bool

namespace InodeStore

/-- An inode with another number of blocks. -/
def resize (s : InodeStore) (ino size : UInt32) : InodeStore :=
  { s with blocks := Function.update s.blocks ino ((List.range size.toNat).map
    fun k => (s.blocks ino).getD k zeroBlock) }

end InodeStore

/-- A call that fails changes nothing; every other change of a size succeeds. -/
def Failures.serve (failures : Failures) : (c : Call) → Prog InodeStore Halt c.Reply
  | .find pid => InodeStore.serve (.find pid)
  | .send dst reply => InodeStore.serve (.send dst reply)
  | .blockRead ino offset => fun s => if failures.read ino offset then .done none s
      else InodeStore.serve (.blockRead ino offset) s
  | .blockWrite ino offset block => fun s => if failures.write ino offset then .done false s
      else InodeStore.serve (.blockWrite ino offset block) s
  | .blockGetsize ino => InodeStore.serve (.blockGetsize ino)
  | .blockSetsize ino size => fun s => if failures.setsize ino size then .done false s
      else .done true (s.resize ino size)
  | .garbage count => InodeStore.serve (.garbage count)

/-- How many of the calls from a block number on are made before one fails. -/
def served (fails : UInt32 → Bool) : UInt32 → Nat → Nat
  | _, 0 => 0
  | first, left + 1 => if fails first then 0 else served fails (first + 1) left + 1

end Egos.Files
