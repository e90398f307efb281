import Egos.Block.Layers

/-! Striped block stores (grass/block/raid0disk.c). -/

namespace Egos.Raid0disk
open Library
open Disk

variable {ε : Type} {nbelow : UInt32} [NeZero nbelow.toNat]

/-- A method of one of the stores below. -/
abbrev Indexed (nbelow : UInt32) : Type := Fin nbelow.toNat × Method

abbrev Indexed.Reply (c : Indexed nbelow) : Type := c.2.Reply

def call (i : Fin nbelow.toNat) (method : Method) : Effect (@Indexed.Reply nbelow) ε method.Reply :=
  @Effect.perform (Indexed nbelow) Indexed.Reply ε (i, method)

/-- The loop of raid0disk_nblocks. Every round asks the first store. -/
def sizeLoop : (rounds : Nat) → (total : Int) → Effect (@Indexed.Reply nbelow) ε Int
  | 0, total => pure total
  | rounds + 1, total => do
    let r ← call 0 .nblocks
    if r < 0 then pure r else sizeLoop rounds (total + r)

/-- `int i = offset % nbelow`. Where an `int` cannot hold it, `below[i]` is in front of the array. -/
def stripe (stop : ε) (offset : BlockNo) : Effect (@Indexed.Reply nbelow) ε (Fin nbelow.toNat) :=
  if (offset % nbelow).toNat < 2 ^ 31 then pure (.ofNat _ (offset % nbelow).toNat) else .halt stop

def raid0disk (stop : ε) : Layer Method.Reply (@Indexed.Reply nbelow) ε Unit := fun method own =>
  match method with
  | .nblocks => do return (← sizeLoop nbelow.toNat 0, own)
  | .setsize _ => pure (-1, own)
  | .read offset buffer => do
    let i ← stripe stop offset
    return (← call i (.read (offset / nbelow) buffer), own)
  | .write offset block => do
    let i ← stripe stop offset
    return (← call i (.write (offset / nbelow) block), own)

end Egos.Raid0disk
