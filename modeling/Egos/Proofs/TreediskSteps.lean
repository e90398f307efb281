import Egos.Block.TreediskSteps

/-! The programs that leave their accesses open are those of the tree file system. -/

namespace Egos.Treedisk.Stepwise
open Library Effect

variable {z : BlockSize}

/-- A sequence of two programs, each of which does what another does. -/
private theorem seq_run {α β : Type} {first : Steps z α} {next : α → Steps z β} {begun : Tree z α} {last : α → Tree z β}
    (left : first.run Access.serve = begun) (right : ∀ value, (next value).run Access.serve = last value) :
    (first >>= next).run Access.serve = begun >>= last := by
  rw [run_bind, left]
  exact congrArg _ (funext right)

private theorem belowRead_run (offset : BlockNo) :
    (belowRead offset).run Access.serve = (Treedisk.belowRead offset : Tree z _) := run_perform _

private theorem belowWrite_run (offset : BlockNo) (block : Block z) :
    (belowWrite offset block).run Access.serve = Treedisk.belowWrite offset block := run_perform _

theorem writeOrPanic_run (offset : BlockNo) (block : Block z) (message : String) :
    (writeOrPanic offset block message).run Access.serve = Treedisk.writeOrPanic offset block message :=
  seq_run (belowWrite_run ..) fun wrote => by cases wrote <;> rfl

theorem setupLoop_run (nblocks : BlockNo) (rounds : Nat) (nextFree head : BlockNo) (data : Block z) :
    (setupLoop nblocks rounds nextFree head data).run Access.serve =
        Treedisk.setupLoop nblocks rounds nextFree head data := by
  induction rounds generalizing nextFree head data with
  | zero => rfl
  | succ rounds ih =>
    unfold setupLoop Treedisk.setupLoop
    cases decide (nextFree < nblocks) with
    | false => rfl
    | true => exact seq_run (writeOrPanic_run ..) fun _ => ih ..

theorem setupFreelist_run (nextFree nblocks : BlockNo) :
    (setupFreelist nextFree nblocks).run Access.serve = (Treedisk.setupFreelist nextFree nblocks : Tree z BlockNo) :=
      setupLoop_run ..

theorem clearInodes_run (left : Nat) (i : BlockNo) :
    (clearInodes left i).run Access.serve = (Treedisk.clearInodes left i : Tree z Bool) := by
  induction left generalizing i with
  | zero => rfl
  | succ left ih =>
    refine seq_run (belowWrite_run ..) fun wrote => ?_
    cases wrote with
    | false => rfl
    | true => exact ih _

theorem treediskCreate_run (nInodes : UInt32) :
    (treediskCreate nInodes).run Access.serve = (Treedisk.treediskCreate nInodes : Tree z Int) := by
  funext s
  have sized : getSize.run Access.serve s = .done s.below.size s := congrFun (run_perform _) s
  unfold treediskCreate Treedisk.treediskCreate
  rw [run_bind, Prog.bind_done sized, Prog.bind_done (Prog.get_run s)]
  cases decide (s.below.size < UInt32.ofNat ((nInodes.toNat + z.inodes - 1) / z.inodes) + 2) with
  | true => rfl
  | false =>
    refine congrFun (seq_run (belowRead_run _) fun block => ?_) s
    cases block with
    | none => rfl
    | some superblock =>
      dsimp only
      cases decide (nInodeblocks superblock = 0) with
      | true =>
        refine seq_run (setupFreelist_run ..) fun free => seq_run (belowWrite_run ..) fun wrote => ?_
        cases wrote with
        | false => rfl
        | true => exact seq_run (clearInodes_run ..) fun cleared => by cases cleared <;> rfl
      | false =>
        dsimp only
        cases decide (nInodeblocks superblock = UInt32.ofNat ((nInodes.toNat + z.inodes - 1) / z.inodes)) <;> rfl

end Egos.Treedisk.Stepwise
