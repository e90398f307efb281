import Egos.Block.Cachedisk
import Egos.Proofs.BlockVolume

/-! The write-through cache never has a block of the store below, but it has one under the number of a free entry. -/

namespace Egos.Cachedisk
open Library Disk
open Clockdisk (arrayStore)

variable {ε σ α : Type} {nblocks : BlockNo}

def State.Free (own : State nblocks) : Prop := ∀ i, own.cachenoToBlockno i = UNUSED

theorem init_free (blocks : Fin nblocks.toNat → Block) : (State.init blocks).Free := fun _ => rfl

section Tables
variable {own : State nblocks} {offset : BlockNo}

theorem State.Free.lookup_other (free : own.Free) (other : offset ≠ UNUSED) : own.lookup offset = none := by
  apply List.find?_eq_none.mpr
  intro i _
  simp [free i, Ne.symm other]

theorem State.Free.search_other (free : own.Free) (few : nblocks.toNat < 2 ^ 31) (other : offset ≠ UNUSED) (stop : ε) :
    (search stop own offset : Effect Method.Reply ε _) = pure none := by
  unfold search
  rw [free.lookup_other other]
  exact if_pos few

theorem State.Free.setBlock (free : own.Free) (i : Fin nblocks.toNat) (block : Block) :
    (own.setBlock i block).Free := free

private theorem first_found {n : Nat} [NeZero n] : (List.finRange n).find? (fun _ => true) = some 0 := by
  obtain ⟨m, rfl⟩ := Nat.exists_eq_succ_of_ne_zero (NeZero.ne n)
  rw [List.finRange_succ]
  rfl

variable [NeZero nblocks.toNat]

/-- The number of a free entry is that of the first one. -/
theorem State.Free.lookup_unused (free : own.Free) : own.lookup UNUSED = some 0 := by
  have all : (fun i => decide (own.cachenoToBlockno i = UNUSED)) = fun _ => true :=
    funext fun i => decide_eq_true (free i)
  unfold lookup
  rw [all, first_found]

theorem State.Free.search_unused (free : own.Free) (stop : ε) :
    (search stop own UNUSED : Effect Method.Reply ε _) = pure (some 0) := by
  have first : (0 : Fin nblocks.toNat).val < 2 ^ 31 := by
    rw [Fin.coe_ofNat_eq_mod, Nat.zero_mod]
    decide
  unfold search
  rw [free.lookup_unused]
  exact if_pos first

/-- A block that is missed is put at the end of the memory. -/
theorem State.Free.unused_last (free : own.Free) : own.unused = some (Fin.rev 0) := by
  have all : (fun i => decide (own.cachenoToBlockno i = UNUSED)) = fun _ => true :=
    funext fun i => decide_eq_true (free i)
  unfold unused
  rw [all, List.finRange_reverse, List.find?_map]
  exact congrArg _ first_found

end Tables

/-- A store with one block more, under the number of a free entry. With a single block of memory,
that is also where every write leaves its block. -/
def withBlock (single : Bool) : Layer Method.Reply Method.Reply ε Block := fun method own =>
  match method with
  | .nblocks => do return (← call .nblocks, own)
  | .setsize size => do return (← call (.setsize size), own)
  | .read offset buffer => if offset = UNUSED then pure ((0, own), own) else do
      return (← call (.read offset buffer), own)
  | .write offset block => do return (← call (.write offset block), if offset = UNUSED ∨ single then block else own)

/-- The block under the number of a free entry is not used. -/
def Avoids : Method → Prop
  | .read offset _ => offset ≠ UNUSED
  | .write offset _ => offset ≠ UNUSED
  | _ => True

section Passes
variable {κ ν : Type} {first : Layer Method.Reply Method.Reply ε κ}
    {second : Layer Method.Reply Method.Reply ε ν} {below : Service Method.Reply ε σ}
  {method : Method} {own last : κ} {other final : ν} {s : σ}

/-- A call that is passed on ends as it does below. -/
theorem passes_alike (left : first method own = call method >>= fun reply => pure (reply, last)) :
    (first.over below method (own, s)).Alike (fun s t => s.1 = last ∧ s.2 = t) (below method s) := by
  have ran : (first method own).run below s = (below method >>= fun reply => pure (reply, last)) s := by
    rw [left]
    rfl
  cases served : below method s with
  | done reply after =>
    rw [Layer.over_done (ran.trans (Prog.bind_done served))]
    exact ⟨rfl, rfl, rfl⟩
  | halted reason after =>
    rw [Layer.over_halted (ran.trans (Prog.bind_halted served))]
    rfl

theorem both_pass {related : κ → ν → Prop} (left : first method own = call method >>= fun reply => pure (reply, last))
    (right : second method other = call method >>= fun reply => pure (reply, final)) (still : related last final) :
    (first.over below method (own, s)).Alike
        (fun s t => related s.1 t.1 ∧ s.2 = t.2) (second.over below method (other, s)) := by
  refine ((passes_alike left).trans (passes_alike right).symm).mono ?_
  rintro ⟨_, s⟩ ⟨_, t⟩ ⟨_, ⟨rfl, rfl⟩, rfl, rfl⟩
  exact ⟨still, rfl⟩

end Passes

section Simulations
variable (few : nblocks.toNat < 2 ^ 31) (stop : ε) (below : Service Method.Reply ε σ)
include few

/-- Nothing that is asked for otherwise is in the cache. -/
theorem cachedisk_simulates :
    Simulates Avoids (fun (s : State nblocks × σ) t => s.1.Free ∧ s.2 = t) ((cachedisk stop).over below) below := by
  rintro method fine ⟨own, s⟩ _ ⟨free, rfl⟩
  have passed : ∃ last : State nblocks, last.Free ∧
      (cachedisk stop method own : Effect _ ε _) = call method >>= fun reply => pure (reply, last) := by
    cases method with
    | nblocks => exact ⟨own, free, rfl⟩
    | setsize size => exact ⟨own, free, rfl⟩
    | read offset buffer =>
      refine ⟨{ own with readMiss := own.readMiss + 1 }, free, ?_⟩
      simp only [cachedisk, free.search_other few fine, Effect.pure_bind]
    | write offset block =>
      simp only [cachedisk, free.search_other few fine, Effect.pure_bind]
      cases own.unused with
      | none => exact ⟨{ own with writeMiss := own.writeMiss + 1 }, free, rfl⟩
      | some j => exact ⟨{ own.setBlock j block with writeMiss := own.writeMiss + 1 }, free, rfl⟩
  obtain ⟨last, still, passes⟩ := passed
  refine (passes_alike passes).mono ?_
  rintro ⟨_, after⟩ t ⟨rfl, rfl⟩
  exact ⟨still, rfl⟩

variable [NeZero nblocks.toNat]

/-- The block that the cache adds is the first one of the memory. -/
def Shows (own : State nblocks) (block : Block) : Prop := own.Free ∧ own.blocks 0 = block

omit few in
theorem Shows.write {own : State nblocks} {block : Block} (shows : Shows own block) (new : Block) :
    Shows (own.setBlock (Fin.rev 0) new) (if nblocks.toNat = 1 then new else block) := by
  refine ⟨shows.1.setBlock _ new, ?_⟩
  change Function.update own.blocks (Fin.rev 0) new 0 = _
  have value : (Fin.rev (0 : Fin nblocks.toNat)).val = nblocks.toNat - 1 := by
    rw [Fin.val_rev, Fin.coe_ofNat_eq_mod, Nat.zero_mod]
  by_cases single : nblocks.toNat = 1
  · have here : (0 : Fin nblocks.toNat) = Fin.rev 0 := by
      apply Fin.ext
      rw [value, Fin.coe_ofNat_eq_mod, Nat.zero_mod]
      omega
    rw [if_pos single, ← here, Function.update_self]
  · have there : (0 : Fin nblocks.toNat) ≠ Fin.rev 0 := by
      intro same
      have first := congrArg Fin.val same
      rw [value, Fin.coe_ofNat_eq_mod, Nat.zero_mod] at first
      have some := NeZero.ne nblocks.toNat
      omega
    rw [if_neg single, Function.update_of_ne there]
    exact shows.2

theorem cachedisk_shows :
    Simulates (fun _ => True) (fun (s : State nblocks × σ) t => Shows s.1 t.1 ∧ s.2 = t.2) ((cachedisk stop).over below)
      ((withBlock (nblocks.toNat = 1)).over below) := by
  rintro method - ⟨own, s⟩ ⟨block, _⟩ ⟨shows, rfl⟩
  cases method with
  | nblocks => exact both_pass rfl rfl shows
  | setsize size => exact both_pass rfl rfl shows
  | read offset buffer =>
    by_cases marked : offset = UNUSED
    · subst marked
      have found : (cachedisk stop (.read UNUSED buffer) own : Effect Method.Reply ε _) =
          pure ((0, own.blocks 0), own) := by
        simp only [cachedisk, shows.1.search_unused, Effect.pure_bind]
      have kept : (withBlock (nblocks.toNat = 1) (.read UNUSED buffer) block : Effect Method.Reply ε _) =
          pure ((0, block), block) := by
        simp only [withBlock, if_true]
      have left := Layer.over_done (congrFun (congrArg (Effect.run below) found) s)
      have right := Layer.over_done (congrFun (congrArg (Effect.run below) kept) s)
      rw [left, right, shows.2]
      exact ⟨rfl, shows, rfl⟩
    · have missed : (cachedisk stop (.read offset buffer) own : Effect Method.Reply ε _) =
          call (.read offset buffer) >>= fun answer => pure (answer, { own with readMiss := own.readMiss + 1 }) := by
        simp only [cachedisk, shows.1.search_other few marked, Effect.pure_bind]
      exact both_pass missed (if_neg marked) shows
  | write offset new =>
    by_cases marked : offset = UNUSED
    · have found : (cachedisk stop (.write offset new) own : Effect Method.Reply ε _) = call (.write offset new) >>=
          fun result => pure (result, own.setBlock 0 new) := by
        simp only [cachedisk, marked, shows.1.search_unused, Effect.pure_bind]
      have kept : (withBlock (nblocks.toNat = 1) (.write offset new) block : Effect Method.Reply ε _) =
          call (.write offset new) >>= fun result => pure (result, new) := by
        simp only [withBlock, marked, true_or, if_true]
      have first : (own.setBlock 0 new).blocks 0 = new := by
        change Function.update own.blocks 0 new 0 = new
        exact Function.update_self ..
      exact both_pass found kept ⟨shows.1.setBlock 0 new, first⟩
    · have missed : (cachedisk stop (.write offset new) own : Effect Method.Reply ε _) =
          call (.write offset new) >>= fun result =>
              pure (result, { own.setBlock (Fin.rev 0) new with writeMiss := own.writeMiss + 1 }) := by
        simp only [cachedisk, shows.1.search_other few marked, Effect.pure_bind, shows.1.unused_last]
      have kept : (withBlock (nblocks.toNat = 1) (.write offset new) block : Effect Method.Reply ε _) =
          call (.write offset new) >>= fun result => pure (result, if nblocks.toNat = 1 then new else block) := by
        simp only [withBlock, marked, false_or, decide_eq_true_eq]
      exact both_pass missed kept (shows.write new)

end Simulations

/-- A program that does not use the number of a free entry gets the answers of the store below.
Otherwise the cache is the store below with one block more, and with a single block of memory all
writes leave their blocks there. -/
theorem cachedisk_misses (few : nblocks.toNat < 2 ^ 31) (stop : ε) (below : Service Method.Reply ε σ)
    (program : Effect Method.Reply ε α)
    (blocks : Fin nblocks.toNat → Block) (s : σ) :
    (program.Uses Avoids (fun _ => True) →
      (program.run ((cachedisk stop).over below) (State.init blocks, s)).Alike
        (fun s t => s.2 = t) (program.run below s)) ∧
    ∀ [NeZero nblocks.toNat], (program.run ((cachedisk stop).over below) (State.init blocks, s)).Alike
      (fun s t => s.1.blocks 0 = t.1 ∧ s.2 = t.2)
      (program.run ((withBlock (nblocks.toNat = 1)).over below) (blocks 0, s)) := by
  constructor
  · intro avoids
    exact ((cachedisk_simulates few stop below).run avoids (State.init blocks, s) s ⟨init_free blocks, rfl⟩).mono
      fun _ _ => And.right
  · intro some
    have shows : Shows (State.init blocks) (blocks 0) := ⟨init_free blocks, rfl⟩
    have all := (cachedisk_shows few stop below).run program.uses_all (State.init blocks, s) (blocks 0, s) ⟨shows, rfl⟩
    exact all.mono fun _ _ related => ⟨related.1.2, related.2⟩

private instance one_some : NeZero (1 : BlockNo).toNat := ⟨by decide⟩

private def sample (offset : BlockNo) : Effect Method.Reply Unit (Int × UInt32) := do
  let _ ← call (.write 3 fun _ => 7)
  let answer ← call (.read offset nullBlock)
  return (answer.1, answer.2 0)

private theorem four_reported : (4 : BlockNo).toNat < 2 ^ 31 := by decide

private def four : Store := { size := 4, block := fun _ => nullBlock, reported := four_reported }

/-- With a single block of memory, what has been written to block 3 is also in a block that is far
past the end of the store. -/
theorem cachedisk_misses_four :
    ∃ first second, (sample 3).run ((cachedisk ()).over (store arrayStore)) (State.init
      fun (_ : Fin (1 : BlockNo).toNat) => nullBlock, four) = .done (0, 7) first ∧
      (sample UNUSED).run ((cachedisk ()).over (store arrayStore)) (State.init
          fun (_ : Fin (1 : BlockNo).toNat) => nullBlock, four) = .done (0, 7) second := by
  have other : (3 : BlockNo) ≠ UNUSED := by decide
  have few : (1 : BlockNo).toNat < 2 ^ 31 := by decide
  have near := (cachedisk_misses few () (store arrayStore) (sample 3)
    (fun (_ : Fin (1 : BlockNo).toNat) => nullBlock) four).1
    ⟨other, fun _ => ⟨other, fun _ => trivial⟩⟩
  have far := (cachedisk_misses few () (store arrayStore) (sample UNUSED)
    (fun (_ : Fin (1 : BlockNo).toNat) => nullBlock) four).2
  obtain ⟨last, ran⟩ : ∃ last, (sample 3).run (store arrayStore) four = .done (0, 7) last := ⟨_, rfl⟩
  obtain ⟨final, ended⟩ : ∃ final, (sample UNUSED).run
    ((withBlock ((1 : BlockNo).toNat = 1)).over (store arrayStore)) (nullBlock, four) =
    .done (0, 7) final := ⟨_, rfl⟩
  rw [ran] at near
  rw [ended] at far
  obtain ⟨first, here, _⟩ := near.done_of
  obtain ⟨second, there, _⟩ := far.done_of
  exact ⟨first, second, here, there⟩

end Egos.Cachedisk
