import Egos.Block.Raid0disk
import Egos.Proofs.BlockVolume
import Mathlib.Tactic.Ring

/-! Striped block stores of the same size are one block store. -/

namespace Egos.Raid0disk
open Library
open BlockStack (Method.Fixed nblocks_fixed read_fixed write_fixed store_read store_read_past store_write
  store_write_past)
open Clockdisk (arrayStore)
open Disk (Block BlockNo Method Store nullBlock store)

variable {ε σ : Type} {nbelow : UInt32} [NeZero nbelow.toNat]

/-- A block of the whole is in the store that the remainder of its number says. -/
structure Striped (stores : Fin nbelow.toNat → Store) (whole : Store) : Prop where
  size : ∀ i, whole.size.toNat = nbelow.toNat * (stores i).size.toNat
  block : ∀ (i : Fin nbelow.toNat) (k : Nat), whole.block (nbelow.toNat * k + i) = (stores i).block k

def place (offset : BlockNo) : Fin nbelow.toNat := .ofNat _ (offset % nbelow).toNat

section Place
variable {offset : BlockNo}

theorem place_val : (place offset : Fin nbelow.toNat).val = offset.toNat % nbelow.toNat := by
  change (offset % nbelow).toNat % nbelow.toNat = _
  rw [UInt32.toNat_mod, Nat.mod_mod]

theorem place_block : nbelow.toNat * (offset / nbelow).toNat + (place offset : Fin nbelow.toNat) = offset.toNat := by
  rw [place_val, UInt32.toNat_div]
  exact Nat.div_add_mod ..

theorem place_only {i : Fin nbelow.toNat} {k : Nat} (here : nbelow.toNat * k + i = offset.toNat) :
    i = place offset ∧ k = (offset / nbelow).toNat := by
  constructor
  · apply Fin.ext
    rw [place_val, ← here, Nat.mul_add_mod, Nat.mod_eq_of_lt i.isLt]
  · rw [UInt32.toNat_div, ← here, Nat.mul_add_div (Nat.pos_of_neZero _), Nat.div_eq_of_lt i.isLt, Nat.add_zero]

theorem stripe_found (few : nbelow.toNat ≤ 2 ^ 31) (stop : ε) :
    (stripe stop offset : Effect (@Indexed.Reply nbelow) ε _) = pure (place offset) := by
  have small : (offset % nbelow).toNat < 2 ^ 31 := by
    rw [UInt32.toNat_mod]
    exact lt_of_lt_of_le (Nat.mod_lt _ (Nat.pos_of_neZero _)) few
  exact if_pos small

end Place

section Stripes
variable {stores : Fin nbelow.toNat → Store} {whole : Store} {offset : BlockNo}

theorem Striped.inside (striped : Striped stores whole) :
    offset / nbelow < (stores (place offset)).size ↔ offset < whole.size := by
  rw [UInt32.lt_iff_toNat_lt, UInt32.lt_iff_toNat_lt, striped.size (place offset), UInt32.toNat_div,
    Nat.div_lt_iff_lt_mul (Nat.pos_of_neZero _), Nat.mul_comm]

theorem Striped.read (striped : Striped stores whole) :
    (stores (place offset)).block (offset / nbelow).toNat = whole.block offset.toNat := by
  rw [← striped.block, place_block]

theorem Striped.write (striped : Striped stores whole) (block : Block) :
    Striped (Function.update stores (place offset)
        { stores (place offset) with block := Function.update (stores (place offset)).block (offset / nbelow).toNat block })
      { whole with block := Function.update whole.block offset.toNat block } where
  size i := by
    by_cases here : i = place offset
    · subst here
      rw [Function.update_self]
      exact striped.size _
    · rw [Function.update_of_ne here]
      exact striped.size i
  block i k := by
    change Function.update whole.block offset.toNat block (nbelow.toNat * k + i) = _
    by_cases here : nbelow.toNat * k + i = offset.toNat
    · obtain ⟨rfl, rfl⟩ := place_only here
      rw [here]
      simp only [Function.update_self]
    · rw [Function.update_of_ne here, striped.block]
      by_cases same : i = place offset
      · subst same
        have other : k ≠ (offset / nbelow).toNat := by
          rintro rfl
          exact here place_block
        rw [Function.update_self]
        exact (Function.update_of_ne other ..).symm
      · rw [Function.update_of_ne same]

omit [NeZero nbelow.toNat] in
theorem asked {i : Fin nbelow.toNat} {method : Method} {reply : method.Reply} {after : Store}
    (served : (store arrayStore method (stores i) : Outcome _ ε _) = .done reply after) :
    (call i method : Effect (@Indexed.Reply nbelow) ε method.Reply).run (Service.copies (store arrayStore)) stores =
      .done reply (Function.update stores i after) :=
  (congrFun (Effect.run_perform _) stores).trans (Service.copies_done served)

omit [NeZero nbelow.toNat] in
/-- A question leaves the stores as they are. -/
theorem asked_same {i : Fin nbelow.toNat} {method : Method} {reply : method.Reply}
    (served : (store arrayStore method (stores i) : Outcome _ ε _) = .done reply (stores i)) :
    (call i method : Effect (@Indexed.Reply nbelow) ε method.Reply).run
    (Service.copies (store arrayStore)) stores = .done reply stores := by
  have ran := asked served
  rw [Function.update_eq_self] at ran
  exact ran

/-- The size of the first store counts for each of them. -/
theorem sizeLoop_run (stores : Fin nbelow.toNat → Store) (rounds : Nat) (total : Int) :
    (sizeLoop rounds total : Effect (@Indexed.Reply nbelow) ε Int).run (Service.copies (store arrayStore)) stores =
      .done (total + rounds * (stores 0).size.toNat) stores := by
  induction rounds generalizing total with
  | zero =>
    rw [Nat.cast_zero, zero_mul, add_zero]
    rfl
  | succ rounds ih =>
    have first : (call 0 .nblocks : Effect (@Indexed.Reply nbelow) ε Int).run
      (Service.copies (store arrayStore)) stores =
        .done ((stores 0).size.toNat : Int) stores := asked_same rfl
    have next : total + (rounds + 1 : Nat) * ((stores 0).size.toNat : Int) =
        total + (stores 0).size.toNat + rounds * (stores 0).size.toNat := by
      push_cast
      ring
    unfold sizeLoop
    rw [Effect.run_bind, Prog.bind_done first, if_neg (Int.not_lt.mpr (Int.natCast_nonneg _)), ih, next]

theorem raid0disk_read (few : nbelow.toNat ≤ 2 ^ 31) (stop : ε) (buffer : Block) (own : Unit) :
    raid0disk stop (.read offset buffer) own =
      ((call (place offset) (.read (offset / nbelow) buffer) : Effect (@Indexed.Reply nbelow) ε _) >>=
          fun answer => pure (answer, own)) := by
  change (stripe stop offset >>= fun i => call i (.read (offset / nbelow) buffer) >>=
    fun answer => pure (answer, own)) = _
  rw [stripe_found few, Effect.pure_bind]

theorem raid0disk_write (few : nbelow.toNat ≤ 2 ^ 31) (stop : ε) (block : Block) (own : Unit) :
    raid0disk stop (.write offset block) own =
      ((call (place offset) (.write (offset / nbelow) block) : Effect (@Indexed.Reply nbelow) ε _) >>=
          fun result => pure (result, own)) := by
  change (stripe stop offset >>= fun i => call i (.write (offset / nbelow) block) >>=
    fun result => pure (result, own)) = _
  rw [stripe_found few, Effect.pure_bind]

/-- Stores of one size are one store, unless it is resized. -/
theorem raid0disk_simulates (few : nbelow.toNat ≤ 2 ^ 31) (stop : ε) :
    Simulates Method.Fixed (fun (s : Unit × (Fin nbelow.toNat → Store)) whole => Striped s.2 whole)
      ((raid0disk stop).over (Service.copies (store arrayStore)))
      (store arrayStore) := by
  rintro method fixed ⟨own, stores⟩ whole striped
  change Striped stores whole at striped
  cases method with
  | setsize nblocks => exact absurd rfl (fixed nblocks)
  | nblocks =>
    have total : ((0 : Int) + nbelow.toNat * (stores 0).size.toNat) = whole.size.toNat := by
      rw [striped.size 0]
      push_cast
      ring
    have ran : (raid0disk stop .nblocks own).run (Service.copies (store arrayStore)) stores =
        .done ((whole.size.toNat : Int), own) stores := by
      rw [← total]
      exact (congrFun Effect.run_bind stores).trans (Prog.bind_done (sizeLoop_run stores nbelow.toNat 0))
    rw [Layer.over_done ran]
    exact ⟨rfl, striped⟩
  | read offset buffer =>
    have ran : ∀ answer, (store arrayStore (.read (offset / nbelow) buffer) (stores (place offset)) : Outcome _ ε _) =
        .done answer (stores (place offset)) →
        (raid0disk stop (.read offset buffer) own).run (Service.copies (store arrayStore)) stores =
            .done (answer, own) stores := by
      intro answer below
      rw [raid0disk_read few, Effect.run_bind, Prog.bind_done (asked_same below)]
      rfl
    by_cases inside : offset < whole.size
    · rw [Layer.over_done (ran _ (store_read (striped.inside.mpr inside) buffer)), store_read inside, striped.read]
      exact ⟨rfl, striped⟩
    · rw [Layer.over_done (ran _ (store_read_past (mt striped.inside.mp inside) buffer)), store_read_past inside]
      exact ⟨rfl, striped⟩
  | write offset block =>
    have ran : ∀ result after, (store arrayStore (.write (offset / nbelow) block)
      (stores (place offset)) : Outcome _ ε _) = .done result after →
        (raid0disk stop (.write offset block) own).run (Service.copies (store arrayStore)) stores =
          .done (result, own) (Function.update stores (place offset) after) := by
      intro result after below
      rw [raid0disk_write few, Effect.run_bind, Prog.bind_done (asked below)]
      rfl
    by_cases inside : offset < whole.size
    · rw [Layer.over_done (ran _ _ (store_write (striped.inside.mpr inside) block)), store_write inside]
      exact ⟨rfl, striped.write block⟩
    · rw [Layer.over_done (ran _ _ (store_write_past (mt striped.inside.mp inside) block)),
        store_write_past inside, Function.update_eq_self]
      exact ⟨rfl, striped⟩

theorem stripe_uses (stop : ε) {allowed : Indexed nbelow → Prop} :
    (stripe stop offset : Effect (@Indexed.Reply nbelow) ε _).Uses allowed fun _ => True :=
  Effect.uses_ite trivial trivial

theorem sizeLoop_uses (rounds : Nat) (total : Int) :
    (sizeLoop rounds total : Effect (@Indexed.Reply nbelow) ε Int).Uses (fun c => Method.Fixed c.2) fun _ => True := by
  induction rounds generalizing total with
  | zero => trivial
  | succ rounds ih => exact ⟨nblocks_fixed, fun r => Effect.uses_ite trivial (ih (total + r))⟩

/-- The layer resizes none of its stores. -/
theorem raid0disk_uses (stop : ε) (method : Method) (own : Unit) :
    (raid0disk stop method own : Effect (@Indexed.Reply nbelow) ε _).Uses
    (fun c => Method.Fixed c.2) fun _ => True := by
  cases method with
  | nblocks => exact Effect.uses_bind (sizeLoop_uses ..) fun _ => trivial
  | setsize nblocks => trivial
  | read offset buffer => exact Effect.uses_bind (stripe_uses stop) fun i => ⟨read_fixed _ _, fun _ => trivial⟩
  | write offset block => exact Effect.uses_bind (stripe_uses stop) fun i => ⟨write_fixed _ _, fun _ => trivial⟩

end Stripes

def gathered (stores : Fin nbelow.toNat → Store) (size : BlockNo) (fits : nbelow.toNat * size.toNat < 2 ^ 31) :
    Store where
  size := nbelow * size
  block k := (stores (.ofNat _ k)).block (k / nbelow.toNat)
  reported := by
    rw [UInt32.toNat_mul]
    exact lt_of_le_of_lt (Nat.mod_le ..) fits

theorem gathered_striped {stores : Fin nbelow.toNat → Store} {size : BlockNo} (equal : ∀ i, (stores i).size = size)
    (fits : nbelow.toNat * size.toNat < 2 ^ 31) : Striped stores (gathered stores size fits) where
  size i := by
    rw [equal]
    exact (UInt32.toNat_mul ..).trans (Nat.mod_eq_of_lt (by omega))
  block i k := by
    have here : Fin.ofNat nbelow.toNat (nbelow.toNat * k + i) = i := by
      apply Fin.ext
      change (nbelow.toNat * k + i) % nbelow.toNat = _
      rw [Nat.mul_add_mod, Nat.mod_eq_of_lt i.isLt]
    change (stores (.ofNat _ (nbelow.toNat * k + i))).block ((nbelow.toNat * k + i) / nbelow.toNat) = _
    rw [here, Nat.mul_add_div (Nat.pos_of_neZero _), Nat.div_eq_of_lt i.isLt, Nat.add_zero]

/-- What is below may be anything that serves as an array does: a program that does not resize its
store does the same on the stripes as on one store with the blocks of all of them. -/
theorem stripes_served {α : Type} {below : Service Method.Reply ε σ} {holds : σ → Store → Prop}
    (arrays : Simulates Method.Fixed holds below (store arrayStore)) (few : nbelow.toNat ≤ 2 ^ 31) (stop : ε)
    {program : Effect Method.Reply ε α} (uses : program.Uses Method.Fixed fun _ => True) {s : Fin nbelow.toNat → σ}
    {stores : Fin nbelow.toNat → Store} (start : ∀ i, holds (s i) (stores i)) {size : BlockNo}
    (equal : ∀ i, (stores i).size = size)
    (fits : nbelow.toNat * size.toNat < 2 ^ 31) :
    (program.run ((raid0disk stop).over (Service.copies below)) ((), s)).Alike
      (fun after whole => ∃ stores : Fin nbelow.toNat → Store, (∀ i, holds (after.2 i) (stores i)) ∧
      Striped stores whole)
      (program.run (store arrayStore) (gathered stores size fits)) := by
  have striping := (arrays.copies (ι := Fin nbelow.toNat)).lift fun method (_ : Method.Fixed method) own =>
    raid0disk_uses stop method own
  have served := (striping.trans (raid0disk_simulates few stop)).run uses ((), s) (gathered stores size fits)
    ⟨((), stores), ⟨rfl, start⟩, gathered_striped equal fits⟩
  refine served.mono fun after whole related => ?_
  obtain ⟨⟨_, last⟩, ⟨-, still⟩, striped⟩ := related
  exact ⟨last, still, striped⟩

private instance three_some : NeZero (3 : UInt32).toNat := ⟨by decide⟩

private def three : Fin (3 : UInt32).toNat →
    Store := fun _ => { size := 2, block := fun _ => nullBlock, reported := by decide }

private def sample : Effect Method.Reply Unit (Int × Int × Int × UInt32) := do
  let wrote ← Disk.call (.write 4 fun _ => 7)
  let refused ← Disk.call (.write 6 fun _ => 9)
  let answer ← Disk.call (.read 4 nullBlock)
  return (wrote, refused, answer.1, answer.2 0)

/-- A program on three stores of two blocks: block 6 is past the end. -/
theorem stripes_served_three :
    ∃ after, sample.run ((raid0disk ()).over (Service.copies (store arrayStore))) ((), three) =
        .done (0, -1, 0, 7) after := by
  have same : Simulates Method.Fixed Eq (store arrayStore) (store arrayStore : Service Method.Reply Unit Store) := by
    rintro method - s _ rfl
    cases method <;> exact ⟨rfl, rfl⟩
  have uses : sample.Uses Method.Fixed fun _ => True :=
    ⟨write_fixed _ _, fun _ => ⟨write_fixed _ _, fun _ => ⟨read_fixed _ _, fun _ => trivial⟩⟩⟩
  have few : (3 : UInt32).toNat ≤ 2 ^ 31 := by decide
  have start : ∀ i, three i = three i := fun _ => rfl
  have equal : ∀ i, (three i).size = 2 := fun _ => rfl
  have served := stripes_served same few () uses start equal (by decide)
  obtain ⟨last, ran⟩ : ∃ last, sample.run (store arrayStore) (gathered three 2 (by decide)) =
    .done (0, -1, 0, 7) last := ⟨_, rfl⟩
  rw [ran] at served
  obtain ⟨after, ends, _⟩ := served.done_of
  exact ⟨after, ends⟩

end Egos.Raid0disk
