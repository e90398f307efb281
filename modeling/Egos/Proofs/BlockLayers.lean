import Egos.Block.Layers
import Egos.Proofs.ClockdiskCache

/-! A cache on top of an array of blocks answers like the array, and so the FAT file system on
top of the cache cannot be told from one on top of the array. -/

namespace Egos.Clockdisk
open Library Library.Prog Disk

variable {σ ε : Type} {nblocks : BlockNo}

def State.on (own : State Unit nblocks) (below : σ) : State σ nblocks :=
  { below, blocks := own.blocks, binfo := own.binfo, clockHand := own.clockHand, readHit := own.readHit,
    readMiss := own.readMiss,
    writeHit := own.writeHit, writeMiss := own.writeMiss }

theorem State.on_injective {own last : State Unit nblocks} {below after : σ} (same : own.on below = last.on after) :
    own = last ∧ below = after := by
  cases own
  cases last
  cases same
  exact ⟨rfl, rfl⟩

@[simp] theorem State.on_lookup (own : State Unit nblocks) (below : σ) (offset : BlockNo) :
    (own.on below).lookup offset = own.lookup offset := rfl

def onto (below : σ) {α : Type} : Outcome (State Unit nblocks) Halt α → Outcome (State σ nblocks) Halt α
  | .done value own => .done value (own.on below)
  | .halted reason own => .halted reason (own.on below)

section Layer
variable [NeZero nblocks.toNat] (own : State Unit nblocks) (s : σ) (offset : BlockNo) (block : Block)

private theorem cacheLoop_on (rounds : Nat) :
    cacheLoop offset block rounds (own.on s) = onto s (cacheLoop offset block rounds own) := by
  induction rounds generalizing own with
  | zero => rfl
  | succ rounds ih =>
    have here : ((own.on s).binfo (own.on s).hand).status = (own.binfo own.hand).status := rfl
    unfold cacheLoop
    rw [Prog.bind_done (get_run _), Prog.bind_done (get_run _), here]
    cases (own.binfo own.hand).status with
    | empty => rfl
    | unused => rfl
    | used => exact ih { own.setStatus own.hand .unused with clockHand := own.clockHand + 1 }

/-- The update does not look at the store below. -/
theorem cacheUpdate_on : cacheUpdate offset block (own.on s) = onto s (cacheUpdate offset block own) :=
  cacheLoop_on { own with clockHand := if own.clockHand > nblocks then own.clockHand % nblocks else own.clockHand } s
    offset block (nblocks.toNat + 1)

end Layer
end Egos.Clockdisk

namespace Egos.Disk
open Library Library.Prog
open Clockdisk (BlockIf State Cached IsArray)

variable {σ ε : Type} {nblocks : BlockNo} {size : σ → Nat} {contents : σ → BlockNo → Block}

def Method.asCall : Method → Clockdisk.Call
  | .nblocks => .nblocks
  | .read offset buffer => .read offset buffer
  | .write offset block => .write offset block
  | .setsize nblocks => .setsize nblocks

def Method.result : (method : Method) → Clockdisk.Answer → method.Reply
  | .nblocks, answer => answer.1
  | .read _ buffer, answer => (answer.1, answer.2.getD buffer)
  | .write .., answer => answer.1
  | .setsize _, answer => answer.1

theorem store_run (b : BlockIf σ) (method : Method) (s : σ) :
    store b method s = (.done (method.result (method.asCall.direct b s).1)
        (method.asCall.direct b s).2 : Outcome σ ε _) := by
  cases method <;> rfl

section Cache
variable [NeZero nblocks.toNat] {stop : Clockdisk.Halt → ε}

private theorem cacheUpdate_run {service : Service Method.Reply ε σ} (own last : State Unit nblocks)
    {offset : BlockNo} {block : Block} (s : σ) {after : σ}
    (ran : Clockdisk.cacheUpdate offset block (own.on s) = .done () (last.on after)) :
    s = after ∧ (cacheUpdate stop offset block own).run service s = .done last s := by
  rw [Clockdisk.cacheUpdate_on] at ran
  unfold cacheUpdate
  cases updated : Clockdisk.cacheUpdate offset block own with
  | done value final =>
    rw [updated] at ran
    obtain ⟨rfl, rfl⟩ := State.on_injective (Outcome.done.inj ran).2
    exact ⟨rfl, rfl⟩
  | halted reason final =>
    rw [updated] at ran
    cases ran

private theorem read_next {α : Type} {b : BlockIf σ} {offset : BlockNo} {buffer : Block}
    {next : Int × Block → Effect Method.Reply ε α} {s : σ} :
    (call (.read offset buffer) >>= next).run (store b) s = (next (b.read s offset buffer)).run (store b) s := rfl

private theorem write_next {α : Type} {b : BlockIf σ} {offset : BlockNo} {block : Block}
    {next : Int → Effect Method.Reply ε α} {s : σ} :
    (call (.write offset block) >>= next).run (store b) s =
      (next (b.write s offset block).1).run (store b) (b.write s offset block).2 := rfl

variable {b : BlockIf σ} {own last : State Unit nblocks} {s after : σ} {offset : BlockNo}

theorem clockdiskRead_run {buffer : Block} {result : Int × Block}
    (served : Clockdisk.clockdiskRead b offset buffer (own.on s) = .done result (last.on after)) :
    (clockdisk stop (.read offset buffer) own).run (store b) s = .done (result, last) after := by
  unfold Clockdisk.clockdiskRead at served
  rw [Prog.bind_done (get_run _)] at served
  unfold clockdisk
  cases found : own.lookup offset with
  | some i =>
    simp only [State.on_lookup, found] at served
    obtain ⟨rfl, state⟩ := Outcome.done.inj served
    obtain ⟨rfl, rfl⟩ := @State.on_injective _ _
      { own.setStatus i .used with readHit := own.readHit + 1 } last s after state
    simp only [found]
    rfl
  | none =>
    simp only [State.on_lookup, found] at served
    rw [Prog.bind_done (modify_run _ _)] at served
    simp only [found]
    refine read_next.trans ?_
    let missed : State Unit nblocks := { own with readMiss := own.readMiss + 1 }
    cases failed : decide ((b.read (own.on s).below offset buffer).1 = -1) with
    | true =>
      rw [failed] at served
      obtain ⟨rfl, state⟩ := Outcome.done.inj served
      obtain ⟨rfl, rfl⟩ := @State.on_injective _ _ missed last s after state
      rw [if_pos (show (b.read s offset buffer).1 = -1 from of_decide_eq_true failed)]
      rfl
    | false =>
      rw [failed] at served
      obtain ⟨_, middle, updated, rest⟩ := Prog.bind_returns.mp served
      cases rest
      obtain ⟨rfl, update⟩ := @cacheUpdate_run _ _ _ _ stop (store b) missed last _ _ s _ updated
      rw [if_neg (show (b.read s offset buffer).1 ≠ -1 from of_decide_eq_false failed), Effect.run_bind]
      exact Prog.bind_done update

theorem clockdiskWrite_run {block : Block} {result : Int}
    (served : Clockdisk.clockdiskWrite b offset block (own.on s) = .done result (last.on after)) :
    (clockdisk stop (.write offset block) own).run (store b) s = .done (result, last) after := by
  unfold Clockdisk.clockdiskWrite at served
  rw [Prog.bind_done (get_run _)] at served
  unfold clockdisk
  let below := (b.write s offset block).2
  cases found : own.lookup offset with
  | some i =>
    simp only [State.on_lookup, found] at served
    rw [Prog.bind_done (modify_run _ _), Prog.bind_done (modify_run _ _)] at served
    simp only [found]
    refine write_next.trans ?_
    let hit : State Unit nblocks := own.setStatus i .used
    let written : State Unit nblocks := { hit with writeHit := hit.writeHit + 1 }.setBlock i block
    cases failed : decide ((b.write (own.on s).below offset block).1 = -1) with
    | true =>
      rw [failed] at served
      obtain ⟨rfl, state⟩ := Outcome.done.inj served
      obtain ⟨rfl, rfl⟩ := @State.on_injective _ _ hit last below after state
      rw [if_pos (show (b.write s offset block).1 = -1 from of_decide_eq_true failed)]
      rfl
    | false =>
      rw [failed] at served
      obtain ⟨rfl, state⟩ := Outcome.done.inj served
      obtain ⟨rfl, rfl⟩ := @State.on_injective _ _ written last below after state
      rw [if_neg (show (b.write s offset block).1 ≠ -1 from of_decide_eq_false failed)]
      rfl
  | none =>
    simp only [State.on_lookup, found] at served
    rw [Prog.bind_done (modify_run _ _)] at served
    simp only [found]
    refine write_next.trans ?_
    cases failed : decide ((b.write (own.on s).below offset block).1 = -1) with
    | true =>
      rw [failed] at served
      obtain ⟨rfl, state⟩ := Outcome.done.inj served
      obtain ⟨rfl, rfl⟩ := @State.on_injective _ _ own last below after state
      rw [if_pos (show (b.write s offset block).1 = -1 from of_decide_eq_true failed)]
      rfl
    | false =>
      rw [failed] at served
      obtain ⟨_, counted, count, rest⟩ := Prog.bind_returns.mp served
      cases count
      obtain ⟨_, middle, updated, rest⟩ := Prog.bind_returns.mp rest
      cases rest
      let missed : State Unit nblocks := { own with writeMiss := own.writeMiss + 1 }
      obtain ⟨same, update⟩ := @cacheUpdate_run _ _ _ _ stop (store b) missed last _ _ below _ updated
      subst same
      rw [if_neg (show (b.write s offset block).1 ≠ -1 from of_decide_eq_false failed), Effect.run_bind]
      exact Prog.bind_done update

/-- The layer on top of a store does what the cache with that store does. -/
theorem clockdisk_run {method : Method} {answer : Clockdisk.Answer}
    (ran : method.asCall.perform b (own.on s) = .done answer (last.on after)) :
    (clockdisk stop).over (store b) method (own, s) = .done (method.result answer) (last, after) := by
  apply Layer.over_done
  cases method with
  | nblocks =>
    obtain ⟨rfl, same⟩ := Outcome.done.inj ran
    obtain ⟨rfl, rfl⟩ := State.on_injective same
    rfl
  | setsize size =>
    obtain ⟨rfl, same⟩ := Outcome.done.inj ran
    obtain ⟨rfl, rfl⟩ := @State.on_injective _ _ (dropPast size own) last (b.setsize s size).2 after same
    rfl
  | read offset buffer =>
    obtain ⟨result, between, served, rest⟩ := Prog.bind_returns.mp ran
    cases rest
    exact clockdiskRead_run served
  | write offset block =>
    obtain ⟨result, between, served, rest⟩ := Prog.bind_returns.mp ran
    cases rest
    exact clockdiskWrite_run served

/-- A cache on top of an array of blocks answers like the array. -/
theorem clockdisk_simulates {b : BlockIf σ} (lawful : IsArray b size contents) :
    Simulates (fun _ => True) (fun (s : State Unit nblocks × σ) t => s.2 = t ∧ Cached size contents (s.1.on s.2))
      ((clockdisk stop).over (store b)) (store b) := by
  rintro method - ⟨own, s⟩ _ ⟨rfl, cached⟩
  obtain ⟨answer, after, ran, same, below, still⟩ := (Clockdisk.call_serves lawful cached method.asCall).total
  let last : State Unit nblocks :=
    { below := (), blocks := after.blocks, binfo := after.binfo, clockHand := after.clockHand,
      readHit := after.readHit, readMiss := after.readMiss,
      writeHit := after.writeHit, writeMiss := after.writeMiss }
  have split : after = last.on after.below := rfl
  rw [split] at ran
  rw [clockdisk_run ran, store_run, same]
  exact ⟨rfl, below, still⟩

end Cache

end Egos.Disk
