import Egos.Grass.Suspend
import Egos.Proofs.GrassPriorities
import Mathlib.Data.UInt

/-! How long proc_yield waits. An alarm that has gone off may leave `next` in the past, but then
its owner can run and nobody waits. -/

namespace Egos.Grass
open Library Library.Prog

/-- The difference that is passed to intr_suspend: a second at most. -/
structure Fits (now next : Time) : Prop where
  positive : 0 < (next - now).toNat
  small : (next - now).toNat ≤ 1000
  later : now.toNat + 1000 < 2 ^ 64 → now < next

theorem fits_start (now : Time) : Fits now (now + 1000) := by
  have difference : now + 1000 - now = 1000 := by
    rw [UInt64.add_comm, UInt64.add_sub_cancel]
  refine ⟨?_, ?_, fun small => ?_⟩
  · rw [difference]
    decide
  · rw [difference]
    decide
  · rw [UInt64.lt_iff_toNat_lt, UInt64.toNat_add, Nat.mod_eq_of_lt (by simpa using small)]
    exact Nat.lt_add_of_pos_right (by decide)

theorem Fits.earlier {now next exptime : Time} (fits : Fits now next) (future : now < exptime)
    (sooner : exptime < next) :
    Fits now exptime := by
  have first : now.toNat < exptime.toNat := UInt64.lt_iff_toNat_lt.mp future
  have second : exptime.toNat < next.toNat := UInt64.lt_iff_toNat_lt.mp sooner
  have short : (exptime - now).toNat = exptime.toNat - now.toNat :=
    UInt64.toNat_sub_of_le _ _ (UInt64.le_iff_toNat_le.mpr first.le)
  have long : (next - now).toNat = next.toNat - now.toNat :=
    UInt64.toNat_sub_of_le _ _ (UInt64.le_iff_toNat_le.mpr (first.trans second).le)
  have small := fits.small
  refine ⟨by omega, by omega, fun _ => future⟩

/-! The loop with `next` does what the loop does. -/

section Erase
variable {β : Type}

theorem checkTimeoutNext_erases (now : Time) (p : Slot) (next : Time) (rest : Kern β) :
    (checkTimeoutNext now p next >>= fun _ => rest) = checkTimeout now p >>= fun _ => rest := by
  funext k
  unfold checkTimeoutNext checkTimeout
  rw [Prog.bind_assoc, Prog.bind_assoc, Prog.bind_done (get_run k), Prog.bind_done (get_run k)]
  cases k.procShuttingDown && decide ((k.procSet p).state ≠ .free) with
  | true =>
    dsimp only
    rw [Prog.bind_assoc]
    rfl
  | false =>
    dsimp only
    cases decide ((k.procSet p).state = .waiting) && (k.procSet p).alarmSet with
    | true =>
      dsimp only
      rw [Prog.bind_assoc, Bool.true_and]
      rfl
    | false => rfl

theorem searchTimeouts_erases (now : Time) (slots : List Slot) (next : Time) (rest : Kern β) :
    (searchTimeouts now slots next >>= fun _ => rest) = forSlots (checkTimeout now) slots >>= fun _ => rest := by
  induction slots generalizing next with
  | nil => rfl
  | cons p slots ih =>
    unfold searchTimeouts forSlots
    rw [Prog.bind_assoc, Prog.bind_assoc]
    simp only [ih]
    exact checkTimeoutNext_erases now p next _

theorem procYieldRoundNext_erases (now later : Time) :
    (procYieldRoundNext now later >>= fun result => pure result.1) = procYieldRound now later := by
  have tail : ∀ next : Time, ((procYieldPick later >>= fun turn => pure (turn, next)) >>= fun result => pure result.1) =
      procYieldPick later := by
    intro next
    rw [Prog.bind_assoc]
    exact Prog.bind_pure _
  have body : (searchTimeouts now procSlots (now + 1000) >>= fun next => procYieldPick later >>=
    fun turn => pure (turn, next)) >>=
      (fun result => pure result.1) = forSlots (checkTimeout now) procSlots >>= fun _ => procYieldPick later := by
    rw [Prog.bind_assoc, ← searchTimeouts_erases now procSlots (now + 1000)]
    exact congrArg _ (funext tail)
  funext k
  unfold procYieldRoundNext procYieldRound
  rw [Prog.bind_assoc, Prog.bind_done (get_run k), Prog.bind_done (get_run k), Prog.bind_assoc]
  cases ensured : (ensure (k.procNprocs ≠ 0) "proc_yield" "proc_nprocs > 0" : Kern Unit) k with
  | halted reason after => rw [Prog.bind_halted ensured, Prog.bind_halted ensured]
  | done value after =>
    rw [Prog.bind_done ensured, Prog.bind_done ensured]
    cases k.procCurfew ≠ 0 && k.procCurfew < now with
    | true => rfl
    | false => exact congrFun body after

end Erase

variable {k after : Kernel}

/-- While the system is up, a wait is too long only if there is a process that can run. -/
theorem checkTimeoutNext_fits {now next : Time} (p : Slot) (settled : Settled k) (up : k.procShuttingDown = false)
    (holds : Fits now next ∨ ∃ q, (k.procSet q).state = .runnable) :
    Ensures never (checkTimeoutNext now p next) k fun next after => (Settled after ∧ after.procShuttingDown = false) ∧
      (Fits now next ∨ ∃ q, (after.procSet q).state = .runnable) := by
  unfold checkTimeoutNext
  apply Ensures.get
  rw [up]
  cases alarm : decide ((k.procSet p).state = .waiting) && (k.procSet p).alarmSet with
  | false => exact ⟨⟨settled, up⟩, holds⟩
  | true =>
    rw [Bool.and_eq_true, decide_eq_true_eq] at alarm
    cases due : decide ((k.procSet p).exptime ≤ now) with
    | true =>
      have ran := procWakeup_run alarm.1 (settled.priority p)
      have kept := (procWakeup_spec settled alarm.1).done ran
      apply Ensures.bind_returns ran
      refine ⟨⟨settle kept.1, up⟩, .inr ⟨p, ?_⟩⟩
      exact congrArg Process.state Kernel.put_self
    | false =>
      refine ⟨⟨settled, up⟩, holds.imp_left fun fits => ?_⟩
      have future : now < (k.procSet p).exptime := UInt64.not_le.mp (of_decide_eq_false due)
      by_cases sooner : (k.procSet p).exptime < next
      · rw [if_pos sooner]
        exact fits.earlier future sooner
      · rw [if_neg sooner]
        exact fits

theorem searchTimeouts_fits {now next : Time} (slots : List Slot) (settled : Settled k)
    (up : k.procShuttingDown = false)
    (holds : Fits now next ∨ ∃ q, (k.procSet q).state = .runnable) :
    Ensures never (searchTimeouts now slots next) k fun next after => Settled after ∧
        (Fits now next ∨ ∃ q, (after.procSet q).state = .runnable) := by
  induction slots generalizing k next with
  | nil => exact ⟨settled, holds⟩
  | cons p rest ih =>
    apply Ensures.bind (checkTimeoutNext_fits p settled up holds)
    rintro next between ⟨⟨kept, stays⟩, still⟩
    exact ih kept stays still

/-- While the system shuts down, nobody looks at the alarms. -/
theorem searchTimeouts_down {now next : Time} (slots : List Slot) (settled : Settled k)
    (down : k.procShuttingDown = true) :
    Ensures never (searchTimeouts now slots next) k fun last after => last = next ∧ Settled after := by
  induction slots generalizing k with
  | nil => exact ⟨rfl, settled⟩
  | cons p rest ih =>
    have checked : Ensures never (checkTimeoutNext now p next) k fun last after =>
        last = next ∧ Settled after ∧ after.procShuttingDown = true := by
      unfold checkTimeoutNext
      apply Ensures.get
      rw [down]
      by_cases free : (k.procSet p).state = .free
      · rw [free]
        exact ⟨rfl, settled, down⟩
      · rw [decide_eq_true free]
        apply Ensures.bind ((procZap_spec settled free).both ((procZap_keeps shutting_still none).ensures k))
        rintro _ after ⟨zapped, same⟩
        exact ⟨rfl, zapped.settled, same.trans down⟩
    apply Ensures.bind checked
    rintro _ between ⟨rfl, kept, stays⟩
    exact ih kept stays

/-- Nobody waits while a process can run. -/
theorem procYieldPick_waits (settled : Settled k) (later : Time) :
    Ensures (fun _ => True) (procYieldPick later) k fun turn _ =>
    turn = .yielding → ∀ q, (k.procSet q).state ≠ .runnable := by
  unfold procYieldPick
  apply Ensures.bind ((pick_spec (List.finRange MAX_PRIORITY) settled).stops_mono fun _ => False.elim)
  rintro next between ⟨searched, sweeps, found⟩
  apply Ensures.get
  cases next with
  | some next =>
    have picked : Picked next between := searched
    apply ensure_spec (decide_eq_true (ne_of_gt (picked.sound.queues.nprocs_pos picked.sound.alive)))
    by_cases named : (between.procSet next).pid = between.current.pid
    · exact Ensures.bind_halts (switchTo_stops picked named later) trivial
    apply Ensures.bind_returns (switchTo_run picked named later)
    apply Ensures.bind (resume_ready _)
    exact fun _ _ _ => nofun
  | none =>
    have kept : Settled between := searched
    apply ensure_spec (decide_eq_true (ne_of_gt (kept.queues.nprocs_pos kept.alive)))
    unfold noneFound
    apply Ensures.get
    cases runnable : decide (between.current.state = .runnable) with
    | true => exact Ensures.bind (resume_ready _) fun _ _ _ => nofun
    | false =>
      cases decide (between.procNprocs = 1) && between.procShuttingDown with
      | true => exact trivial
      | false =>
        intro _ q runs
        by_cases caller : q = k.procCurrent
        · rcases sweeps.slots q with same | ⟨zombie, _⟩
          · have current : between.current.state = .runnable := by
              unfold Kernel.current
              rw [sweeps.current, ← caller, same, runs]
            exact of_decide_eq_false runnable current
          · cases zombie.symm.trans runs
        · obtain ⟨best, none, _⟩ := found_best settled found caller runs
          cases none

theorem procYieldRoundNext_fits (settled : Settled k) (now later : Time) :
    Ensures (fun _ => True) (procYieldRoundNext now later) k fun result _ => result.1 = .yielding →
        Fits now result.2 := by
  unfold procYieldRoundNext
  apply Ensures.get
  apply ensure_spec (decide_eq_true (ne_of_gt (settled.queues.nprocs_pos settled.alive)))
  cases decide (k.procCurfew ≠ 0) && decide (k.procCurfew < now) with
  | true => exact trivial
  | false =>
    have searched : Ensures never (searchTimeouts now procSlots (now + 1000)) k fun next after =>
        Settled after ∧ (Fits now next ∨ ∃ q, (after.procSet q).state = .runnable) := by
      cases up : k.procShuttingDown with
      | false => exact searchTimeouts_fits procSlots settled up (.inl (fits_start now))
      | true =>
        apply (searchTimeouts_down procSlots settled up).weaken
        rintro _ after ⟨rfl, kept⟩
        exact ⟨kept, .inl (fits_start now)⟩
    apply Ensures.bind (searched.stops_mono fun _ => False.elim)
    rintro next between ⟨kept, holds⟩
    apply Ensures.bind (procYieldPick_waits kept later)
    rintro turn after waits yielding
    refine holds.resolve_right ?_
    rintro ⟨q, runs⟩
    exact waits yielding q runs

/-- In a round that ends without a process to run, the time to wait is between 1 and 1000
milliseconds, and `next` is later than `now` unless the clock is in its last second. -/
theorem suspends_briefly {before after : Machine} {now later : Time} (reachable : Reachable before)
    (step : Step before (.round now later) after)
    (waits : after.mode = .yielding) :
    ∃ next, procYieldRoundNext now later before.kernel = .done (.yielding, next) after.kernel ∧ Fits now next := by
  have settled := reachable_valid reachable
  cases step with
  | @round kernel =>
    have fits := procYieldRoundNext_fits settled now later
    have same := congrFun (procYieldRoundNext_erases now later) kernel
    cases ran : procYieldRound now later kernel with
    | halted reason last =>
      rw [ran] at waits
      cases waits
    | done turn last =>
      rw [ran] at waits same
      cases turn with
      | running => cases waits
      | yielding =>
        obtain ⟨⟨turn, next⟩, between, found, returned⟩ := Prog.bind_returns.mp same
        cases returned
        exact ⟨next, found, fits.done found rfl⟩

private def mainWaits : List Event := [.call (.recv .request 0 0 0)]

private def waitsAt (now : Time) (test : Time → Bool) (events : List Event) : Bool :=
  (booted.play events).any fun before =>
    match before.mode, (procYieldRoundNext now now before.kernel).value? with
    | .yielding, some (.yielding, next) => test next
    | _, _ => false

private theorem waitsAt_reachable {now : Time} {test : Time → Bool} {events : List Event}
    (waits : waitsAt now test events = true) :
    ∃ before, Reachable before ∧ before.mode = .yielding ∧
      ∃ next after, procYieldRoundNext now now before.kernel = .done (.yielding, next) after ∧ test next = true := by
  obtain ⟨before, played, holds⟩ := (Option.any_eq_true _ _).mp waits
  refine ⟨before, ⟨events, Machine.play_run played⟩, ?_⟩
  cases mode : before.mode with
  | running => rw [mode] at holds; cases holds
  | stopped reason => rw [mode] at holds; cases holds
  | yielding =>
    rw [mode] at holds
    cases value : (procYieldRoundNext now now before.kernel).value? with
    | none => rw [value] at holds; cases holds
    | some result =>
      obtain ⟨turn, next⟩ := result
      rw [value] at holds
      cases turn with
      | running => cases holds
      | yielding => exact ⟨rfl, next, _, Outcome.done_of_value value, holds⟩

/-- At time 5 the main process waits, 300 milliseconds at most since the start. -/
theorem suspends_briefly_main : ∃ before after, Reachable before ∧ Step before (.round 5 5) after ∧
    ∃ next, procYieldRoundNext 5 5 before.kernel = .done (.yielding, next) after.kernel ∧ next = 300 ∧ Fits 5 next := by
  have waits : waitsAt 5 (fun next => decide (next = 300)) [.call (.recv .request 300 0 0)] = true := by decide +kernel
  obtain ⟨⟨kernel, mode⟩, reachable, yielding, next, last, ran, alarm⟩ := waitsAt_reachable waits
  cases yielding
  have round : procYieldRound 5 5 kernel = .done .yielding last := by
    rw [← procYieldRoundNext_erases, Prog.bind_done ran]
    rfl
  have step : Step ⟨kernel, .yielding⟩ (.round 5 5) (.after (procYieldRound 5 5 kernel)) := .round
  have ended : (Machine.after (procYieldRound 5 5 kernel)).mode = .yielding := by
    rw [round]
    rfl
  obtain ⟨found, same, fits⟩ := suspends_briefly reachable step ended
  refine ⟨_, _, reachable, step, found, same, ?_, fits⟩
  rw [round] at same
  cases ran.symm.trans same
  exact of_decide_eq_true alarm

/-- In the last second of the clock the sum overflows, and the wait is a second all the same. -/
theorem clock_wraps : ∃ before, Reachable before ∧ before.mode = .yielding ∧ ∃ next after,
    procYieldRoundNext (2 ^ 64 - 1) (2 ^ 64 - 1) before.kernel = .done (.yielding, next) after ∧
      ¬ (2 ^ 64 - 1 : Time) < next ∧
      next - (2 ^ 64 - 1) = 1000 := by
  have waits : waitsAt (2 ^ 64 - 1) (fun next => decide (¬ (2 ^ 64 - 1 : Time) < next ∧
      next - (2 ^ 64 - 1) = 1000)) mainWaits = true := by
    decide +kernel
  obtain ⟨before, reachable, yielding, next, after, ran, holds⟩ := waitsAt_reachable waits
  exact ⟨before, reachable, yielding, next, after, ran, of_decide_eq_true holds⟩

end Egos.Grass
