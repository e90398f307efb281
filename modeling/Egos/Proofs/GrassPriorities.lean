import Egos.Proofs.GrassRuns

/-! Which process proc_yield lets run. The caller is on no run queue while the queues are
searched, so it may lose the CPU to a process on a worse level. -/

namespace Egos.Grass
open Library Library.Prog

variable {k after : Kernel}

/-- It waits for a message, and its time is up. -/
def Process.timedOut (p : Process) (now : Time) : Bool := p.state = .waiting && p.alarmSet && p.exptime ≤ now

def Kernel.ReadyAt (k : Kernel) (now : Time) (p : Slot) : Prop :=
  (k.procSet p).state = .runnable ∨ (k.procSet p).timedOut now = true

/-- A process that is woken improves, unless it is the caller of proc_yield. -/
def Kernel.levelAt (k : Kernel) (now : Time) (p : Slot) : Nat :=
  if (k.procSet p).timedOut now ∧ p ≠ k.procCurrent then improvedPriority (k.procSet p).priority
    else (k.procSet p).priority

/-- No process that could run is on a better level than the one that does. -/
def BestRuns (k : Kernel) : Prop := ∀ p, (k.procSet p).state = .runnable → k.current.priority ≤ (k.procSet p).priority

/-- If the caller of proc_yield could go on and others can run, the best of those is on a
level as good as the caller's. -/
def CallerMayWait (k : Kernel) (now : Time) : Prop :=
  k.ReadyAt now k.procCurrent → ∀ p, p ≠ k.procCurrent → k.ReadyAt now p →
    ∃ q, q ≠ k.procCurrent ∧ k.ReadyAt now q ∧ k.levelAt now q ≤ k.levelAt now k.procCurrent

/-! The search for time-outs while the system is up. -/

def Kernel.checked (k : Kernel) (now : Time) (p : Slot) : Process :=
  if (k.procSet p).timedOut now then (k.procSet p).wokenUp (p = k.procCurrent) else k.procSet p

theorem checked_runnable {now : Time} {p : Slot} : (k.checked now p).state = .runnable ↔ k.ReadyAt now p := by
  unfold Kernel.checked Kernel.ReadyAt
  cases timedOut : (k.procSet p).timedOut now with
  | true => simp [Process.wokenUp]
  | false => simp

theorem checked_priority {now : Time} {p : Slot} : (k.checked now p).priority = k.levelAt now p := by
  unfold Kernel.checked Kernel.levelAt
  cases timedOut : (k.procSet p).timedOut now with
  | false => simp
  | true =>
    by_cases self : p = k.procCurrent
    · simp [Process.wokenUp, self]
    · simp [Process.wokenUp, self]

private theorem checkTimeout_checked (settled : Settled k) (up : k.procShuttingDown = false) (now : Time) (p : Slot) :
    Ensures never (checkTimeout now p) k fun _ after => (Settled after ∧ after.procShuttingDown = false) ∧
      after.procCurrent = k.procCurrent ∧ after.procSet p = k.checked now p ∧ ∀ q, q ≠ p →
          after.procSet q = k.procSet q := by
  unfold checkTimeout Kernel.checked
  apply Ensures.get
  rw [up]
  change Ensures never (when ((k.procSet p).timedOut now) (procWakeup p)) k _
  cases timedOut : (k.procSet p).timedOut now with
  | false => exact ⟨⟨settled, up⟩, rfl, rfl, fun _ _ => rfl⟩
  | true =>
    have waiting : (k.procSet p).state = .waiting := by
      unfold Process.timedOut at timedOut
      simp only [Bool.and_eq_true, decide_eq_true_eq] at timedOut
      exact timedOut.1.1
    have ran := procWakeup_run waiting (settled.priority p)
    have kept := (procWakeup_spec settled waiting).done ran
    exact Ensures.returns ran ⟨⟨settle kept.1, up⟩, rfl, Kernel.put_self, fun q other => Kernel.put_of_ne other⟩

private theorem scan_checked (now : Time) (slots : List Slot) (nodup : slots.Nodup) (settled : Settled k)
    (up : k.procShuttingDown = false) :
    Ensures never (forSlots (checkTimeout now) slots) k fun _ after => Settled after ∧
      after.procCurrent = k.procCurrent ∧
      ∀ p, after.procSet p = if p ∈ slots then k.checked now p else k.procSet p := by
  induction slots generalizing k with
  | nil => exact ⟨settled, rfl, fun _ => rfl⟩
  | cons p rest ih =>
    obtain ⟨outside, rest_nodup⟩ := List.nodup_cons.mp nodup
    apply Ensures.bind (checkTimeout_checked settled up now p)
    rintro _ between ⟨⟨kept, stays⟩, current, here, others⟩
    apply (ih rest_nodup kept stays).weaken
    rintro _ last ⟨final, same, records⟩
    refine ⟨final, same.trans current, fun q => ?_⟩
    rw [records q]
    by_cases self : q = p
    · subst self
      rw [if_neg outside, if_pos List.mem_cons_self]
      exact here
    · have inside : q ∈ p :: rest ↔ q ∈ rest := List.mem_cons.trans (or_iff_right self)
      have checked : between.checked now q = k.checked now q := by
        unfold Kernel.checked
        rw [others q self, current]
      rw [checked, others q self]
      simp only [inside]

/-! While the system shuts down, the same search kills every process. -/

theorem shutting_still : Still Kernel.procShuttingDown :=
  { put := fun _ _ _ _ => rfl, queues := fun _ _ => rfl, nrunnable := fun _ _ => rfl, lives := fun _ _ => rfl,
    nprocs := fun _ _ => rfl,
    free := fun _ _ => rfl }

private theorem checkTimeout_down (now : Time) (p : Slot) (k : Kernel) (kept : Settled k ∧ k.procShuttingDown = true) :
    Ensures never (checkTimeout now p) k fun _ after => (Settled after ∧ after.procShuttingDown = true) ∧
      (after.procSet p).state.live = false ∧
      ∀ q, (k.procSet q).state.live = false → (after.procSet q).state.live = false := by
  obtain ⟨settled, down⟩ := kept
  unfold checkTimeout
  apply Ensures.get
  rw [down]
  by_cases free : (k.procSet p).state = .free
  · rw [free]
    refine ⟨⟨settled, down⟩, ?_, fun _ dead => dead⟩
    rw [free]
    rfl
  · rw [decide_eq_true free]
    apply ((procZap_spec settled free).both ((procZap_keeps shutting_still none).ensures k)).weaken
    rintro _ after ⟨zapped, same⟩
    refine ⟨⟨zapped.settled, same.trans down⟩, zapped.dead rfl, fun q gone => ?_⟩
    by_cases self : q = p
    · rw [self]
      exact zapped.dead rfl
    · rw [(zapped.others q self).live]
      exact gone

/-! The choice between the processes that can run. -/

structure SameReady (k after : Kernel) : Prop where
  runnable : ∀ p, (after.procSet p).state = .runnable ↔ (k.procSet p).state = .runnable
  priority : ∀ p, (k.procSet p).state = .runnable → (after.procSet p).priority = (k.procSet p).priority

namespace SameReady
variable {first middle last : Kernel}

theorem trans (left : SameReady first middle) (right : SameReady middle last) : SameReady first last :=
  ⟨fun p => (right.runnable p).trans (left.runnable p),
    fun p runnable => (right.priority p ((left.runnable p).mpr runnable)).trans (left.priority p runnable)⟩

theorem of_records (same : ∀ p, (last.procSet p).state = (first.procSet p).state ∧
    (last.procSet p).priority = (first.procSet p).priority) :
    SameReady first last :=
  ⟨fun p => by rw [(same p).1], fun p _ => (same p).2⟩

end SameReady

theorem Sweeps.sameReady (sweeps : Sweeps k after) : SameReady k after := by
  constructor
  · intro p
    rcases sweeps.slots p with same | ⟨zombie, free⟩
    · rw [same]
    · rw [zombie, free]
      exact ⟨nofun, nofun⟩
  · intro p runnable
    rcases sweeps.slots p with same | ⟨zombie, _⟩
    · rw [same]
    · cases zombie.symm.trans runnable

def Process.rank (p : Process) : ProcState × Nat := (p.state, p.priority)

theorem rank_blind : Blind Process.rank := ⟨fun _ _ _ => rfl, fun _ => rfl⟩

theorem resume_ready (k : Kernel) : Ensures (fun _ => True) resume k fun _ after =>
    after.procCurrent = k.procCurrent ∧ SameReady k after := by
  apply ((resume_outline rank_blind).ensures k).weaken
  intro _ after same
  obtain ⟨_, current, ranks⟩ := Prod.mk.inj same |>.imp_right Prod.mk.inj
  exact ⟨current, .of_records fun p => Prod.mk.inj (congrFun ranks p)⟩

private theorem freed_ready {p : Slot} (dead : (k.procSet p).state = .zombie) : SameReady k (freed k p) := by
  constructor
  · refine Kernel.put_cases (fun q entry => entry.state = .runnable ↔ (k.procSet q).state = .runnable) ?_
      fun _ _ => .rfl
    rw [dead]
    exact ⟨nofun, nofun⟩
  · refine fun q _ => Kernel.put_cases (fun q entry => entry.priority = (k.procSet q).priority) ?_ (fun _ _ => rfl) q
    rfl

private theorem scheduled_ready {next : Slot} {now : Time} : SameReady k (scheduled k next now) :=
  .of_records (Kernel.put_cases (fun p entry => entry.state = (k.procSet p).state ∧
    entry.priority = (k.procSet p).priority) ⟨rfl, rfl⟩
    fun _ _ => ⟨rfl, rfl⟩)

theorem switched_ready {next : Slot} (different : next ≠ k.procCurrent) (now : Time) :
    (switched k next now).procCurrent = next ∧ SameReady k (switched k next now) := by
  have ready := @scheduled_ready k next now
  unfold switched
  cases state : k.current.state with
  | runnable => exact ⟨rfl, ready.runnable, ready.priority⟩
  | waiting => exact ⟨rfl, ready.runnable, ready.priority⟩
  | free => exact ⟨rfl, ready.runnable, ready.priority⟩
  | zombie =>
    have dead : ((scheduled k next now).procSet k.procCurrent).state = .zombie :=
      (congrArg Process.state (scheduled_current different now)).trans state
    have both := ready.trans (freed_ready dead)
    exact ⟨rfl, both.runnable, both.priority⟩

/-- What proc_yield chooses between: all the processes that can run but the caller. -/
structure Chosen (before after : Kernel) : Prop where
  ready : SameReady before after
  choice : after.procCurrent = before.procCurrent ∧
    (∀ p, p ≠ before.procCurrent → (before.procSet p).state ≠ .runnable) ∨
    after.procCurrent ≠ before.procCurrent ∧ (before.procSet after.procCurrent).state = .runnable ∧
      ∀ p, p ≠ before.procCurrent → (before.procSet p).state = .runnable →
        (before.procSet after.procCurrent).priority ≤ (before.procSet p).priority

/-- On the queues before the first one with a runnable process there are only zombies. -/
theorem found_best {next : Option Slot} (settled : Settled k)
    (found : Found k (List.finRange MAX_PRIORITY) next) {p : Slot}
    (other : p ≠ k.procCurrent) (runnable : (k.procSet p).state = .runnable) :
    ∃ best, next = some best ∧ (k.procSet best).priority ≤ (k.procSet p).priority := by
  have queued : p ∈ k.mtlQueue ⟨(k.procSet p).priority, settled.priority p⟩ :=
    (settled.queues.mem _ p).mpr ⟨other, by rw [runnable]; rfl, rfl⟩
  cases next with
  | none => cases (found _ (List.mem_finRange _) p queued).symm.trans runnable
  | some best =>
    obtain ⟨front, level, back, levels, inside, zombies⟩ := found
    have place : level.val = (k.procSet best).priority := ((settled.queues.mem level best).mp inside).2.2
    have sorted : (front ++ level :: back).Pairwise (· < ·) := levels ▸ List.pairwise_lt_finRange MAX_PRIORITY
    refine ⟨best, rfl, ?_⟩
    have member : (⟨(k.procSet p).priority, settled.priority p⟩ : Level) ∈ front ++ level :: back :=
      levels ▸ List.mem_finRange _
    rcases List.mem_append.mp member with early | late
    · cases (zombies _ early p queued).symm.trans runnable
    · rw [← place]
      rcases List.mem_cons.mp late with here | behind
      · exact le_of_eq (congrArg Fin.val here).symm
      · exact le_of_lt ((List.pairwise_cons.mp (List.pairwise_append.mp sorted).2.1).1 _ behind)

private theorem noneFound_chosen (k : Kernel) : Ensures (fun _ => True) noneFound k fun turn after =>
    turn = .running → after.procCurrent = k.procCurrent ∧ SameReady k after ∧ k.current.state = .runnable := by
  unfold noneFound
  apply Ensures.get
  cases runnable : decide (k.current.state = .runnable) with
  | true =>
    apply Ensures.bind (resume_ready k)
    rintro _ after ⟨current, ready⟩ _
    exact ⟨current, ready, of_decide_eq_true runnable⟩
  | false =>
    cases decide (k.procNprocs = 1) && k.procShuttingDown with
    | true => exact trivial
    | false => exact nofun

private theorem search_chosen (settled : Settled k) (later : Time) : Ensures (fun _ => True) (do
    let next ← pick (List.finRange MAX_PRIORITY)
    let k ← .get
    ensure (k.procNprocs ≠ 0) "proc_yield" "proc_nprocs > 0"
    match next with
    | none => noneFound
    | some next =>
      switchTo next later
      resume
      pure .running) k fun turn after => turn = .running → Chosen k after ∧ ∃ p, (k.procSet p).state = .runnable := by
  apply Ensures.bind ((pick_spec (List.finRange MAX_PRIORITY) settled).stops_mono fun _ => False.elim)
  rintro next between ⟨searched, sweeps, found⟩
  have swept := sweeps.sameReady
  apply Ensures.get
  cases next with
  | none =>
    have kept : Settled between := searched
    apply ensure_spec (decide_eq_true (ne_of_gt (kept.queues.nprocs_pos kept.alive)))
    apply (noneFound_chosen between).weaken
    intro turn after chosen running
    obtain ⟨current, ready, runnable⟩ := chosen running
    refine ⟨⟨swept.trans ready, .inl ⟨current.trans sweeps.current, fun p other runs => ?_⟩⟩, between.procCurrent, ?_⟩
    · obtain ⟨_, none, _⟩ := found_best settled found other runs
      cases none
    · exact (swept.runnable _).mp runnable
  | some next =>
    have picked : Picked next between := searched
    have runnable : (k.procSet next).state = .runnable := (swept.runnable next).mp picked.runnable
    apply ensure_spec (decide_eq_true (ne_of_gt (picked.sound.queues.nprocs_pos picked.sound.alive)))
    by_cases named : (between.procSet next).pid = between.current.pid
    · exact Ensures.bind_halts (switchTo_stops picked named later) trivial
    apply Ensures.bind_returns (switchTo_run picked named later)
    obtain ⟨current, ready⟩ := switched_ready picked.different later
    apply Ensures.bind (resume_ready _)
    rintro _ after ⟨same, resumed⟩ _
    have now : after.procCurrent = next := same.trans current
    refine ⟨⟨(swept.trans ready).trans resumed, .inr ⟨?_, ?_, fun p other runs => ?_⟩⟩, next, runnable⟩
    · rw [now, ← sweeps.current]
      exact picked.different
    · rw [now]
      exact runnable
    · obtain ⟨best, here, least⟩ := found_best settled found other runs
      cases here
      rw [now]
      exact least

private theorem best_iff {now : Time} (chosen : Chosen k after) (records : ∀ p, k.procSet p = before.checked now p)
    (current : k.procCurrent = before.procCurrent) : BestRuns after ↔ CallerMayWait before now := by
  have ready : ∀ p, (k.procSet p).state = .runnable ↔ before.ReadyAt now p := fun p => by rw [records, checked_runnable]
  have level : ∀ p, (k.procSet p).priority = before.levelAt now p := fun p => by rw [records, checked_priority]
  unfold CallerMayWait
  rw [← current]
  simp only [← ready, ← level]
  unfold BestRuns Kernel.current
  rcases chosen.choice with ⟨same, alone⟩ | ⟨different, runs, least⟩
  · constructor
    · exact fun _ _ p other runnable => absurd runnable (alone p other)
    · intro _ p runnable
      have self : p = k.procCurrent := by
        by_contra other
        exact alone p other ((chosen.ready.runnable p).mp runnable)
      rw [same, self]
  · constructor
    · intro best caller _ _ _
      refine ⟨after.procCurrent, different, runs, ?_⟩
      have holds := best k.procCurrent ((chosen.ready.runnable _).mpr caller)
      rw [chosen.ready.priority _ runs, chosen.ready.priority _ caller] at holds
      exact holds
    · intro waits p runnable
      have before := (chosen.ready.runnable p).mp runnable
      rw [chosen.ready.priority _ runs, chosen.ready.priority _ before]
      by_cases caller : p = k.procCurrent
      · subst caller
        obtain ⟨q, other, ready, better⟩ := waits before _ different runs
        exact (least q other ready).trans better
      · exact least p caller before

/-- The caller of proc_yield may lose the CPU to a process on a worse level, and this is
the only way in which a better process is left waiting. -/
theorem procYieldRound_best (settled : Settled k) (now later : Time) :
    Ensures (fun _ => True) (procYieldRound now later) k fun turn after => turn = .running →
        (BestRuns after ↔ CallerMayWait k now) := by
  unfold procYieldRound
  apply Ensures.get
  apply ensure_spec (decide_eq_true (ne_of_gt (settled.queues.nprocs_pos settled.alive)))
  cases decide (k.procCurfew ≠ 0) && decide (k.procCurfew < now) with
  | true => exact trivial
  | false =>
    cases up : k.procShuttingDown with
    | false =>
      have scanned := scan_checked now procSlots (List.nodup_finRange _) settled up
      apply Ensures.bind (scanned.stops_mono fun _ => False.elim)
      rintro _ between ⟨kept, current, records⟩
      apply (search_chosen kept later).weaken
      intro turn after chosen running
      refine best_iff (chosen running).1 (fun p => ?_) current
      rw [records p, if_pos (mem_procSlots p)]
    | true =>
      have scanned := forSlots_each (checkTimeout_down now) procSlots ⟨settled, up⟩
      apply Ensures.bind (scanned.stops_mono fun _ => False.elim)
      rintro _ between ⟨⟨kept, _⟩, dead, _⟩
      apply (search_chosen kept later).weaken
      intro turn after chosen running
      obtain ⟨p, runnable⟩ := (chosen running).2
      have gone := dead p (mem_procSlots p)
      rw [runnable] at gone
      cases gone

/-- Whenever proc_yield returns, the process that runs is one of the best that can, if and
only if the caller had no reason to stay. -/
theorem best_runs_iff {before after : Machine} {now later : Time} (reachable : Reachable before)
    (step : Step before (.round now later) after) (returns : after.mode = .running) :
    BestRuns after.kernel ↔ CallerMayWait before.kernel now := by
  have settled := reachable_valid reachable
  cases step with
  | @round kernel =>
    have best := procYieldRound_best settled now later
    unfold Ensures at best
    cases ran : procYieldRound now later kernel with
    | done turn last =>
      rw [ran] at best returns
      cases turn with
      | running => exact best rfl
      | yielding => cases returns
    | halted reason last =>
      rw [ran] at returns
      cases returns

/-- The first process uses up its quantum; the second one does not, and loses the CPU to the
first at the next tick of the clock, with the main process waiting for requests. -/
private def ticking : List Event := [
  .call (.create 1 0 0), .call (.gotInterrupt .clock 150), .round 150 150,
  .call (.create 1 0 151), .call (.gotInterrupt .clock 160), .round 160 160,
  .call (.recv .request 0 0 160), .round 160 160, .call (.gotInterrupt .clock 170)]

private def returnsAt (now : Time) (test : Machine → Machine → Bool) (events : List Event) : Bool :=
  (booted.play events).any fun before => (before.take (.round now now)).any fun after =>
    match after.mode with
    | .running => test before after
    | _ => false

private theorem returnsAt_step {now : Time} {test : Machine → Machine → Bool} {events : List Event}
    (returns : returnsAt now test events = true) :
    ∃ before after, Reachable before ∧ Step before (.round now now) after ∧ after.mode = .running ∧
        test before after = true := by
  obtain ⟨before, played, rest⟩ := (Option.any_eq_true _ _).mp returns
  obtain ⟨after, taken, passes⟩ := (Option.any_eq_true _ _).mp rest
  refine ⟨before, after, ⟨events, Machine.play_run played⟩, Machine.take_step taken, ?_⟩
  cases mode : after.mode with
  | running => rw [mode] at passes; exact ⟨rfl, passes⟩
  | yielding => rw [mode] at passes; cases passes
  | stopped reason => rw [mode] at passes; cases passes

private instance (k : Kernel) : Decidable (BestRuns k) :=
  inferInstanceAs (Decidable (∀ p, (k.procSet p).state = .runnable → k.current.priority ≤ (k.procSet p).priority))

theorem better_waits : ¬ ∀ before after now later, Reachable before → Step before (.round now later) after →
    after.mode = .running →
    BestRuns after.kernel := by
  intro best
  have worse : returnsAt 170 (fun _ after => !decide (BestRuns after.kernel)) ticking = true := by decide +kernel
  obtain ⟨before, after, reachable, step, running, fails⟩ := returnsAt_step worse
  have runs := best before after 170 170 reachable step running
  rw [decide_eq_true runs] at fails
  cases fails

theorem best_runs_iff_ticks : ∃ before after, Reachable before ∧ Step before (.round 170 170) after ∧
    (BestRuns after.kernel ↔ CallerMayWait before.kernel 170) := by
  have returns : returnsAt 170 (fun _ _ => true) ticking = true := by decide +kernel
  obtain ⟨before, after, reachable, step, running, _⟩ := returnsAt_step returns
  exact ⟨before, after, reachable, step, best_runs_iff reachable step running⟩

end Egos.Grass
