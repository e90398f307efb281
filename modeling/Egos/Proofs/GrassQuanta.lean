import Egos.Proofs.GrassPriorities

/-! How a process is charged for its time. check_priority takes the time since the last switch
off the quantum at every interrupt, so time before an earlier interrupt is charged again. -/

namespace Egos.Grass
open Library Library.Prog

/-! What calls and rounds leave alone that neither charge nor switch. -/

section Calm
variable {τ : Type} {view : Kernel → τ}

structure Calm (view : Kernel → τ) : Prop extends Still view where
  badge : ∀ (k : Kernel) p record, record.quanta = (k.procSet p).quanta → view (k.put p record) = view k
  shutdown : ∀ (k : Kernel) down curfew, view { k with procShuttingDown := down, procCurfew := curfew } = view k

theorem setProc_calm (calm : Calm view) {p : Slot} {change : Process → Process}
    (same : ∀ record, (change record).quanta = record.quanta) :
    Keeps view (setProc p change) := .modify fun k => calm.badge k p _ (same _)

theorem procRecvGet_keeps (calm : Calm view) (mtype : MsgType) (size : Nat) : Keeps view (procRecvGet mtype size) := by
  refine .get fun k => .bind ensure_keeps fun _ => ?_
  cases (k.current.mboxes mtype).messages with
  | nil => exact .pure _
  | cons msg rest => exact .bind (setProc_calm calm fun _ => rfl) fun _ => .pure _

theorem procRecv_keeps (calm : Calm view) (await : Await) (maxTime : UInt32) (now : Time) :
    Keeps view (procRecv await maxTime now) := by
  refine .get fun k => .bind ensure_keeps fun _ => .bind ensure_keeps fun _ => ?_
  cases (k.current.mboxes await.mtype).messages.isEmpty with
  | true =>
    refine .bind (.get fun k => .bind (setProc_calm calm fun _ => rfl)
      fun _ => .bind (setProc_calm calm fun _ => rfl) fun _ => ?_) fun _ => .pure _
    exact .bind (.modify fun k => calm.nrunnable k _) fun _ => when_keeps (setProc_calm calm fun _ => rfl)
  | false => exact .bind ensure_keeps fun _ => .bind (procRecvGet_keeps calm _ _) fun _ => .pure _

theorem resume_keeps (calm : Calm view) : Keeps view resume := by
  refine .get fun k => ?_
  cases k.current.call with
  | none => exact .pure ()
  | some await =>
    refine .bind (setProc_calm calm fun _ => rfl) fun _ => .bind ensure_keeps
      fun _ => .bind (procRecvGet_keeps calm _ _) fun reply => ?_
    cases await.rpc with
    | none => exact .pure ()
    | some pid =>
      cases reply with
      | none => exact .pure ()
      | some receipt => exact ensure_keeps

theorem procKill_keeps (still : Still view) (killer pid : Pid) (status : UInt32) :
    Keeps view (procKill killer pid status) := by
  refine .get fun k => ?_
  cases k.procFind killer with
  | none => exact .pure _
  | some killer =>
    cases pid == 0 with
    | true =>
      refine .get fun k => .bind (forSlots_keeps (fun p => ?_) _) fun _ => .get fun _ => .pure _
      exact .get fun _ => when_keeps (procZap_keeps still _)
    | false =>
      cases k.procFind pid with
      | none => exact .pure _
      | some p => exact .bind (procZap_keeps still _) fun _ => .get fun _ => .pure _

def Call.Calm : Call → Prop
  | .create .. | .gotInterrupt .. => False
  | _ => True

theorem perform_keeps (calm : Calm view) {call : Call} (plain : call.Calm) : Keeps view call.perform := by
  cases call with
  | recv mtype maxTime size now =>
    cases mtype with
    | request => exact procRecv_keeps calm _ _ _
    | reply => exact .pure _
    | event => exact procRecv_keeps calm _ _ _
  | send pid mtype msg =>
    refine .get fun k => ?_
    cases mtype with
    | request => exact .pure _
    | reply => exact .bind (procSend_keeps calm.toStill _ _ _ _) fun _ => .pure _
    | event => exact .bind (procSend_keeps calm.toStill _ _ _ _) fun _ => .pure _
  | rpc pid request repsize now =>
    refine .get fun k => ?_
    cases decide (pid = k.current.pid) with
    | true => exact .pure _
    | false =>
      refine .bind (procSend_keeps calm.toStill _ _ _ _) fun sent => ?_
      cases sent with
      | false => exact .pure _
      | true => exact .bind (setProc_calm calm fun _ => rfl) fun _ => procRecv_keeps calm _ _ _
  | procSend srcPid dstPid mtype contents => exact .bind (procSend_keeps calm.toStill _ _ _ _) fun _ => .pure _
  | exit status => exact .get fun _ => .bind (procTerm_keeps calm.toStill) fun _ => .pure _
  | kill killer pid status => exact procKill_keeps calm.toStill _ _ _
  | create owner uid now => exact plain.elim
  | gotInterrupt intr now => exact plain.elim
  | setInterruptable value => exact .get fun _ => .bind (setProc_calm calm fun _ => rfl) fun _ => .pure _
  | shutdown now => exact .bind (.modify fun k => calm.shutdown k _ _) fun _ => .pure _

theorem serve_keeps (calm : Calm view) (interrupt : Interrupt) : Keeps view interrupt.serve := by
  cases interrupt with
  | procSend srcPid dstPid mtype contents => exact .bind (procSend_keeps calm.toStill _ _ _ _) fun _ => .pure _
  | killAll killer => exact .bind (procKill_keeps calm.toStill _ _ _) fun _ => .pure _
  | shutdown now => exact .bind (.modify fun k => calm.shutdown k _ _) fun _ => .pure _

theorem checkTimeout_keeps (still : Still view) (now : Time) (p : Slot) : Keeps view (checkTimeout now p) := by
  refine .get fun k => ?_
  cases k.procShuttingDown && (k.procSet p).state ≠ .free with
  | true => exact procZap_keeps still none
  | false => exact when_keeps (procWakeup_keeps still.toQuiet p)

theorem pickFrom_keeps (still : Still view) (level : Level) (slots : List Slot) :
    Keeps view (pickFrom level slots) := by
  induction slots with
  | nil => exact .pure _
  | cons p rest ih =>
    refine .bind (.modify fun k => still.queues k _) fun _ => .get fun k => ?_
    cases decide ((k.procSet p).state = .runnable) with
    | true => exact .pure _
    | false => exact .bind ensure_keeps fun _ => .bind (procRelease_keeps still) fun _ => ih

theorem pick_keeps (still : Still view) (levels : List Level) : Keeps view (pick levels) := by
  induction levels with
  | nil => exact .pure _
  | cons level rest ih =>
    refine .get fun k => .bind (pickFrom_keeps still _ _) fun next => ?_
    cases next with
    | some next => exact .pure _
    | none => exact ih

theorem noneFound_keeps (calm : Calm view) : Keeps view noneFound := by
  refine .get fun k => ?_
  cases decide (k.current.state = .runnable) with
  | true => exact .bind (resume_keeps calm) fun _ => .pure _
  | false =>
    cases decide (k.procNprocs = 1) && k.procShuttingDown with
    | true => exact .halt _
    | false => exact .pure _

end Calm

variable {k : Kernel}

def Kernel.cpu (k : Kernel) : Slot × (Nat × Time × Time) := (k.procCurrent, k.current.quanta)

def Kernel.remains (k : Kernel) (p : Slot) : Time := (k.procSet p).remainQuantum

private theorem cpu_put {p : Slot} {record : Process}
    (same : p = k.procCurrent → record.quanta = (k.procSet p).quanta) :
    (k.put p record).cpu = k.cpu := by
  have quanta : ((k.put p record).procSet k.procCurrent).quanta = k.current.quanta := by
    by_cases self : k.procCurrent = p
    · rw [self, Kernel.put_self, same self.symm, ← self]
      rfl
    · rw [Kernel.put_of_ne self]
      rfl
  exact Prod.ext rfl quanta

theorem cpu_calm : Calm Kernel.cpu where
  put _ _ _ alters := cpu_put alters.quanta
  queues _ _ := rfl
  nrunnable _ _ := rfl
  lives _ _ := rfl
  nprocs _ _ := rfl
  free _ _ := rfl
  badge _ _ _ same := cpu_put fun _ => same
  shutdown _ _ _ := rfl

private theorem remains_put {p : Slot} {record : Process} (same : record.remainQuantum = (k.procSet p).remainQuantum) :
    (k.put p record).remains = k.remains :=
  funext (Kernel.put_cases (fun q entry => entry.remainQuantum = (k.procSet q).remainQuantum) same fun _ _ => rfl)

theorem remains_calm : Calm Kernel.remains where
  put _ _ _ alters := remains_put alters.remain
  queues _ _ := rfl
  nrunnable _ _ := rfl
  lives _ _ := rfl
  nprocs _ _ := rfl
  free _ _ := rfl
  badge _ _ _ same := remains_put (congrArg (·.2.1) same)
  shutdown _ _ _ := rfl

theorem switchTo_remains (next : Slot) (now : Time) : Keeps Kernel.remains (switchTo next now) := by
  refine .get fun k => .bind ensure_keeps fun _ => .bind ensure_keeps fun _ => .bind ensure_keeps fun _ =>
    .bind (when_keeps (procToRunqueue_keeps remains_calm.toQuiet _))
        fun _ => .bind (.modify fun k => remains_put rfl) fun _ =>
      .bind (.modify fun _ => rfl) fun _ => ?_
  exact .get fun k => .bind ensure_keeps fun _ => .bind ensure_keeps fun _ =>
    .bind (when_keeps (procRelease_keeps remains_calm.toStill)) fun _ => .modify fun _ => rfl

theorem round_remains (now later : Time) : Keeps Kernel.remains (procYieldRound now later) := by
  refine .get fun k => .bind ensure_keeps fun _ => ?_
  cases k.procCurfew ≠ 0 && k.procCurfew < now with
  | true => exact .halt _
  | false =>
    refine .bind (forSlots_keeps (checkTimeout_keeps remains_calm.toStill now) _)
      fun _ => .bind (pick_keeps remains_calm.toStill _) fun next => ?_
    refine .get fun k => .bind ensure_keeps fun _ => ?_
    cases next with
    | none => exact noneFound_keeps remains_calm
    | some next => exact .bind (switchTo_remains next later) fun _ => .bind (resume_keeps remains_calm) fun _ => .pure _

/-- A round that does not switch leaves the quantum alone. -/
theorem round_cpu (settled : Settled k) (now later : Time) :
    Ensures (fun _ => True) (procYieldRound now later) k fun _ after =>
    after.procCurrent = k.procCurrent → after.cpu = k.cpu := by
  unfold procYieldRound
  apply Ensures.get
  apply ensure_spec (decide_eq_true (ne_of_gt (settled.queues.nprocs_pos settled.alive)))
  cases decide (k.procCurfew ≠ 0) && decide (k.procCurfew < now) with
  | true => exact trivial
  | false =>
    have searched := forSlots_spec (fun p k (kept : Settled k) => checkTimeout_spec kept now p) procSlots settled
    have kept := (forSlots_keeps (checkTimeout_keeps cpu_calm.toStill now) procSlots).ensures k
    apply Ensures.bind ((searched.both kept).stops_mono fun _ => False.elim)
    rintro _ between ⟨still, same⟩
    have picks := (pick_keeps cpu_calm.toStill (List.finRange MAX_PRIORITY)).ensures between
    apply Ensures.bind (((pick_spec (List.finRange MAX_PRIORITY) still).both picks).stops_mono fun _ => False.elim)
    rintro next last ⟨⟨found, sweeps, _⟩, again⟩
    apply Ensures.get
    cases next with
    | none =>
      have settled : Settled last := found
      apply ensure_spec (decide_eq_true (ne_of_gt (settled.queues.nprocs_pos settled.alive)))
      apply ((noneFound_keeps cpu_calm).ensures last).weaken
      exact fun _ after kept _ => kept.trans (again.trans same)
    | some next =>
      have picked : Picked next last := found
      apply ensure_spec (decide_eq_true (ne_of_gt (picked.sound.queues.nprocs_pos picked.sound.alive)))
      by_cases named : (last.procSet next).pid = last.current.pid
      · exact Ensures.bind_halts (switchTo_stops picked named later) trivial
      apply Ensures.bind_returns (switchTo_run picked named later)
      obtain ⟨current, _⟩ := switched_ready picked.different later
      apply Ensures.bind (resume_ready _)
      rintro _ after ⟨stays, _⟩ self
      have before : last.procCurrent = k.procCurrent := congrArg Prod.fst (again.trans same)
      exact absurd ((current.symm.trans stays.symm).trans (self.trans before.symm)) picked.different

/-! What an interrupt charges. -/

/-- The level, the quantum that remains and the time of the last switch after check_priority. -/
def charge (quanta : Nat × Time × Time) (now : Time) : Nat × Time × Time :=
  if now - quanta.2.2 > quanta.2.1 then (loweredPriority quanta.1, quantum (loweredPriority quanta.1), quanta.2.2)
  else (quanta.1, quanta.2.1 - (now - quanta.2.2), quanta.2.2)

theorem checkPriority_charges (inside : k.current.priority < MAX_PRIORITY) (now : Time) :
    Ensures never (checkPriority now) k fun _ after =>
      after.cpu = (k.procCurrent, charge k.current.quanta now) ∧ ∀ q, q ≠ k.procCurrent →
          after.procSet q = k.procSet q := by
  have edited : ∀ record : Process, record.quanta = charge k.current.quanta now →
      (k.put k.procCurrent record).cpu = (k.procCurrent, charge k.current.quanta now) ∧
        ∀ q, q ≠ k.procCurrent → (k.put k.procCurrent record).procSet q = k.procSet q := fun record charged =>
    ⟨Prod.ext rfl ((congrArg Process.quanta Kernel.put_self).trans charged), fun q other => Kernel.put_of_ne other⟩
  unfold checkPriority
  apply Ensures.get
  by_cases used : now - k.current.lastRun > k.current.remainQuantum
  · rw [decide_eq_true used]
    unfold lowerPriority
    apply Ensures.get
    have lowered : loweredPriority (k.procSet k.procCurrent).priority < MAX_PRIORITY := loweredPriority_lt inside
    rw [decide_eq_true lowered]
    exact edited _ (if_pos used).symm
  · rw [decide_eq_false used]
    exact edited _ (if_neg used).symm

def Event.interrupts : Event → List Time
  | .call (.gotInterrupt _ now) => [now]
  | _ => []

def interruptTimes (events : List Event) : List Time := events.flatMap Event.interrupts

/-- A step after which the process that had the CPU still has it. -/
structure Stays (before : Machine) (event : Event) (after : Machine) : Prop where
  step : Step before event after
  up : ∀ reason, after.mode ≠ .stopped reason
  same : after.kernel.procCurrent = before.kernel.procCurrent

private theorem after_up {program : Kern Turn} {holds : Kernel → Prop}
    (ensured : Ensures (fun _ => True) program k fun _ after => holds after)
    (up : ∀ reason, (Machine.after (program k)).mode ≠ .stopped reason) : holds (Machine.after (program k)).kernel := by
  cases ran : program k with
  | done turn after =>
    rw [ran] at up
    exact ensured.done ran
  | halted reason after =>
    rw [ran] at up
    exact absurd rfl (up reason)

/-- A new process is another one. -/
private theorem create_switches (running : Running k) (owner : Pid) (uid : Uid) (now : Time) :
    Ensures (fun _ => True) (procCreateUid owner uid now) k fun _ after => after = k ∨
      after.procCurrent ≠ k.procCurrent ∧ (after.procSet after.procCurrent).remainQuantum = quantum 0 ∧
        ∀ q, q ≠ after.procCurrent → after.procSet q = k.procSet q := by
  unfold procCreateUid
  apply Ensures.get
  cases k.procShuttingDown with
  | true => exact .inl rfl
  | false =>
    cases k.procFind owner with
    | none => exact .inl rfl
    | some parent =>
      dsimp only
      cases head : k.procFree with
      | nil =>
        have none : ∀ uid, procAlloc owner uid k = .done none k := fun uid => by
          unfold procAlloc
          rw [Prog.bind_done (get_run k), head]
          rfl
        exact Ensures.bind_returns (none _) (.inl rfl)
      | cons p rest =>
        have different : k.procCurrent ≠ p := by
          rintro rfl
          apply running.settled.alive
          exact (running.settled.queues.freeMem _).mp (by rw [head]; exact List.mem_cons_self)
        apply Ensures.returns (start_run running head different owner _ now)
        refine .inr ⟨different.symm, ?_, fun q other => Kernel.put_of_ne other⟩
        exact congrArg Process.remainQuantum Kernel.put_self

theorem Stays.charges {before after : Machine} {event : Event} (valid : before.Valid)
    (stays : Stays before event after) :
    after.kernel.current.quanta = event.interrupts.foldl charge before.kernel.current.quanta := by
  obtain ⟨step, up, same⟩ := stays
  cases step with
  | @call kernel call =>
    have running : Running kernel := valid
    by_cases plain : call.Calm
    · have kept := after_up ((perform_keeps cpu_calm plain).ensures kernel) up
      have none : (Event.call call).interrupts = [] := by
        cases call with
        | gotInterrupt intr now => exact plain.elim
        | _ => rfl
      rw [none]
      exact congrArg Prod.snd kept
    · cases call with
      | create owner uid now =>
        rcases after_up (create_switches running owner uid now) up with nothing | ⟨switched, _⟩
        · exact congrArg (fun k => k.current.quanta) nothing
        · exact absurd same switched
      | gotInterrupt intr now =>
        have charged : Ensures (fun _ => True) (procGotInterrupt intr now) kernel
            fun _ after => after.cpu = (kernel.procCurrent, charge kernel.current.quanta now) := by
          apply Ensures.bind ((checkPriority_charges (running.settled.priority _) now).stops_mono fun _ => False.elim)
          rintro _ between ⟨cpu, _⟩
          cases intr with
          | pageFault => exact cpu
          | syscall => exact cpu
          | clock => exact cpu
          | io => exact cpu
        exact congrArg Prod.snd (after_up charged up)
      | _ => exact absurd trivial plain
  | @interrupt kernel interrupt =>
    exact congrArg Prod.snd (after_up ((serve_keeps cpu_calm interrupt).ensures kernel) up)
  | @round kernel now later =>
    have settled : Settled kernel := valid
    exact congrArg Prod.snd (after_up (round_cpu settled now later) up same)

/-- What an interrupt leaves is the sum of all that the interrupts before have charged. -/
theorem run_charges {m after : Machine} {events : List Event} (valid : m.Valid) (run : Run Stays m events after) :
    after.Valid ∧ after.kernel.current.quanta = (interruptTimes events).foldl charge m.kernel.current.quanta := by
  induction run with
  | nil => exact ⟨valid, rfl⟩
  | @snoc events middle event after _ last ih =>
    refine ⟨last.step.valid ih.1, ?_⟩
    have times : interruptTimes (events ++ [event]) = interruptTimes events ++ event.interrupts := by
      unfold interruptTimes
      rw [List.flatMap_append, List.flatMap_singleton]
    rw [times, List.foldl_append, ← ih.2]
    exact last.charges ih.1

/-! No process has more left than the largest quantum. -/

def Rationed (m : Machine) : Prop :=
  (∀ reason, m.mode ≠ .stopped reason) → ∀ p, (m.kernel.procSet p).remainQuantum.toNat ≤ 300

theorem quantum_le {level : Nat} (inside : level < MAX_PRIORITY) : (quantum level).toNat ≤ 300 := by
  have levels : level = 0 ∨ level = 1 ∨ level = 2 := by
    unfold MAX_PRIORITY at inside
    omega
  rcases levels with rfl | rfl | rfl
  · decide
  · decide
  · decide

theorem charge_le {quanta : Nat × Time × Time} (inside : quanta.1 < MAX_PRIORITY)
    (small : quanta.2.1.toNat ≤ 300) (now : Time) :
    (charge quanta now).2.1.toNat ≤ 300 := by
  unfold charge
  by_cases used : now - quanta.2.2 > quanta.2.1
  · rw [if_pos used]
    exact quantum_le (loweredPriority_lt inside)
  · rw [if_neg used]
    rw [UInt64.toNat_sub_of_le _ _ (UInt64.not_lt.mp used)]
    exact (Nat.sub_le _ _).trans small

theorem Step.rationed {before after : Machine} {event : Event} (valid : before.Valid)
    (rationed : Rationed before) (step : Step before event after) :
    Rationed after := by
  have kept : ∀ {last : Kernel}, (∀ p, (before.kernel.procSet p).remainQuantum.toNat ≤ 300) →
    last.remains = before.kernel.remains →
      ∀ p, (last.procSet p).remainQuantum.toNat ≤ 300 := fun small same p => by
    have remain : (_ : Time) = _ := congrFun same p
    unfold Kernel.remains at remain
    rw [remain]
    exact small p
  intro up
  cases step with
  | @interrupt kernel interrupt =>
    exact kept (rationed nofun) (after_up ((serve_keeps remains_calm interrupt).ensures kernel) up)
  | @round kernel now later => exact kept (rationed nofun) (after_up ((round_remains now later).ensures kernel) up)
  | @call kernel call =>
    have running : Running kernel := valid
    have small : ∀ p, (kernel.procSet p).remainQuantum.toNat ≤ 300 := rationed nofun
    by_cases plain : call.Calm
    · exact kept small (after_up ((perform_keeps remains_calm plain).ensures kernel) up)
    · cases call with
      | create owner uid now =>
        rcases after_up (create_switches running owner uid now) up with nothing | ⟨_, new, others⟩
        · change ∀ p, ((Machine.after (procCreateUid owner uid now kernel)).kernel.procSet p).remainQuantum.toNat ≤ 300
          rw [nothing]
          exact small
        · intro p
          by_cases self : p = (Machine.after (procCreateUid owner uid now kernel)).kernel.procCurrent
          · rw [self]
            exact (congrArg UInt64.toNat new).trans_le (quantum_le (by decide))
          · exact (congrArg (fun record => record.remainQuantum.toNat) (others p self)).trans_le (small p)
      | gotInterrupt intr now =>
        have charged : Ensures (fun _ => True) (procGotInterrupt intr now) kernel fun _ after =>
            ∀ p, (after.procSet p).remainQuantum.toNat ≤ 300 := by
          apply Ensures.bind ((checkPriority_charges (running.settled.priority _) now).stops_mono fun _ => False.elim)
          rintro _ between ⟨cpu, others⟩
          have bounded : ∀ p, (between.procSet p).remainQuantum.toNat ≤ 300 := by
            intro p
            by_cases self : p = kernel.procCurrent
            · have current : between.procCurrent = kernel.procCurrent := congrArg Prod.fst cpu
              have quanta : (between.procSet between.procCurrent).quanta = charge kernel.current.quanta now :=
                congrArg Prod.snd cpu
              rw [self, ← current]
              have small : (charge kernel.current.quanta now).2.1.toNat ≤ 300 :=
                charge_le (running.settled.priority kernel.procCurrent) (small kernel.procCurrent) now
              rw [← quanta] at small
              exact small
            · rw [others p self]
              exact small p
          cases intr with
          | pageFault => exact bounded
          | syscall => exact bounded
          | clock => exact bounded
          | io => exact bounded
        exact after_up charged up
      | _ => exact absurd trivial plain

theorem reachable_rationed {m : Machine} (reachable : Reachable m) : m.Valid ∧ Rationed m := by
  obtain ⟨events, run⟩ := reachable
  have begins : Rationed booted := fun _ => by decide +kernel
  have kept : ∀ before event after, before.Valid ∧ Rationed before → Step before event after → after.Valid ∧
      Rationed after :=
    fun _ _ _ held step => ⟨step.valid held.1, step.rationed held.1 held.2⟩
  exact run.invariant kept ⟨booted_valid, begins⟩

/-! Right charges. -/

/-- The times until a process has used more than its quantum `r` since it was switched in at `l`: as
long as it has not, it stays on its level and has what is left; when it has for the first time, it
is one level down. -/
structure Accounted (l r : Time) (level : Nat) (times : List Time) (quanta : Nat × Time × Time) : Prop where
  within : (∀ t ∈ times, t - l ≤ r) → quanta.1 = level ∧ quanta.2.1 = r - (times.getLastD l - l)
  demoted : ∀ earlier t, times = earlier ++ [t] → (∀ s ∈ earlier, s - l ≤ r) → r < t - l → quanta.1 = level + 1

/-- Of the times within the quantum all but the last are the time of the switch itself. -/
def ChargedOnce (l r : Time) (times : List Time) : Prop := times.Pairwise fun s t => t - l ≤ r → s = l

theorem fold_last (quanta : Nat × Time × Time) (times : List Time) : (times.foldl charge quanta).2.2 = quanta.2.2 := by
  induction times generalizing quanta with
  | nil => rfl
  | cons t times ih =>
    rw [List.foldl_cons, ih]
    unfold charge
    split_ifs
    · rfl
    · rfl

theorem loweredPriority_eq {level : Nat} (inside : level < MAX_PRIORITY) :
    loweredPriority level = level + 1 ↔ level + 1 < MAX_PRIORITY := by
  unfold loweredPriority MAX_PRIORITY at *
  split_ifs
  · omega
  · omega

section Charged
variable {l r t : Time} {level : Nat} {times : List Time}

/-- The last of the times, or the time of the switch. -/
theorem last_bounds (sorted : (l :: times).Pairwise (· ≤ ·)) :
    l ≤ times.getLastD l ∧ (∀ s ∈ times, l ≤ s ∧ s ≤ times.getLastD l) ∧
    (times.getLastD l ≠ l → times.getLastD l ∈ times) := by
  induction times using List.reverseRecOn with
  | nil => exact ⟨UInt64.le_refl l, nofun, fun different => absurd rfl different⟩
  | append_singleton times t _ =>
    obtain ⟨first, rest⟩ := List.pairwise_cons.mp sorted
    have last : (times ++ [t]).getLastD l = t := by simp
    rw [last]
    have ends := (List.pairwise_append.mp rest).2.2
    refine ⟨first t (by simp), fun s member => ⟨first s member, ?_⟩, fun _ => by simp⟩
    rcases List.mem_append.mp member with earlier | here
    · exact ends s earlier t (List.mem_singleton_self t)
    · rw [List.mem_singleton.mp here]
      exact UInt64.le_refl t

theorem accounted_append {quanta : Nat × Time × Time} (within : ∀ s ∈ times, s - l ≤ r) :
    Accounted l r level (times ++ [t]) quanta ↔
    (t - l ≤ r → quanta.1 = level ∧ quanta.2.1 = r - (t - l)) ∧ (r < t - l → quanta.1 = level + 1) := by
  have last : (times ++ [t]).getLastD l = t := by simp
  constructor
  · intro accounted
    refine ⟨fun small => ?_, fun large => accounted.demoted times t rfl within large⟩
    have kept := accounted.within fun s member => by
      rcases List.mem_append.mp member with earlier | here
      · exact within s earlier
      · rw [List.mem_singleton.mp here]
        exact small
    rwa [last] at kept
  · rintro ⟨small, large⟩
    refine ⟨fun all => ?_, fun earlier s split _ exceeds => ?_⟩
    · rw [last]
      exact small (all t (by simp))
    · obtain ⟨_, same⟩ := List.append_inj' split rfl
      cases same
      exact large exceeds

/-- One more time after times within the quantum that have been charged right. -/
theorem charge_accounted (inside : level < MAX_PRIORITY) (ration : r.toNat ≤ 300)
    (sorted : (l :: (times ++ [t])).Pairwise (· ≤ ·))
    (within : ∀ s ∈ times, s - l ≤ r) :
    Accounted l r level (times ++ [t]) (charge (level, r - (times.getLastD l - l), l) t) ↔
      (∀ s ∈ times, t - l ≤ r → s = l) ∧ (t - l ≤ r ∨ level + 1 < MAX_PRIORITY) := by
  obtain ⟨first, rest⟩ := List.pairwise_cons.mp sorted
  have before : (l :: times).Pairwise (· ≤ ·) :=
    List.pairwise_cons.mpr ⟨fun s member => first s (List.mem_append_left _ member),
    (List.pairwise_append.mp rest).1⟩
  obtain ⟨least, bounds, member⟩ := last_bounds before
  generalize times.getLastD l = last at least bounds member
  have order : last ≤ t := by
    by_cases none : last = l
    · rw [none]
      exact first t (by simp)
    · exact (List.pairwise_append.mp rest).2.2 last (member none) t (List.mem_singleton_self t)
  have spent : last - l ≤ r := by
    by_cases none : last = l
    · rw [none, UInt64.sub_self]
      exact UInt64.zero_le
    · exact within last (member none)
  have all : (∀ s ∈ times, s = l) ↔ last = l := by
    constructor
    · intro every
      by_contra different
      exact different (every last (member different))
    · rintro rfl s inside
      exact UInt64.le_antisymm (bounds s inside).2 (bounds s inside).1
  have spentNat : (last - l).toNat = last.toNat - l.toNat := UInt64.toNat_sub_of_le _ _ least
  have elapsed : (t - l).toNat = t.toNat - l.toNat := UInt64.toNat_sub_of_le _ _ (UInt64.le_trans least order)
  have left : (r - (last - l)).toNat = r.toNat - (last - l).toNat := UInt64.toNat_sub_of_le _ _ spent
  rw [UInt64.le_iff_toNat_le] at least order spent
  rw [accounted_append within]
  unfold charge
  dsimp only
  by_cases small : t - l ≤ r
  · have fits : (t - l).toNat ≤ r.toNat := UInt64.le_iff_toNat_le.mp small
    have remains : (r - (t - l)).toNat = r.toNat - (t - l).toNat := UInt64.toNat_sub_of_le _ _ small
    simp only [small, true_implies, UInt64.not_lt.mpr small, false_implies, and_true, true_or]
    rw [all]
    constructor
    · rintro ⟨same, kept⟩
      by_contra different
      have positive : l.toNat < last.toNat :=
        lt_of_le_of_ne least fun equal => different (UInt64.toNat_inj.mp equal.symm)
      have value := congrArg UInt64.toNat kept
      by_cases used : t - l > r - (last - l)
      · -- only on the last level nothing is lowered, and there the quantum is full again
        rw [if_pos used] at same value
        have same : loweredPriority level = level := same
        have value : (quantum (loweredPriority level)).toNat = (r - (t - l)).toNat := value
        have bottom : level = 2 := by
          unfold loweredPriority MAX_PRIORITY at same
          split_ifs at same with bottom
          · exact bottom
          · omega
        have full : (quantum (loweredPriority level)).toNat = 300 := by rw [bottom]; rfl
        rw [full, remains] at value
        omega
      · rw [if_neg used] at value
        have value : (r - (last - l) - (t - l)).toNat = (r - (t - l)).toNat := value
        have room : (t - l).toNat ≤ (r - (last - l)).toNat := UInt64.le_iff_toNat_le.mp (UInt64.not_lt.mp used)
        rw [UInt64.toNat_sub_of_le _ _ (UInt64.not_lt.mp used), remains] at value
        omega
    · rintro rfl
      rw [UInt64.sub_self, UInt64.sub_zero, if_neg (UInt64.not_lt.mpr small)]
      exact ⟨rfl, rfl⟩
  · have large : r < t - l := UInt64.not_le.mp small
    have exceeds : r.toNat < (t - l).toNat := UInt64.lt_iff_toNat_lt.mp large
    have used : t - l > r - (last - l) := UInt64.lt_iff_toNat_lt.mpr (by omega)
    simp only [small, false_implies, true_and, large, true_implies, false_or, implies_true]
    rw [if_pos used]
    exact loweredPriority_eq inside

/-- Every time is charged right exactly if time is charged once, and the last level is not used up. -/
theorem charges_iff (inside : level < MAX_PRIORITY) (ration : r.toNat ≤ 300) (sorted : (l :: times).Pairwise (· ≤ ·)) :
    (∀ taken, taken <+: times → Accounted l r level taken (taken.foldl charge (level, r, l))) ↔
      ChargedOnce l r times ∧ ((∀ t ∈ times, t - l ≤ r) ∨ level + 1 < MAX_PRIORITY) := by
  induction times using List.reverseRecOn with
  | nil =>
    constructor
    · exact fun _ => ⟨List.Pairwise.nil, Or.inl nofun⟩
    · rintro - taken start
      rw [List.prefix_nil.mp start]
      exact ⟨fun _ => ⟨rfl, by simp⟩, fun earlier t split => absurd split (by simp)⟩
  | append_singleton times t ih =>
    obtain ⟨first, rest⟩ := List.pairwise_cons.mp sorted
    have before : (l :: times).Pairwise (· ≤ ·) :=
      List.pairwise_cons.mpr ⟨fun s member => first s (List.mem_append_left _ member),
      (List.pairwise_append.mp rest).1⟩
    have ends := fun s member => (List.pairwise_append.mp rest).2.2 s member t (List.mem_singleton_self t)
    have ih := ih before
    have split : (∀ taken, taken <+: times ++ [t] → Accounted l r level taken (taken.foldl charge (level, r, l))) ↔
        (∀ taken, taken <+: times → Accounted l r level taken (taken.foldl charge (level, r, l))) ∧
          Accounted l r level (times ++ [t]) ((times ++ [t]).foldl charge (level, r, l)) := by
      simp only [List.prefix_concat_iff]
      constructor
      · exact fun all => ⟨fun taken start => all taken (Or.inr start), all _ (Or.inl rfl)⟩
      · rintro ⟨earlier, whole⟩ taken (rfl | start)
        · exact whole
        · exact earlier taken start
    have once : ChargedOnce l r (times ++ [t]) ↔ ChargedOnce l r times ∧ ∀ s ∈ times, t - l ≤ r → s = l := by
      simp [ChargedOnce, List.pairwise_append]
    have all : (∀ s ∈ times ++ [t], s - l ≤ r) ↔ (∀ s ∈ times, s - l ≤ r) ∧ t - l ≤ r := by
      simp [or_imp, forall_and]
    rw [split, once, all]
    by_cases within : ∀ s ∈ times, s - l ≤ r
    · have charged (before : ChargedOnce l r times) :
        Accounted l r level (times ++ [t]) ((times ++ [t]).foldl charge (level, r, l)) ↔
          (∀ s ∈ times, t - l ≤ r → s = l) ∧ (t - l ≤ r ∨ level + 1 < MAX_PRIORITY) := by
        obtain ⟨same, remains⟩ := (ih.mpr ⟨before, Or.inl within⟩ times (List.prefix_refl times)).within within
        have folded : times.foldl charge (level, r, l) = (level, r - (times.getLastD l - l), l) :=
          Prod.ext same (Prod.ext remains (fold_last _ times))
        rw [List.foldl_append, List.foldl_cons, List.foldl_nil, folded]
        exact charge_accounted inside ration sorted within
      constructor
      · rintro ⟨earlier, whole⟩
        obtain ⟨before, -⟩ := ih.mp earlier
        obtain ⟨last, level⟩ := (charged before).mp whole
        exact ⟨⟨before, last⟩, level.imp_left fun small => ⟨within, small⟩⟩
      · rintro ⟨⟨before, last⟩, level⟩
        exact ⟨ih.mpr ⟨before, Or.inl within⟩, (charged before).mpr ⟨last, level.imp_left And.right⟩⟩
    · -- the quantum has been exceeded before, so nothing is asked of this time
      have exceeded : ¬ t - l ≤ r := by
        push Not at within
        obtain ⟨s, member, large⟩ := within
        have past : t - l ≥ s - l := by
          have least := first s (List.mem_append_left _ member)
          have order := ends s member
          rw [ge_iff_le, UInt64.le_iff_toNat_le, UInt64.toNat_sub_of_le _ _ least,
            UInt64.toNat_sub_of_le _ _ (UInt64.le_trans least order)]
          have order := UInt64.le_iff_toNat_le.mp order
          omega
        exact fun small => large (UInt64.le_trans past small)
      have vacuous (quanta : Nat × Time × Time) : Accounted l r level (times ++ [t]) quanta := by
        refine ⟨fun every => absurd (fun s member => every s (List.mem_append_left _ member)) within,
          fun earlier s split small => ?_⟩
        obtain ⟨rfl, _⟩ := List.append_inj' split rfl
        exact absurd small within
      simp only [ih, vacuous, within, exceeded, false_and, false_or, false_implies, implies_true, and_true]

end Charged

theorem interruptTimes_append (first rest : List Event) :
    interruptTimes (first ++ rest) = interruptTimes first ++ interruptTimes rest :=
  List.flatMap_append

/-- The first of the times are the times of the first of the events. -/
theorem interruptTimes_initial {events : List Event} {taken : List Time} (start : taken <+: interruptTimes events) :
    ∃ first, first <+: events ∧ interruptTimes first = taken := by
  induction events using List.reverseRecOn with
  | nil => exact ⟨[], List.prefix_refl [], (List.prefix_nil.mp start).symm⟩
  | append_singleton events event ih =>
    have earlier (start : taken <+: interruptTimes events) : ∃ first, first <+: events ++ [event] ∧
        interruptTimes first = taken := by
      obtain ⟨first, here, times⟩ := ih start
      exact ⟨first, here.trans (List.prefix_append events [event]), times⟩
    have last : interruptTimes [event] = event.interrupts := List.flatMap_singleton _ _
    rw [interruptTimes_append, last] at start
    have single : event.interrupts = [] ∨ ∃ t, event.interrupts = [t] := by
      unfold Event.interrupts
      split
      · exact Or.inr ⟨_, rfl⟩
      · exact Or.inl rfl
    rcases single with none | ⟨t, one⟩
    · rw [none, List.append_nil] at start
      exact earlier start
    · rw [one] at start
      rcases List.prefix_concat_iff.mp start with whole | start
      · exact ⟨_, List.prefix_refl _, by rw [interruptTimes_append, last, one, whole]⟩
      · exact earlier start

structure SwitchedIn (before : Machine) (event : Event) (after : Machine) : Prop where
  step : Step before event after
  up : ∀ reason, after.mode ≠ .stopped reason
  other : after.kernel.procCurrent ≠ before.kernel.procCurrent

theorem charged_right_iff {before m after : Machine} {event : Event} {events : List Event}
    (reachable : Reachable before)
    (switched : SwitchedIn before event m) (run : Run Stays m events after)
    (sorted : (m.kernel.current.lastRun :: interruptTimes events).Pairwise (· ≤ ·)) :
    (∀ first middle, first <+: events → Run Stays m first middle →
      Accounted m.kernel.current.lastRun m.kernel.current.remainQuantum
        m.kernel.current.priority (interruptTimes first) middle.kernel.current.quanta) ↔
      ChargedOnce m.kernel.current.lastRun m.kernel.current.remainQuantum (interruptTimes events) ∧
        ((∀ t ∈ interruptTimes events, t - m.kernel.current.lastRun ≤ m.kernel.current.remainQuantum) ∨
          m.kernel.current.priority + 1 < MAX_PRIORITY) := by
  obtain ⟨beforeValid, beforeRationed⟩ := reachable_rationed reachable
  have valid := switched.step.valid beforeValid
  have rationed := switched.step.rationed beforeValid beforeRationed switched.up
  have inside : m.kernel.current.priority < MAX_PRIORITY := by
    obtain ⟨kernel, mode⟩ := m
    cases mode with
    | running =>
      have running : Running kernel := valid
      exact running.settled.priority kernel.procCurrent
    | yielding =>
      have settled : Settled kernel := valid
      exact settled.priority kernel.procCurrent
    | stopped reason => exact absurd rfl (switched.up reason)
  have ration : m.kernel.current.remainQuantum.toNat ≤ 300 := rationed m.kernel.procCurrent
  rw [← charges_iff inside ration sorted]
  constructor
  · intro right taken start
    obtain ⟨first, here, times⟩ := interruptTimes_initial start
    obtain ⟨middle, ran⟩ := run.initial here
    have accounted := right first middle here ran
    rwa [(run_charges valid ran).2, times] at accounted
  · rintro right first middle ⟨rest, split⟩ ran
    rw [(run_charges valid ran).2]
    exact right (interruptTimes first) ⟨interruptTimes rest, by rw [← interruptTimes_append, split]⟩

private def interruptedAt (first second : Time) (test : Machine → Machine → Machine → Bool) : Bool :=
  (booted.take (.call (.create 1 0 0))).any fun m => (m.take (.call (.gotInterrupt .syscall first))).any fun middle =>
    (middle.take (.call (.gotInterrupt .syscall second))).any fun after => test m middle after

private def Machine.runs (m : Machine) : Bool :=
  match m.mode with
  | .running => true
  | _ => false

private theorem Machine.runs_up {m : Machine} (runs : m.runs = true) (reason : Halt) : m.mode ≠ .stopped reason := by
  intro stopped
  unfold Machine.runs at runs
  rw [stopped] at runs
  cases runs

private def staying (m middle after : Machine) : Bool :=
  m.runs && middle.runs && after.runs && m.kernel.procCurrent != booted.kernel.procCurrent &&
    middle.kernel.procCurrent == m.kernel.procCurrent && after.kernel.procCurrent == m.kernel.procCurrent

private theorem interruptedAt_run {first second : Time} {test : Machine → Machine → Machine → Bool}
    (ran : interruptedAt first second (fun m middle after => staying m middle after && test m middle after) = true) :
    ∃ m middle after, SwitchedIn booted (.call (.create 1 0 0)) m ∧
      Run Stays m [.call (.gotInterrupt .syscall first), .call (.gotInterrupt .syscall second)] after ∧
          test m middle after = true := by
  obtain ⟨m, created, ran⟩ := (Option.any_eq_true _ _).mp ran
  obtain ⟨middle, one, ran⟩ := (Option.any_eq_true _ _).mp ran
  obtain ⟨after, two, ran⟩ := (Option.any_eq_true _ _).mp ran
  simp only [staying, Bool.and_eq_true, bne_iff_ne, beq_iff_eq] at ran
  obtain ⟨⟨⟨⟨⟨⟨up, upMiddle⟩, upAfter⟩, other⟩, same⟩, sameAfter⟩, passes⟩ := ran
  refine ⟨m, middle, after, ⟨Machine.take_step created, Machine.runs_up up, other⟩, ?_, passes⟩
  exact .cons ⟨Machine.take_step one, Machine.runs_up upMiddle, same⟩
    (.snoc .nil ⟨Machine.take_step two, Machine.runs_up upAfter, sameAfter.trans same.symm⟩)

/-- The first 30 are charged twice. -/
theorem charged_twice : ¬ ∀ before m after event events, Reachable before → SwitchedIn before event m →
    Run Stays m events after →
    (m.kernel.current.lastRun :: interruptTimes events).Pairwise (· ≤ ·) →
    Accounted m.kernel.current.lastRun m.kernel.current.remainQuantum m.kernel.current.priority (interruptTimes events)
      after.kernel.current.quanta := by
  intro right
  have twice : interruptedAt 30 60 (fun m middle after => staying m middle after &&
    decide (m.kernel.current.quanta = (0, 100, 0) ∧ after.kernel.current.quanta = (0, 10, 0))) =
      true := by decide +kernel
  obtain ⟨m, _, after, switched, run, charged⟩ := interruptedAt_run twice
  obtain ⟨start, spent⟩ := of_decide_eq_true charged
  have last : m.kernel.current.lastRun = 0 := congrArg (fun quanta => quanta.2.2) start
  have remains : m.kernel.current.remainQuantum = 100 := congrArg (fun quanta => quanta.2.1) start
  have accounted := right booted m after _ _ ⟨[], .nil⟩ switched run (by rw [last]; decide +kernel)
  rw [last, remains, spent] at accounted
  have within : ∀ t ∈ ([30, 60] : List Time), t - 0 ≤ 100 :=
    List.forall_mem_cons.mpr ⟨by decide, List.forall_mem_singleton.mpr (by decide)⟩
  have left := (accounted.within within).2
  exact absurd left (by decide +kernel)

theorem charged_right_iff_twice : ∃ m after : Machine, SwitchedIn booted (.call (.create 1 0 0)) m ∧
    ((∀ first middle, first <+: [.call (.gotInterrupt .syscall 0), .call (.gotInterrupt .syscall 60)] →
      Run Stays m first middle →
        Accounted m.kernel.current.lastRun m.kernel.current.remainQuantum m.kernel.current.priority
          (interruptTimes first)
          middle.kernel.current.quanta) ↔
      ChargedOnce m.kernel.current.lastRun m.kernel.current.remainQuantum [0, 60] ∧
        ((∀ t ∈ [0, 60], t - m.kernel.current.lastRun ≤ m.kernel.current.remainQuantum) ∨
          m.kernel.current.priority + 1 < MAX_PRIORITY)) ∧
    after.kernel.current.quanta = (0, 40, 0) := by
  have once : interruptedAt 0 60 (fun m middle after => staying m middle after &&
    decide (m.kernel.current.lastRun = 0 ∧ after.kernel.current.quanta = (0, 40, 0))) = true := by decide +kernel
  obtain ⟨m, _, after, switched, run, charged⟩ := interruptedAt_run once
  obtain ⟨last, spent⟩ := of_decide_eq_true charged
  exact ⟨m, after, switched, charged_right_iff ⟨[], .nil⟩ switched run (by rw [last]; decide +kernel), spent⟩

end Egos.Grass
