import Egos.Proofs.GrassCalls
import Egos.Proofs.GrassLives

/-! One round of proc_yield: time-outs, the search for a runnable process, and the
switch. While it searches, the process it has taken off a queue is set aside too. -/

namespace Egos.Grass
open Library Library.Prog

variable {k : Kernel}

/-- The system may end, and two processes may have the same pid once the generator
of pids has gone around. Nothing else stops proc_yield. -/
def Expected (reason : Halt) : Prop :=
  reason = .exit ∨ reason = .assertion "proc_yield" "proc_next->pid != proc_current->pid"

theorem checkTimeout_spec (settled : Settled k) (now : Time) (p : Slot) :
    Ensures never (checkTimeout now p) k fun _ after => Settled after := by
  unfold checkTimeout
  apply Ensures.get
  cases down : k.procShuttingDown && decide ((k.procSet p).state ≠ .free) with
  | true =>
    simp only [Bool.and_eq_true, decide_eq_true_eq] at down
    exact (procZap_spec settled down.2).weaken fun _ _ kept => kept.settled
  | false =>
    cases timeout : decide ((k.procSet p).state = .waiting) && (k.procSet p).alarmSet && decide
      ((k.procSet p).exptime ≤ now) with
    | false => exact settled
    | true =>
      simp only [Bool.and_eq_true, decide_eq_true_eq] at timeout
      exact (procWakeup_spec settled timeout.1.1).weaken fun _ _ kept => settle kept.1

structure Picked (next : Slot) (k : Kernel) : Prop where
  sound : Sound (insert next {k.procCurrent}) none k
  runnable : (k.procSet next).state = .runnable
  different : next ≠ k.procCurrent

def Searched (next : Option Slot) (k : Kernel) : Prop :=
  match next with
  | none => Settled k
  | some next => Picked next k

structure Sweeps (k after : Kernel) : Prop where
  current : after.procCurrent = k.procCurrent
  slots : ∀ p, after.procSet p = k.procSet p ∨ (k.procSet p).state = .zombie ∧ (after.procSet p).state = .free
  observed : Observed k → Observed after

namespace Sweeps
variable {first middle last : Kernel}

theorem refl (k : Kernel) : Sweeps k k := ⟨rfl, fun _ => .inl rfl, id⟩

theorem trans (left : Sweeps first middle) (right : Sweeps middle last) : Sweeps first last := by
  refine ⟨right.current.trans left.current, fun p => ?_, right.observed ∘ left.observed⟩
  rcases left.slots p with same | ⟨zombie, free⟩
  · rw [← same]
    exact right.slots p
  · refine .inr ⟨zombie, ?_⟩
    rcases right.slots p with same | ⟨clash, _⟩
    · rw [same]
      exact free
    · cases free.symm.trans clash

theorem zombie (sweeps : Sweeps first last) {p : Slot} (dead : (last.procSet p).state = .zombie) :
    (first.procSet p).state = .zombie := by
  rcases sweeps.slots p with same | ⟨zombie, _⟩
  · rw [← same]
    exact dead
  · exact zombie

end Sweeps

/-- What the search of one queue finds: the first runnable process, after zombies. -/
structure Sweep (level : Level) (slots : List Slot) (k : Kernel) (next : Option Slot) (after : Kernel) : Prop where
  searched : Searched next after
  sweeps : Sweeps k after
  others : ∀ other, other ≠ level → after.mtlQueue other = k.mtlQueue other
  found : ∀ p, next = some p → p ∈ slots
  none : next = none → after.mtlQueue level = [] ∧ ∀ p ∈ slots, (k.procSet p).state = .zombie

private theorem pickFrom_spec (level : Level) (slots : List Slot) (settled : Settled k)
    (all : k.mtlQueue level = slots) :
    Ensures never (pickFrom level slots) k (Sweep level slots k) := by
  induction slots generalizing k with
  | nil => exact ⟨settled, .refl k, fun _ _ => rfl, nofun, fun _ => ⟨all, nofun⟩⟩
  | cons p rest ih =>
    obtain ⟨outside, ready, _⟩ := (settled.queues.mem level p).mp (by rw [all]; exact List.mem_cons_self)
    have different : p ≠ k.procCurrent := outside
    let popped : Kernel := { k with mtlQueue := Function.update k.mtlQueue level rest }
    have listed : Queues (insert p {k.procCurrent}) popped := settled.queues.pop all rfl rfl rfl rfl rfl
    have taken : Sound (insert p {k.procCurrent}) none popped := by
      refine ⟨listed, Set.mem_insert_of_mem p rfl, ?_, settled.consistent, settled.served, settled.alive⟩
      rintro q (rfl | inside) waiting
      · change (k.procSet q).state = .waiting at waiting
        rw [waiting] at ready
        cases ready
      · exact inside
    have apart : ∀ other, other ≠ level → popped.mtlQueue other = k.mtlQueue other := fun other away =>
      Function.update_of_ne away ..
    apply Ensures.modify
    apply Ensures.get
    cases runnable : decide ((k.procSet p).state = .runnable) with
    | true =>
      refine ⟨⟨taken, of_decide_eq_true runnable, different⟩, ⟨rfl, fun _ => .inl rfl, id⟩, apart, ?_, nofun⟩
      rintro _ ⟨⟩
      exact List.mem_cons_self
    | false =>
      have dead : (k.procSet p).state = .zombie := by
        cases state : (k.procSet p).state with
        | zombie => rfl
        | runnable => exact absurd state (of_decide_eq_false runnable)
        | waiting => rw [state] at ready; cases ready
        | free => rw [state] at ready; cases ready
      have aside : p ∈ insert p ({k.procCurrent} : Set Slot) := Set.mem_insert p _
      have away : some k.procCurrent ≠ some p := fun same => different (Option.some.inj same).symm
      apply ensure_spec (decide_eq_true dead)
      apply Ensures.bind ((procRelease_spec taken dead aside different).both
        (procRelease_watched taken dead aside away))
      rintro _ after ⟨⟨kept, evolves, queues, free, same⟩, seen⟩
      rw [Set.insert_sdiff_self_of_notMem outside] at kept
      have here : after.mtlQueue level = rest := by
        rw [queues]
        exact Function.update_self ..
      have sweeps : Sweeps k after := by
        refine ⟨evolves.current, fun q => ?_, fun observed => evolves.observed (seen (observed.same rfl fun _ => rfl))⟩
        by_cases self : q = p
        · subst self
          exact .inr ⟨dead, free⟩
        · exact .inl (same q self)
      apply (ih (settle kept) here).weaken
      intro next last swept
      refine ⟨swept.searched, sweeps.trans swept.sweeps,
        ?_, fun q found => List.mem_cons_of_mem p (swept.found q found), ?_⟩
      · intro other away
        rw [swept.others other away, queues]
        exact apart other away
      · intro absent
        obtain ⟨empty, zombies⟩ := swept.none absent
        refine ⟨empty, fun q member => ?_⟩
        rcases List.mem_cons.mp member with rfl | inside
        · exact dead
        · exact sweeps.zombie (zombies q inside)

def Found (k : Kernel) (levels : List Level) : Option Slot → Prop
  | none => ∀ level ∈ levels, ∀ p ∈ k.mtlQueue level, (k.procSet p).state = .zombie
  | some next => ∃ front level back, levels = front ++ level :: back ∧ next ∈ k.mtlQueue level ∧
      ∀ other ∈ front, ∀ p ∈ k.mtlQueue other, (k.procSet p).state = .zombie

theorem pick_spec (levels : List Level) (settled : Settled k) :
    Ensures never (pick levels) k fun next after => Searched next after ∧ Sweeps k after ∧ Found k levels next := by
  induction levels generalizing k with
  | nil => exact ⟨settled, .refl k, nofun⟩
  | cons level rest ih =>
    apply Ensures.get
    apply Ensures.bind (pickFrom_spec level _ settled rfl)
    intro next after swept
    cases next with
    | some next => exact ⟨swept.searched, swept.sweeps, [], level, rest, rfl, swept.found next rfl, nofun⟩
    | none =>
      obtain ⟨empty, zombies⟩ := swept.none rfl
      have queue : ∀ other, ∀ p ∈ k.mtlQueue other, (p ∈ after.mtlQueue other → (after.procSet p).state = .zombie) →
          (k.procSet p).state = .zombie := by
        intro other p member dead
        by_cases here : other = level
        · exact zombies p (here ▸ member)
        · rw [swept.others other here] at dead
          exact swept.sweeps.zombie (dead member)
      apply (ih swept.searched).weaken
      rintro found last ⟨searched, sweeps, place⟩
      refine ⟨searched, swept.sweeps.trans sweeps, ?_⟩
      cases found with
      | none =>
        intro other member p inside
        rcases List.mem_cons.mp member with rfl | member
        · exact zombies p inside
        · exact queue other p inside (place other member p)
      | some next =>
        obtain ⟨front, other, back, rfl, inside, before⟩ := place
        have away : other ≠ level := by
          rintro rfl
          rw [empty] at inside
          cases inside
        refine ⟨level :: front, other, back, rfl, swept.others other away ▸ inside, ?_⟩
        intro lower member p inside
        rcases List.mem_cons.mp member with rfl | member
        · exact zombies p inside
        · exact queue lower p inside (before lower member p)

private theorem alone_iff {q next current : Slot} (other : q ≠ current) :
    q ∈ ({next} : Set Slot) ↔ q ∈ (insert next {current} : Set Slot) :=
  ⟨fun here => .inl here, fun inside => inside.resolve_right other⟩

/-- What a switch needs of the kernel it ends in. -/
theorem settled_of (queues : Queues {k.procCurrent} k) (consistent : ∀ p, Consistent (k.procSet p))
    (served : ∀ p, (k.procSet p).state = .waiting → ((k.procSet p).mboxes .reply).waiting = true →
      ∃ s, (k.procSet s).state.live = true ∧ (k.procSet s).pid = (k.procSet p).server)
    (runnable : k.current.state = .runnable) : Settled k := by
  refine ⟨queues, rfl, fun _ inside _ => inside, consistent, fun p waiting waits => .inr (served p waiting waits), ?_⟩
  rw [runnable]
  exact nofun

/-- The process that runs next knows when it got the CPU, and it has the CPU. -/
def scheduled (k : Kernel) (next : Slot) (now : Time) : Kernel :=
  (k.put next { k.procSet next with lastRun := now }).record (.switched next)

theorem picked_scheduled {next : Slot} (picked : Picked next k) (now : Time) : Picked next (scheduled k next now) := by
  refine ⟨?_, (congrArg Process.state Kernel.put_self).trans picked.runnable, picked.different⟩
  apply Sound.record
  refine picked.sound.edit rfl (.inr rfl) (picked.sound.priority next) rfl ?_ fun _ => ⟨rfl, rfl⟩
  exact (picked.sound.consistent next).congr rfl rfl rfl rfl

private theorem served_picked {next : Slot} (picked : Picked next k) (p : Slot)
    (waiting : (k.procSet p).state = .waiting)
    (waits : ((k.procSet p).mboxes .reply).waiting = true) :
    ∃ s, (k.procSet s).state.live = true ∧ (k.procSet s).pid = (k.procSet p).server :=
  (picked.sound.served p waiting waits).resolve_left nofun

/-- The old process is still runnable and stands on its queue. -/
private theorem settled_requeued {next : Slot} (picked : Picked next k) (runnable : k.current.state = .runnable) :
    Settled { k with mtlQueue := pushed k.mtlQueue k.current.priority k.procCurrent, procCurrent := next } := by
  have ready : (k.procSet k.procCurrent).state.queued = true := by
    unfold Kernel.current at runnable
    rw [runnable]
    rfl
  have listed : Queues (insert next {k.procCurrent} \ {k.procCurrent})
      { k with mtlQueue := pushed k.mtlQueue k.current.priority k.procCurrent, procCurrent := next } :=
    picked.sound.queues.push picked.sound.aside ready rfl rfl rfl rfl rfl
  refine settled_of ?_ picked.sound.consistent (fun p => served_picked picked p) picked.runnable
  apply listed.reoff
  intro q _
  simp only [Set.mem_sdiff, Set.mem_insert_iff, Set.mem_singleton_iff]
  constructor
  · rintro rfl; exact ⟨.inl rfl, picked.different⟩
  · rintro ⟨here | other, out⟩
    · exact here
    · exact absurd other out

/-- The old process waits for a message. -/
private theorem settled_waits {next : Slot} (picked : Picked next k) (waiting : k.current.state = .waiting) :
    Settled { k with procCurrent := next } := by
  refine settled_of ?_ picked.sound.consistent (fun p => served_picked picked p) picked.runnable
  have listed : Queues (insert next {k.procCurrent}) { k with procCurrent := next } := { picked.sound.queues with }
  apply listed.reoff
  intro q ready
  have other : q ≠ k.procCurrent := by
    rintro rfl
    change (k.procSet k.procCurrent).state.queued = true at ready
    unfold Kernel.current at waiting
    rw [waiting] at ready
    cases ready
  exact alone_iff other

/-- The old process is dead and gives its slot back. -/
private theorem settled_released {next : Slot} (picked : Picked next k) (dead : k.current.state = .zombie) :
    Settled { freed k k.procCurrent with procCurrent := next } := by
  have here : ((freed k k.procCurrent).procSet k.procCurrent).state = .free := congrArg Process.state Kernel.put_self
  have others : ∀ q, q ≠ k.procCurrent →
    (freed k k.procCurrent).procSet q = k.procSet q := fun q other => Kernel.put_of_ne other
  have listed : Queues (insert next {k.procCurrent}) { freed k k.procCurrent with procCurrent := next } :=
    picked.sound.queues.release picked.sound.aside dead rfl rfl (picked.sound.priority _) rfl rfl rfl rfl
  refine settled_of ?_ ?_ ?_ ?_
  · apply listed.reoff
    intro q ready
    have other : q ≠ k.procCurrent := by
      rintro rfl
      change ((freed k k.procCurrent).procSet k.procCurrent).state.queued = true at ready
      rw [here] at ready
      cases ready
    exact alone_iff other
  · exact Kernel.put_cases (fun _ entry => Consistent entry) (.free rfl) fun q _ => picked.sound.consistent q
  · intro q waiting waits
    change ((freed k k.procCurrent).procSet q).state = .waiting at waiting
    change (((freed k k.procCurrent).procSet q).mboxes .reply).waiting = true at waits
    have other : q ≠ k.procCurrent := by
      rintro rfl
      rw [here] at waiting
      cases waiting
    rw [others q other] at waiting waits
    obtain ⟨s, live, named⟩ := served_picked picked q waiting waits
    have server : s ≠ k.procCurrent := by
      rintro rfl
      unfold Kernel.current at dead
      rw [dead] at live
      cases live
    refine ⟨s, ?_⟩
    change ((freed k k.procCurrent).procSet s).state.live = true ∧
      ((freed k k.procCurrent).procSet s).pid = ((freed k k.procCurrent).procSet q).server
    rw [others s server, others q other]
    exact ⟨live, named⟩
  · exact (congrArg Process.state (others next picked.different)).trans picked.runnable

private theorem procAfterSwitch_alive {next : Slot} (different : next ≠ k.procCurrent)
    (runnable : (k.procSet next).state = .runnable) (alive : k.current.state ≠ .zombie) :
    procAfterSwitch next k = .done () { k with procCurrent := next } := by
  unfold procAfterSwitch
  rw [Prog.bind_done (get_run k)]
  simp only [different, runnable, alive, ne_eq, not_false_eq_true, decide_true, decide_false, ensure, when]
  rfl

private theorem procAfterSwitch_zombie {next : Slot} (different : next ≠ k.procCurrent)
    (runnable : (k.procSet next).state = .runnable) (dead : k.current.state = .zombie) :
    procAfterSwitch next k = .done () { freed k k.procCurrent with procCurrent := next } := by
  unfold procAfterSwitch
  rw [Prog.bind_done (get_run k)]
  simp only [different, runnable, dead, ne_eq, not_false_eq_true, decide_true, ensure, when]
  rw [Prog.bind_done (pure_run () k), Prog.bind_done (pure_run () k), Prog.bind_done (procRelease_run dead)]
  rfl

/-- Once the CPU has been switched, a dead process gives its slot back. -/
def switched (k : Kernel) (next : Slot) (now : Time) : Kernel :=
  match k.current.state with
  | .runnable => { scheduled k next now with mtlQueue := pushed k.mtlQueue k.current.priority k.procCurrent, procCurrent := next }
  | .zombie => { freed (scheduled k next now) k.procCurrent with procCurrent := next }
  | .waiting | .free => { scheduled k next now with procCurrent := next }

theorem scheduled_current {next : Slot} (different : next ≠ k.procCurrent) (now : Time) :
    (scheduled k next now).current = k.current :=
  Kernel.put_of_ne (Ne.symm different)

theorem switchTo_run {next : Slot} (picked : Picked next k) (named : (k.procSet next).pid ≠ k.current.pid)
    (now : Time) :
    switchTo next now k = .done () (switched k next now) := by
  have ready := picked_scheduled picked now
  have current := scheduled_current picked.different now
  have goes : ∀ {condition : Bool} {function text : String} {rest : Unit → Kern Unit}, condition = true →
      (ensure condition function text >>= rest) k = rest () k := by
    rintro _ _ _ _ rfl
    rfl
  unfold switchTo switched
  rw [Prog.bind_done (get_run k), goes (decide_eq_true picked.different), goes (decide_eq_true named),
    goes (decide_eq_true picked.runnable)]
  cases state : k.current.state with
  | runnable =>
    let requeued : Kernel := { scheduled k next now with mtlQueue := pushed k.mtlQueue k.current.priority k.procCurrent }
    have alive : requeued.current.state ≠ .zombie := by
      change (scheduled k next now).current.state ≠ .zombie
      rw [current, state]
      exact nofun
    have queued := procToRunqueue_run state (picked.sound.priority k.procCurrent)
    refine (Prog.bind_done queued).trans ?_
    exact procAfterSwitch_alive (k := requeued) picked.different ready.runnable alive
  | waiting =>
    have alive : (scheduled k next now).current.state ≠ .zombie := by
      rw [current, state]
      exact nofun
    exact procAfterSwitch_alive picked.different ready.runnable alive
  | zombie =>
    exact procAfterSwitch_zombie picked.different ready.runnable ((congrArg Process.state current).trans state)
  | free => exact absurd state picked.sound.alive

/-- The search has found a process with the pid of the current one. -/
theorem switchTo_stops {next : Slot} (picked : Picked next k) (named : (k.procSet next).pid = k.current.pid)
    (now : Time) :
    switchTo next now k = .halted (.assertion "proc_yield" "proc_next->pid != proc_current->pid") k := by
  unfold switchTo
  rw [Prog.bind_done (get_run k), decide_eq_true picked.different, decide_eq_false (not_not_intro named)]
  rfl

theorem switched_settled {next : Slot} (picked : Picked next k) (now : Time) :
    Settled (switched k next now) ∧ (switched k next now).current.state = .runnable := by
  have ready := picked_scheduled picked now
  have current := scheduled_current picked.different now
  unfold switched
  cases state : k.current.state with
  | runnable =>
    have settled := settled_requeued ready ((congrArg Process.state current).trans state)
    rw [current] at settled
    exact ⟨settled, ready.runnable⟩
  | waiting => exact ⟨settled_waits ready ((congrArg Process.state current).trans state), ready.runnable⟩
  | zombie =>
    have same : (freed (scheduled k next now) k.procCurrent).procSet next = (scheduled k next now).procSet next :=
      Kernel.put_of_ne picked.different
    exact ⟨settled_released ready ((congrArg Process.state current).trans state),
      (congrArg Process.state same).trans ready.runnable⟩
  | free => exact absurd state picked.sound.alive

private theorem switchTo_spec {next : Slot} (picked : Picked next k) (now : Time) :
    Ensures Expected (switchTo next now) k fun _ after => Settled after ∧ after.current.state = .runnable := by
  by_cases named : (k.procSet next).pid = k.current.pid
  · unfold Ensures
    rw [switchTo_stops picked named]
    exact .inr rfl
  · exact Ensures.returns (switchTo_run picked named now) (switched_settled picked now)

private theorem noneFound_spec (settled : Settled k) : Ensures Expected noneFound k Left := by
  unfold noneFound
  apply Ensures.get
  cases runnable : decide (k.current.state = .runnable) with
  | true =>
    apply Ensures.bind ((resume_spec settled (of_decide_eq_true runnable)).stops_mono fun _ => False.elim)
    exact fun _ after runs => runs
  | false =>
    cases decide (k.procNprocs = 1) && k.procShuttingDown with
    | true => exact .inl rfl
    | false => exact settled

/-- A round of proc_yield ends in a running process, in another round, or with the system. -/
theorem procYieldRound_spec (settled : Settled k) (now later : Time) :
    Ensures Expected (procYieldRound now later) k Left := by
  have used : ∀ {k : Kernel}, Settled k → decide (k.procNprocs ≠ 0) = true := fun settled =>
    decide_eq_true (ne_of_gt (settled.queues.nprocs_pos settled.alive))
  unfold procYieldRound
  apply Ensures.get
  apply ensure_spec (used settled)
  cases decide (k.procCurfew ≠ 0) && decide (k.procCurfew < now) with
  | true => exact .inl rfl
  | false =>
    have scanned := forSlots_spec (fun p k (kept : Settled k) => checkTimeout_spec kept now p) procSlots settled
    apply Ensures.bind (scanned.stops_mono fun _ => False.elim)
    intro _ between kept
    apply Ensures.bind ((pick_spec (List.finRange MAX_PRIORITY) kept).stops_mono fun _ => False.elim)
    rintro next after ⟨searched, _⟩
    apply Ensures.get
    cases next with
    | none =>
      apply ensure_spec (used searched)
      exact noneFound_spec searched
    | some next =>
      apply ensure_spec (decide_eq_true (ne_of_gt (searched.sound.queues.nprocs_pos searched.sound.alive)))
      apply Ensures.bind (switchTo_spec searched later)
      rintro _ last ⟨final, runnable⟩
      apply Ensures.bind ((resume_spec final runnable).stops_mono fun _ => False.elim)
      exact fun _ after runs => runs

/-- Device handlers run while the current process is inside proc_yield. -/
theorem serve_spec (settled : Settled k) (interrupt : Interrupt) : Ensures never interrupt.serve k Left := by
  cases interrupt with
  | procSend srcPid dstPid mtype contents =>
    apply Ensures.bind (procSend_spec settled)
    rintro _ after ⟨kept, _⟩
    exact settle kept
  | killAll killer => exact Ensures.bind (procKill_interrupt settled killer STAT_INTR) fun _ after kept => kept
  | shutdown now =>
    exact ⟨{ settled.queues with }, settled.aside, settled.blocked, settled.consistent, settled.served, settled.alive⟩

end Egos.Grass
