import Egos.Library.Leaves
import Egos.Proofs.GrassDeath

/-! The lives of processes. An observer of the record knows the phase of every slot and
who has the CPU; after a death it waits for the notice to the owner, if that is alive,
and for the end of proc_term. -/

namespace Egos.Grass
open Library Library.Prog

inductive Phase where
  | free
  | live
  | zombie
  deriving DecidableEq

def ProcState.phase : ProcState → Phase
  | .free => .free
  | .runnable | .waiting => .live
  | .zombie => .zombie

structure Watch where
  phase : Slot → Phase
  cpu : Option Slot
  expected : List Life

namespace Watch

def start : Watch := { phase := fun _ => .free, cpu := none, expected := [] }

def enter (w : Watch) (p : Slot) (phase : Phase) : Watch := { w with phase := Function.update w.phase p phase }

end Watch

/-- What follows a death: one event for an owner that is alive, and nothing else. -/
def obsequies (p : Slot) (pid : Pid) (status : UInt32) : Option Slot → List Life
  | none => [.buried p]
  | some owner => [.put owner .event { src := pid, contents := msgEvent pid status }, .buried p]

def Watch.see (w : Watch) (life : Life) : Option Watch :=
  match w.expected, life with
  | next :: rest, life => if life = next then some { w with expected := rest } else none
  | [], .created p => if w.phase p = .free then some (w.enter p .live) else none
  | [], .switched p => some { w with cpu := some p }
  | [], .died p pid status owner =>
    if w.phase p = .live then some { w.enter p .zombie with expected := obsequies p pid status owner } else none
  | [], .put .. => some w
  | [], .buried _ => none
  | [], .released p queued =>
    if w.phase p = .zombie ∧ queued = false ∧ w.cpu ≠ some p then some (w.enter p .free) else none

def Kernel.watch (k : Kernel) (cpu : Option Slot) : Watch :=
  { phase := fun p => (k.procSet p).state.phase, cpu, expected := [] }

/-- The record so far is allowed and leads to the kernel's state. -/
def Watched (cpu : Option Slot) (k : Kernel) : Prop := k.lives.foldlM Watch.see .start = some (k.watch cpu)

variable {k after : Kernel} {cpu other : Option Slot} {p : Slot}

theorem Watched.extend {new : List Life} (watched : Watched cpu k) (lives : after.lives = k.lives ++ new)
    (seen : new.foldlM Watch.see (k.watch cpu) = some (after.watch other)) : Watched other after := by
  unfold Watched at watched ⊢
  rw [lives, List.foldlM_append, watched]
  exact seen

/-- Nothing has happened that matters to the observer. -/
theorem Watched.same (watched : Watched cpu k) (lives : after.lives = k.lives)
    (phases : ∀ p, (after.procSet p).state.phase = (k.procSet p).state.phase) : Watched cpu after := by
  refine watched.extend (lives.trans (List.append_nil _).symm) (congrArg some ?_)
  unfold Kernel.watch
  rw [funext phases]

theorem Wakes.phase {before after : ProcState} (wakes : Wakes before after) : after.phase = before.phase := by
  rcases wakes with rfl | ⟨rfl, rfl⟩
  · rfl
  · rfl

theorem Watched.wakes (watched : Watched cpu k) (lives : after.lives = k.lives) (evolves : Evolves Wakes k after) :
    Watched cpu after :=
  watched.same lives fun p => (evolves.state p).phase

theorem Watched.put {dst : Slot} {mtype : MsgType} {msg : Message} (watched : Watched cpu k)
    (lives : after.lives = k.lives ++ [.put dst mtype msg]) (evolves : Evolves Wakes k after) : Watched cpu after := by
  refine watched.extend lives (congrArg some ?_)
  unfold Kernel.watch
  rw [funext fun p => (evolves.state p).phase]

theorem Watched.switched (watched : Watched cpu k) (lives : after.lives = k.lives ++ [.switched p])
    (phases : ∀ p, (after.procSet p).state.phase = (k.procSet p).state.phase) : Watched (some p) after := by
  refine watched.extend lives (congrArg some ?_)
  unfold Kernel.watch
  rw [funext phases]

/-- One slot enters another phase. -/
theorem watch_enter {phase : Phase} (here : (after.procSet p).state.phase = phase)
    (others : ∀ q, q ≠ p → (after.procSet q).state.phase = (k.procSet q).state.phase) :
    (k.watch cpu).enter p phase = after.watch cpu := by
  have phases : Function.update (fun q => (k.procSet q).state.phase) p phase = fun q =>
      (after.procSet q).state.phase := by
    funext q
    by_cases same : q = p
    · subst same
      rw [Function.update_self, here]
    · rw [Function.update_of_ne same, others q same]
  unfold Watch.enter Kernel.watch
  dsimp only
  rw [phases]

theorem see_expected (new : List Life) (w : Watch) :
    new.foldlM Watch.see { w with expected := new } = some { w with expected := [] } := by
  induction new with
  | nil => rfl
  | cons life rest ih =>
    have first : Watch.see { w with expected := life :: rest } life = some { w with expected := rest } := if_pos rfl
    rw [List.foldlM_cons, first]
    exact ih

theorem Watched.died {pid : Pid} {status : UInt32} {owner : Option Slot} (watched : Watched cpu k)
    (live : (k.procSet p).state.phase = .live)
    (lives : after.lives = k.lives ++ .died p pid status owner :: obsequies p pid status owner)
    (dead : (after.procSet p).state = .zombie)
    (others : ∀ q, q ≠ p → (after.procSet q).state.phase = (k.procSet q).state.phase) :
    Watched cpu after := by
  refine watched.extend lives ?_
  have first : (k.watch cpu).see (.died p pid status owner) =
      some { (k.watch cpu).enter p .zombie with expected := obsequies p pid status owner } := if_pos live
  rw [List.foldlM_cons, first]
  refine (see_expected _ _).trans (congrArg some ?_)
  exact watch_enter (congrArg ProcState.phase dead) others

theorem Watched.released (watched : Watched cpu k) (dead : (k.procSet p).state = .zombie) (apart : cpu ≠ some p)
    (lives : after.lives = k.lives ++ [.released p false]) (free : (after.procSet p).state = .free)
    (others : ∀ q, q ≠ p → (after.procSet q).state.phase = (k.procSet q).state.phase) : Watched cpu after := by
  refine watched.extend lives ?_
  have first : (k.watch cpu).see (.released p false) = some ((k.watch cpu).enter p .free) :=
    if_pos ⟨congrArg ProcState.phase dead, rfl, apart⟩
  rw [List.foldlM_cons, first]
  exact congrArg some (watch_enter (congrArg ProcState.phase free) others)

section Keeping
variable {τ : Type} {view : Kernel → τ}

theorem ensure_keeps {condition : Bool} {function text : String} : Keeps view (ensure condition function text) := by
  cases condition with
  | true => exact .pure ()
  | false => exact .halt _

theorem when_keeps {condition : Bool} {program : Kern Unit} (keeps : Keeps view program) :
    Keeps view (when condition program) := by
  cases condition with
  | true => exact keeps
  | false => exact .pure ()

theorem forSlots_keeps {body : Slot → Kern Unit} (keeps : ∀ p, Keeps view (body p)) (slots : List Slot) :
    Keeps view (forSlots body slots) := by
  induction slots with
  | nil => exact .pure ()
  | cons p rest ih => exact .bind (keeps p) fun _ => ih

end Keeping

/-! What wake-ups leave alone, such as the record, and what deaths leave alone too. -/

section Quiet
variable {τ : Type} {view : Kernel → τ}

def Process.badge (p : Process) : Bool × Uid := (p.interruptable, p.uid)

def Process.quanta (p : Process) : Nat × Time × Time := (p.priority, p.remainQuantum, p.lastRun)

structure Alters (k : Kernel) (p : Slot) (record : Process) : Prop where
  badge : record.badge = (k.procSet p).badge
  remain : record.remainQuantum = (k.procSet p).remainQuantum
  quanta : p = k.procCurrent → record.quanta = (k.procSet p).quanta

structure Quiet (view : Kernel → τ) : Prop where
  put : ∀ k p record, Alters k p record → view (k.put p record) = view k
  queues : ∀ (k : Kernel) queues, view { k with mtlQueue := queues } = view k
  nrunnable : ∀ (k : Kernel) count, view { k with procNrunnable := count } = view k

theorem lives_quiet : Quiet Kernel.lives := ⟨fun _ _ _ _ => rfl, fun _ _ => rfl, fun _ _ => rfl⟩

theorem setProc_keeps (quiet : Quiet view) {p : Slot} {change : Process → Process}
    (same : ∀ record, (change record).badge = record.badge ∧ (change record).quanta = record.quanta) :
    Keeps view (setProc p change) :=
  .modify fun k => quiet.put k p _ ⟨(same _).1, congrArg (·.2.1) (same _).2, fun _ => (same _).2⟩

theorem makeRunnable_keeps (quiet : Quiet view) (p : Slot) : Keeps view (makeRunnable p) :=
  .bind (setProc_keeps quiet fun _ => ⟨rfl, rfl⟩) fun _ => .bind (.modify fun k => quiet.nrunnable k _)
    fun _ => setProc_keeps quiet fun _ => ⟨rfl, rfl⟩

theorem queueAdd_keeps (quiet : Quiet view) (p : Slot) : Keeps view (queueAdd p) := by
  intro k
  by_cases inside : (k.procSet p).priority < MAX_PRIORITY
  · rw [queueAdd_run inside]
    exact quiet.queues k _
  · have stuck : queueAdd p k = .halted (.outOfBounds "mtlQueue->q") k := dif_neg inside
    rw [stuck]

theorem procToRunqueue_keeps (quiet : Quiet view) (p : Slot) : Keeps view (procToRunqueue p) :=
  .get fun _ => .bind ensure_keeps fun _ => queueAdd_keeps quiet p

theorem wakeReceiver_keeps (quiet : Quiet view) (dst : Slot) (mtype : MsgType) : Keeps view (wakeReceiver dst mtype) :=
  .get fun _ => .bind ensure_keeps fun _ => .bind (makeRunnable_keeps quiet dst) fun _ =>
    .bind (when_keeps (procToRunqueue_keeps quiet dst)) fun _ => setProc_keeps quiet fun _ => ⟨rfl, rfl⟩

/-- Only a process that does not have the CPU changes its level. -/
theorem requeue_kept (quiet : Quiet view) {k : Kernel} {p : Slot} (other : p ≠ k.procCurrent) :
    Leaves (requeue p) k (fun _ after => view after = view k) fun _ after => view after = view k := by
  have moved : view (k.setProc p fun p => { p with priority := improvedPriority p.priority }) = view k :=
    quiet.put k p _ ⟨rfl, rfl, fun self => absurd self other⟩
  apply Leaves.modify
  rw [← moved]
  exact procToRunqueue_keeps quiet p _

theorem procWakeup_keeps (quiet : Quiet view) (p : Slot) : Keeps view (procWakeup p) := by
  intro k
  have begins : Keeps view (ensure ((k.procSet p).state = .waiting) "proc_wakeup" "p->state == PROC_WAITING") :=
    ensure_keeps
  have ends : Keeps view (setProc p fun p =>
      { p with mboxes := fun mtype => { p.mboxes mtype with waiting := false } }) :=
    setProc_keeps quiet fun _ => ⟨rfl, rfl⟩
  by_cases self : p = k.procCurrent
  · have stays : Keeps view (when (p ≠ k.procCurrent) (requeue p)) := by
      rw [decide_eq_false (not_not.mpr self)]
      exact .pure ()
    exact (Keeps.bind begins fun _ => .bind (makeRunnable_keeps quiet p) fun _ => .bind stays fun _ => ends) k
  · change Leaves (do
      ensure ((k.procSet p).state = .waiting) "proc_wakeup" "p->state == PROC_WAITING"
      makeRunnable p
      when (p ≠ k.procCurrent) (requeue p)
      setProc p fun p => { p with mboxes := fun mtype => { p.mboxes mtype with waiting := false } }) k
      (fun _ after => view after = view k) fun _ after => view after = view k
    rw [decide_eq_true self]
    cases decide ((k.procSet p).state = .waiting) with
    | false => exact rfl
    | true =>
      have ready := (makeRunnable_keeps quiet p) k
      rw [makeRunnable_run] at ready
      refine Leaves.bind_returns (pure_run () k) (Leaves.bind_returns makeRunnable_run ?_)
      rw [← ready]
      exact Leaves.bind (requeue_kept quiet self) (fun _ between same => same ▸ ends between) fun _ _ same => same

theorem failRpc_keeps (quiet : Quiet view) (pid : Pid) (p : Slot) : Keeps view (failRpc pid p) :=
  .get fun _ => when_keeps (procWakeup_keeps quiet p)

structure Still (view : Kernel → τ) : Prop extends Quiet view where
  lives : ∀ (k : Kernel) lives, view { k with lives := lives } = view k
  nprocs : ∀ (k : Kernel) count, view { k with procNprocs := count } = view k
  free : ∀ (k : Kernel) slots, view { k with procFree := slots } = view k

variable {p : Slot} {status : UInt32}

theorem procSend_keeps (still : Still view) (srcPid dstPid : Pid) (mtype : MsgType) (contents : List UInt8) :
    Keeps view (procSend srcPid dstPid mtype contents) := by
  refine .get fun k => ?_
  cases k.procFind dstPid with
  | none => exact .pure _
  | some dst =>
    refine .get fun k => ?_
    cases decide ((k.procSet dst).state = .zombie) || (mtype = .reply && notWaitingForReply (k.procSet dst) srcPid) with
    | true => exact .pure _
    | false =>
      refine .bind (setProc_keeps still.toQuiet fun _ => ⟨rfl, rfl⟩)
        fun _ => .bind (.modify fun k => still.lives k _) fun _ => ?_
      exact .bind (when_keeps (wakeReceiver_keeps still.toQuiet dst mtype)) fun _ => .pure _

theorem procTerm_keeps (still : Still view) : Keeps view (procTerm p status) := by
  refine .get fun _ => .bind ensure_keeps fun _ => .bind (when_keeps (.modify fun k => still.nrunnable k _))
    fun _ => when_keeps ?_
  refine .bind (setProc_keeps still.toQuiet fun _ => ⟨rfl, rfl⟩)
    fun _ => .bind (.modify fun k => still.lives k _) fun _ => .bind ?_ fun _ => ?_
  · refine .get fun k => ?_
    cases k.procFind (k.procSet p).owner with
    | none => exact .pure _
    | some owner => exact .bind (procSend_keeps still _ _ _ _) fun _ => .pure _
  · exact .get fun _ => .bind (forSlots_keeps (failRpc_keeps still.toQuiet _) procSlots) fun _ => .modify
      fun k => still.lives k _

theorem procRelease_keeps (still : Still view) : Keeps view (procRelease p) :=
  .get fun _ => .bind ensure_keeps fun _ => .bind (setProc_keeps still.toQuiet fun _ => ⟨rfl, rfl⟩) fun _ =>
    .bind (.modify fun k => still.nprocs k _) fun _ => .bind (setProc_keeps still.toQuiet fun _ => ⟨rfl, rfl⟩) fun _ =>
      .bind (.modify fun k => still.lives k _) fun _ => .modify fun k => still.free k _

theorem procZap_keeps (still : Still view) (killer : Option Slot) : Keeps view (procZap killer p status) := by
  refine .get fun k => when_keeps (.bind ensure_keeps fun _ => ?_)
  cases (k.procSet p).state with
  | runnable => exact procTerm_keeps still
  | waiting => exact .bind (procTerm_keeps still) fun _ => when_keeps (procRelease_keeps still)
  | zombie => exact .pure _
  | free => exact .halt _

end Quiet

/-! Messages and deaths. -/

theorem sendTo_lives (k : Kernel) (srcPid : Pid) (dst : Slot) (mtype : MsgType) (contents : List UInt8) :
    Ensures (fun _ => True) (sendTo srcPid dst mtype contents) k fun _ after => after.lives = k.lives ++
      if decide ((k.procSet dst).state = .zombie) ||
        (mtype = .reply && notWaitingForReply (k.procSet dst) srcPid) then []
      else [.put dst mtype { src := srcPid, contents }] := by
  unfold sendTo
  apply Ensures.get
  cases decide ((k.procSet dst).state = .zombie) || (mtype = .reply && notWaitingForReply (k.procSet dst) srcPid) with
  | true => exact (List.append_nil _).symm
  | false =>
    apply Ensures.modify
    apply Ensures.modify
    apply Ensures.bind ((when_keeps (wakeReceiver_keeps lives_quiet dst mtype)).ensures _)
    exact fun _ after same => same

theorem procSend_lives (k : Kernel) (srcPid dstPid : Pid) (mtype : MsgType) (contents : List UInt8) :
    Ensures (fun _ => True) (procSend srcPid dstPid mtype contents) k fun _ after =>
      after.lives = k.lives ∨ ∃ dst msg, after.lives = k.lives ++ [.put dst mtype msg] := by
  unfold procSend
  apply Ensures.get
  cases k.procFind dstPid with
  | none => exact .inl rfl
  | some dst =>
    apply (sendTo_lives k srcPid dst mtype contents).weaken
    intro _ after lives
    split at lives
    · exact .inl (lives.trans (List.append_nil _))
    · exact .inr ⟨dst, _, lives⟩

theorem Watched.sent {mtype : MsgType} (watched : Watched cpu k) (evolves : Evolves Wakes k after)
    (lives : after.lives = k.lives ∨ ∃ dst msg, after.lives = k.lives ++ [.put dst mtype msg]) : Watched cpu after := by
  rcases lives with same | ⟨dst, msg, lives⟩
  · exact watched.wakes same evolves
  · exact watched.put lives evolves

/-- An owner that is alive gets one event. -/
theorem notifyOwner_lives (k : Kernel) (p : Slot) (status : UInt32) :
    Ensures (fun _ => True) (notifyOwner p status) k fun _ after =>
      after.lives ++ [.buried p] = k.lives ++ obsequies p (k.procSet p).pid status (k.liveOwner p) := by
  unfold notifyOwner Kernel.liveOwner
  apply Ensures.get
  cases found : k.procFind (k.procSet p).owner with
  | none => exact rfl
  | some owner =>
    obtain ⟨used, named⟩ := Kernel.procFind_some found
    have again : k.procFind (k.procSet owner).pid = some owner := by rw [named, found]
    have sent := sendTo_lives k (k.procSet p).pid owner .event (msgEvent (k.procSet p).pid status)
    have same : procSend (k.procSet p).pid (k.procSet owner).pid .event (msgEvent (k.procSet p).pid status) k =
        sendTo (k.procSet p).pid owner .event (msgEvent (k.procSet p).pid status) k := by
      unfold procSend
      rw [Prog.bind_done (get_run k), again]
    have told : Ensures (fun _ => True) (procSend (k.procSet p).pid (k.procSet owner).pid .event
      (msgEvent (k.procSet p).pid status)) k
        fun _ after => after.lives ++ [.buried p] = k.lives ++ obsequies p (k.procSet p).pid status
          ((some owner).filter fun owner => (k.procSet owner).state = .runnable || (k.procSet owner).state =
              .waiting) := by
      unfold Ensures
      rw [same]
      apply sent.weaken
      intro _ after lives
      rw [lives]
      cases state : (k.procSet owner).state with
      | free => exact absurd state used
      | zombie => simp [Option.filter, state, obsequies]
      | runnable => simp [Option.filter, state, obsequies]
      | waiting => simp [Option.filter, state, obsequies]
    exact Ensures.bind told fun _ after lives => lives

theorem procTerm_lives (live : (k.procSet p).state.live = true) (used : k.procNprocs ≠ 0) (status : UInt32) :
    Ensures (fun _ => True) (procTerm p status) k fun _ after => ∃ owner,
      after.lives = k.lives ++ .died p (k.procSet p).pid status owner :: obsequies p
          (k.procSet p).pid status owner := by
  have pid : ((dying k p status).procSet p).pid = (k.procSet p).pid := by
    have here : (dying k p status).procSet p = { k.procSet p with state := .zombie } := Kernel.put_self
    rw [here]
  unfold Ensures
  rw [procTerm_run live used]
  apply Ensures.bind (notifyOwner_lives (dying k p status) p status)
  intro _ told lives
  apply Ensures.get
  apply Ensures.bind ((forSlots_keeps (failRpc_keeps lives_quiet _) procSlots).ensures told)
  intro _ after same
  refine ⟨(killed k p).liveOwner p, ?_⟩
  change after.lives ++ [.buried p] = _
  rw [same, lives, pid]
  exact List.append_assoc ..

variable {off left : Set Slot}

theorem procTerm_watched (sound : Sound off none k) (departs : Departs k p off left) (watched : Watched cpu k)
    (status : UInt32) :
    Ensures never (procTerm p status) k fun _ after => (Sound left none after ∧ Evolves Fates k after ∧
      (after.procSet p).state = .zombie ∧ ∀ q, q ≠ p → Wakes (k.procSet q).state (after.procSet q).state) ∧
          Watched cpu after := by
  have live : (k.procSet p).state.live = true ∧ (k.procSet p).state.phase = .live := by
    rcases departs with ⟨state, _⟩ | ⟨state, _⟩
    · rw [state]; exact ⟨rfl, rfl⟩
    · rw [state]; exact ⟨rfl, rfl⟩
  have used := ne_of_gt (sound.queues.nprocs_pos sound.alive)
  apply ((procTerm_spec sound departs status).both (procTerm_lives live.1 used status)).weaken
  rintro _ after ⟨⟨kept, evolves, dead, others⟩, owner, lives⟩
  exact ⟨⟨kept, evolves, dead, others⟩, watched.died live.2 lives dead fun q other => (others q other).phase⟩

theorem Queues.onQueue (queues : Queues off k) (aside : p ∈ off) : k.onQueue p = false := by
  unfold Kernel.onQueue
  refine List.any_eq_false.mpr fun level _ inside => ?_
  exact ((queues.mem level p).mp (of_decide_eq_true inside)).1 aside

theorem procRelease_watched (sound : Sound off none k) (dead : (k.procSet p).state = .zombie) (aside : p ∈ off)
    (apart : cpu ≠ some p) :
    Ensures (fun _ => True) (procRelease p) k fun _ after => Watched cpu k → Watched cpu after := by
  apply Ensures.returns (procRelease_run dead)
  have here : ((freed k p).procSet p).state = .free := congrArg Process.state Kernel.put_self
  refine fun watched => watched.released dead apart ?_ here fun q other => ?_
  · rw [← sound.queues.onQueue aside]
    rfl
  · exact congrArg (ProcState.phase ∘ Process.state) (Kernel.put_of_ne other)

/-- Between two switches the current process has the CPU. -/
abbrev Observed (k : Kernel) : Prop := Watched (some k.procCurrent) k

theorem Evolves.observed {allowed : ProcState → ProcState → Prop} (evolves : Evolves allowed k after)
    (watched : Watched (some k.procCurrent) after) : Observed after := by
  unfold Observed
  rw [evolves.current]
  exact watched

theorem procZap_observed (settled : Settled k) (observed : Observed k) {killer : Option Slot} {status : UInt32}
    (used : (k.procSet p).state ≠ .free) : Ensures never (procZap killer p status) k fun _ after => Observed after := by
  unfold procZap
  apply Ensures.get
  cases mayZap k killer p with
  | false => exact observed
  | true =>
    apply ensure_spec (decide_eq_true (ne_of_gt (settled.queues.nprocs_pos settled.alive)))
    cases state : (k.procSet p).state with
    | runnable =>
      apply (procTerm_watched settled (.inl ⟨state, rfl⟩) observed status).weaken
      rintro _ after ⟨⟨_, evolves, _⟩, watched⟩
      exact evolves.observed watched
    | waiting =>
      apply Ensures.bind (procTerm_watched settled (.inr ⟨state, rfl⟩) observed status)
      rintro _ after ⟨⟨kept, evolves, dead, _⟩, watched⟩
      by_cases self : p = k.procCurrent
      · rw [decide_eq_false (not_not_intro self)]
        exact evolves.observed watched
      · rw [decide_eq_true self]
        have different : p ≠ after.procCurrent := by rw [evolves.current]; exact self
        have aside : p ∈ insert p ({k.procCurrent} : Set Slot) := Set.mem_insert p _
        have apart : some k.procCurrent ≠ some p := fun same => self (Option.some.inj same).symm
        apply ((procRelease_spec kept dead aside different).both (procRelease_watched kept dead aside apart)).weaken
        rintro _ last ⟨⟨_, since, _⟩, seen⟩
        exact (evolves.fates_trans since).observed (seen watched)
    | zombie => exact observed
    | free => exact absurd state used

/-- Any of the processes that may be killed with the rest. -/
private theorem zapInterruptable_observed (killer : Slot) (status : UInt32) (p : Slot) (k : Kernel)
    (kept : Settled k ∧ Observed k) :
    Ensures never (zapInterruptable killer status p) k fun _ after => Settled after ∧ Observed after := by
  unfold zapInterruptable
  apply Ensures.get
  cases chosen : decide ((k.procSet p).state ≠ .free) && (k.procSet p).interruptable with
  | false => exact kept
  | true =>
    simp only [Bool.and_eq_true, decide_eq_true_eq] at chosen
    apply ((procZap_spec kept.1 chosen.1).both (procZap_observed kept.1 kept.2 chosen.1)).weaken
    exact fun _ _ done => ⟨done.1.settled, done.2⟩

theorem procKill_observed (settled : Settled k) (observed : Observed k) (killer pid : Pid) (status : UInt32) :
    Ensures never (procKill killer pid status) k fun _ after => Observed after := by
  unfold procKill
  apply Ensures.get
  cases k.procFind killer with
  | none => exact observed
  | some killer =>
    cases pid == 0 with
    | true =>
      unfold killAll
      apply Ensures.get
      exact Ensures.bind (forSlots_spec (zapInterruptable_observed killer status) procSlots ⟨settled, observed⟩)
        fun _ after kept => kept.2
    | false =>
      cases found : k.procFind pid with
      | none => exact observed
      | some p =>
        exact Ensures.bind (procZap_observed settled observed (Kernel.procFind_some found).1) fun _ after kept => kept

/-! Calls and rounds that nobody dies in. -/

section Outline
variable {τ : Type} {trait : Process → τ}

/-- What is seen of a kernel in which processes are told apart by a trait. -/
def Kernel.outline (trait : Process → τ) (k : Kernel) : List Life × Slot × (Slot → τ) :=
  (k.lives, k.procCurrent, fun p => trait (k.procSet p))

theorem Observed.outline (observed : Observed k) (same : after.outline Process.state = k.outline Process.state) :
    Observed after := by
  obtain ⟨lives, current, states⟩ := Prod.mk.inj same |>.imp_right Prod.mk.inj
  unfold Observed
  rw [current]
  exact observed.same lives fun p => congrArg ProcState.phase (congrFun states p)

structure Blind (trait : Process → τ) : Prop where
  setMbox : ∀ (record : Process) mtype change, trait (record.setMbox mtype change) = trait record
  call : ∀ record : Process, trait { record with call := none } = trait record

theorem state_blind : Blind Process.state := ⟨fun _ _ _ => rfl, fun _ => rfl⟩

theorem setProc_outline {p : Slot} {change : Process → Process}
    (same : ∀ record, trait (change record) = trait record) :
    Keeps (Kernel.outline trait) (setProc p change) := by
  refine .modify fun k => ?_
  have traits : (fun q => trait ((k.setProc p change).procSet q)) = fun q => trait (k.procSet q) :=
    funext (Kernel.put_cases (fun q entry => trait entry = trait (k.procSet q)) (same _) fun _ _ => rfl)
  unfold Kernel.outline
  rw [traits]
  rfl

theorem procRecvGet_outline (blind : Blind trait) (mtype : MsgType) (size : Nat) :
    Keeps (Kernel.outline trait) (procRecvGet mtype size) := by
  refine .get fun k => .bind ensure_keeps fun _ => ?_
  cases (k.current.mboxes mtype).messages with
  | nil => exact .pure _
  | cons msg rest => exact .bind (setProc_outline fun _ => blind.setMbox ..) fun _ => .pure _

theorem resume_outline (blind : Blind trait) : Keeps (Kernel.outline trait) resume := by
  refine .get fun k => ?_
  cases k.current.call with
  | none => exact .pure ()
  | some await =>
    refine .bind (setProc_outline blind.call) fun _ => .bind ensure_keeps
      fun _ => .bind (procRecvGet_outline blind _ _) fun reply => ?_
    cases await.rpc with
    | none => exact .pure ()
    | some pid =>
      cases reply with
      | none => exact .pure ()
      | some receipt => exact ensure_keeps

theorem checkPriority_outline (now : Time) : Keeps (Kernel.outline Process.state) (checkPriority now) := by
  refine .get fun k => ?_
  cases decide (now - k.current.lastRun > k.current.remainQuantum) with
  | false => exact setProc_outline fun _ => rfl
  | true =>
    refine .get fun k => ?_
    cases decide (loweredPriority (k.procSet _).priority < MAX_PRIORITY) with
    | false => exact .halt _
    | true => exact setProc_outline fun _ => rfl

end Outline
end Egos.Grass
