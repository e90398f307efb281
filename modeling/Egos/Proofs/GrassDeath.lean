import Egos.Proofs.GrassSend

/-! The death of a process. While proc_term runs, the clients of the dying server
still wait for it; the loop at its end wakes them all. -/

namespace Egos.Grass
open Library Library.Prog

variable {off : Set Slot} {gone : Option Pid} {k : Kernel}

def Abandoned (pid : Pid) (p : Slot) (k : Kernel) : Prop :=
  (k.procSet p).state = .waiting → ((k.procSet p).mboxes .reply).waiting = true → (k.procSet p).server ≠ pid

theorem procWakeup_spec (sound : Sound off gone k) {p : Slot} (waiting : (k.procSet p).state = .waiting) :
    Ensures never (procWakeup p) k fun _ after => Sound off gone after ∧ Evolves Wakes k after ∧
      (after.procSet p).state = .runnable ∧ ∀ q, q ≠ p → after.procSet q = k.procSet q := by
  apply Ensures.returns (procWakeup_run waiting (sound.priority p))
  have priority : ((k.procSet p).wokenUp (p = k.procCurrent)).priority < MAX_PRIORITY := by
    unfold Process.wokenUp
    split
    · exact sound.priority p
    · exact improvedPriority_lt (sound.priority p)
  refine ⟨sound.woken waiting rfl priority ?_ rfl, .woken waiting rfl rfl rfl, ?_, ?_⟩
  · exact (sound.consistent p).wakeup waiting rfl rfl rfl rfl
  · exact congrArg Process.state Kernel.put_self
  · exact fun q other => Kernel.put_of_ne other

private theorem failRpc_spec (sound : Sound off gone k) (pid : Pid) (p : Slot) :
    Ensures never (failRpc pid p) k fun _ after => (Sound off gone after ∧ Evolves Wakes k after) ∧
      Abandoned pid p after ∧ ∀ q, Abandoned pid q k → Abandoned pid q after := by
  unfold failRpc
  apply Ensures.get
  cases client : decide ((k.procSet p).state = .waiting) && ((k.procSet p).mboxes .reply).waiting && decide
    ((k.procSet p).server = pid) with
  | false =>
    refine ⟨⟨sound, .wakes_refl k⟩, ?_, fun _ held => held⟩
    intro waiting waits server
    simp [waiting, waits, server] at client
  | true =>
    simp only [Bool.and_eq_true, decide_eq_true_eq] at client
    apply (procWakeup_spec sound client.1.1).weaken
    rintro _ after ⟨kept, evolves, runnable, others⟩
    refine ⟨⟨kept, evolves⟩, ?_, ?_⟩
    · intro waiting
      rw [runnable] at waiting
      cases waiting
    · intro q held waiting
      by_cases same : q = p
      · subst same; rw [runnable] at waiting; cases waiting
      · rw [others q same] at waiting
        unfold Abandoned at held
        rw [others q same]
        exact held waiting

private theorem notifyOwner_spec (sound : Sound off gone k) (proc : Slot) (status : UInt32) :
    Ensures never (notifyOwner proc status) k fun _ after => Sound off gone after ∧ Evolves Wakes k after := by
  unfold notifyOwner
  apply Ensures.get
  cases k.procFind (k.procSet proc).owner with
  | none => exact ⟨sound, .wakes_refl k⟩
  | some owner =>
    apply Ensures.bind (procSend_spec sound)
    rintro _ after ⟨kept, evolves, _⟩
    exact ⟨kept, evolves⟩

/-- The process is a zombie now and its clients have not been told yet. -/
def killed (k : Kernel) (p : Slot) : Kernel :=
  { k.put p { k.procSet p with state := .zombie } with
    procNrunnable := k.procNrunnable - weight isRunnable (k.procSet p) }

/-- A process that dies while it waits is on no queue, and stays off them. -/
def Departs (k : Kernel) (p : Slot) (off other : Set Slot) : Prop :=
  (k.procSet p).state = .runnable ∧ other = off ∨ (k.procSet p).state = .waiting ∧ other = insert p off

private theorem sound_killed {other : Set Slot} (sound : Sound off none k) {p : Slot} (leaves : Departs k p off other) :
    Sound other (some (k.procSet p).pid) (killed k p) := by
  have dead : ((killed k p).procSet p).state = .zombie := congrArg Process.state Kernel.put_self
  have others : ∀ q, q ≠ p → (killed k p).procSet q = k.procSet q := fun q different => Kernel.put_of_ne different
  have used : (k.procSet p).state ≠ .free := by
    rcases leaves with ⟨state, _⟩ | ⟨state, _⟩
    · rw [state]; exact nofun
    · rw [state]; exact nofun
  have use : ProcState.zombie = .free ↔ (k.procSet p).state = .free := ⟨nofun, fun free => absurd free used⟩
  have inside : ∀ q, q ∈ other → q = p ∨ q ∈ off := by
    rcases leaves with ⟨_, rfl⟩ | ⟨_, rfl⟩
    · exact fun q member => .inr member
    · exact fun q member => Set.mem_insert_iff.mp member
  have wider : ∀ q, q ∈ off → q ∈ other := by
    rcases leaves with ⟨_, rfl⟩ | ⟨_, rfl⟩
    · exact fun q member => member
    · exact fun q member => Set.mem_insert_of_mem p member
  refine ⟨?_, wider _ sound.aside, ?_, ?_, ?_, ?_⟩
  · rcases leaves with ⟨runnable, rfl⟩ | ⟨waiting, rfl⟩
    · refine sound.queues.replace rfl (.inr ⟨rfl, ?_⟩) (sound.priority p) use rfl rfl rfl (Int.add_zero _).symm
      rw [runnable]
      rfl
    · have aside : Queues (insert p off) k := by
        apply sound.queues.reoff
        intro q ready
        have different : q ≠ p := by
          rintro rfl
          rw [waiting] at ready
          cases ready
        exact Set.mem_insert_iff.trans (or_iff_right different)
      exact aside.replace rfl (.inl (Set.mem_insert p off)) (sound.priority p) use rfl rfl rfl (Int.add_zero _).symm
  · intro q member waiting
    by_cases same : q = p
    · subst same; rw [dead] at waiting; cases waiting
    · rw [others q same] at waiting
      exact sound.blocked q ((inside q member).resolve_left same) waiting
  · exact Kernel.put_cases (fun _ entry => Consistent entry) ((sound.consistent p).zombie used rfl rfl)
      fun q _ => sound.consistent q
  · intro q waiting waits
    by_cases same : q = p
    · subst same; rw [dead] at waiting; cases waiting
    · rw [others q same] at waiting waits ⊢
      rcases sound.served q waiting waits with dying | ⟨s, live, named⟩
      · cases dying
      · by_cases server : s = p
        · subst server; exact .inl (congrArg some named)
        · exact .inr ⟨s, by rw [others s server]; exact ⟨live, named⟩⟩
  · unfold Kernel.current
    by_cases same : (killed k p).procCurrent = p
    · rw [same, dead]; exact nofun
    · rw [others _ same]; exact sound.alive

/-- The death has been recorded, and neither the owner nor the clients have been told. -/
def dying (k : Kernel) (p : Slot) (status : UInt32) : Kernel :=
  (killed k p).record (.died p (k.procSet p).pid status ((killed k p).liveOwner p))

def bury (p : Slot) (status : UInt32) : Kern Unit := do
  notifyOwner p status
  let k ← .get
  forSlots (failRpc (k.procSet p).pid) procSlots
  .modify (·.record (.buried p))

private theorem becomeZombie_run {p : Slot} {status : UInt32} (k : Kernel) : becomeZombie p status k =
    bury p status ((k.put p { k.procSet p with state := .zombie }).record
      (.died p ((k.put p { k.procSet p with state := .zombie }).procSet p).pid status
        ((k.put p { k.procSet p with state := .zombie }).liveOwner p))) := rfl

theorem procTerm_run {p : Slot} {status : UInt32} (live : (k.procSet p).state.live = true) (used : k.procNprocs ≠ 0) :
    procTerm p status k = bury p status (dying k p status) := by
  have counted : when ((k.procSet p).state = .runnable) (.modify
    fun k => { k with procNrunnable := k.procNrunnable - 1 }) k =
      .done () { k with procNrunnable := k.procNrunnable - weight isRunnable (k.procSet p) } := by
    cases state : (k.procSet p).state with
    | runnable => simp [when, weight, isRunnable, state]
    | waiting => simp [when, weight, isRunnable, state]
    | zombie => rw [state] at live; cases live
    | free => rw [state] at live; cases live
  have alive : (k.procSet p).state ≠ .zombie := by
    intro dead
    rw [dead] at live
    cases live
  have passed : ensure (k.procNprocs ≠ 0) "proc_term" "proc_nprocs > 0" k = .done () k := by
    rw [decide_eq_true used]; rfl
  have here : (killed k p).procSet p = { k.procSet p with state := .zombie } := Kernel.put_self
  have named : ((killed k p).procSet p).pid = (k.procSet p).pid := by rw [here]
  unfold procTerm
  rw [Prog.bind_done (get_run k), Prog.bind_done passed, Prog.bind_done counted, decide_eq_true alive]
  unfold dying
  rw [← named]
  exact becomeZombie_run _

/-- Once every client has been woken, nobody waits for the dead server. -/
private theorem Sound.forget {pid : Pid} (sound : Sound off (some pid) k) (abandoned : ∀ p, Abandoned pid p k) :
    Sound off none k := by
  refine { sound with served := ?_ }
  intro q waiting waits
  rcases sound.served q waiting waits with dying | served
  · cases dying
    exact absurd rfl (abandoned q waiting waits)
  · exact .inr served

theorem procTerm_spec {other : Set Slot} (sound : Sound off none k) {p : Slot} (leaves : Departs k p off other)
    (status : UInt32) :
    Ensures never (procTerm p status) k fun _ after => Sound other none after ∧ Evolves Fates k after ∧
      (after.procSet p).state = .zombie ∧ ∀ q, q ≠ p → Wakes (k.procSet q).state (after.procSet q).state := by
  have live : (k.procSet p).state.live = true := by
    rcases leaves with ⟨state, _⟩ | ⟨state, _⟩
    · rw [state]; rfl
    · rw [state]; rfl
  unfold Ensures
  rw [procTerm_run live (ne_of_gt (sound.queues.nprocs_pos sound.alive))]
  apply Ensures.bind (notifyOwner_spec ((sound_killed sound leaves).record _) p status)
  rintro _ told ⟨kept, evolves⟩
  have evolves : Evolves Wakes (killed k p) told := ⟨evolves.current, evolves.pid, evolves.call, evolves.state⟩
  have fate : Evolves Fates k (killed k p) := .put (fun _ => .inl (.inl rfl)) rfl rfl rfl rfl (.inr (.inl rfl))
  have named : (told.procSet p).pid = (k.procSet p).pid := (evolves.pid p).trans (fate.pid p)
  apply Ensures.get
  rw [named]
  have each : ∀ q now, Sound other (some (k.procSet p).pid) now ∧ Evolves Wakes (killed k p) now →
      Ensures never (failRpc (k.procSet p).pid q) now fun _ after =>
        (Sound other (some (k.procSet p).pid) after ∧ Evolves Wakes (killed k p) after) ∧
          Abandoned (k.procSet p).pid q after ∧ ∀ r, Abandoned (k.procSet p).pid r now →
              Abandoned (k.procSet p).pid r after := by
    rintro q now ⟨held, before⟩
    apply (failRpc_spec held _ q).weaken
    rintro _ after ⟨⟨stays, later⟩, rest⟩
    exact ⟨⟨stays, before.wakes_trans later⟩, rest⟩
  apply Ensures.bind (forSlots_each each procSlots ⟨kept, evolves⟩)
  rintro _ after ⟨⟨final, since⟩, all, _⟩
  refine ⟨(final.forget fun q => all q (mem_procSlots q)).record _, (fate.fates_trans since.fates).record _, ?_, ?_⟩
  · have state := since.state p
    rw [show ((killed k p).procSet p).state = .zombie from congrArg Process.state Kernel.put_self] at state
    rcases state with same | ⟨waiting, _⟩
    · exact same
    · cases waiting
  · intro q different
    have state := since.state q
    rw [show (killed k p).procSet q = k.procSet q from Kernel.put_of_ne different] at state
    exact state

def freed (k : Kernel) (p : Slot) : Kernel :=
  { k.put p { k.procSet p with state := .free, mboxes := fun mtype => { (k.procSet p).mboxes mtype with messages := [] } } with
    procNprocs := k.procNprocs - 1
    procFree := k.procFree ++ [p]
    lives := k.lives ++ [.released p (k.onQueue p)] }

theorem procRelease_run {p : Slot} (dead : (k.procSet p).state = .zombie) : procRelease p k = .done () (freed k p) := by
  unfold procRelease
  rw [Prog.bind_done (get_run k)]
  simp only [dead, decide_true, ensure]
  unfold Grass.setProc freed
  simp only [bind, pure_run, modify_run, Kernel.setProc, Kernel.put, Function.update_self, Function.update_idem,
    Kernel.record]
  rfl

theorem procRelease_spec (sound : Sound off none k) {p : Slot} (dead : (k.procSet p).state = .zombie) (aside : p ∈ off)
    (different : p ≠ k.procCurrent) : Ensures never (procRelease p) k fun _ after =>
      Sound (off \ {p}) none after ∧ Evolves Fates k after ∧ after.mtlQueue = k.mtlQueue ∧
        (after.procSet p).state = .free ∧ ∀ q, q ≠ p → after.procSet q = k.procSet q := by
  apply Ensures.returns (procRelease_run dead)
  have here : ((freed k p).procSet p).state = .free := congrArg Process.state Kernel.put_self
  have others : ∀ q, q ≠ p → (freed k p).procSet q = k.procSet q := fun q other => Kernel.put_of_ne other
  refine ⟨⟨?_, ?_, ?_, ?_, ?_, ?_⟩, .put (fun _ => .inl (.inl rfl)) rfl rfl rfl rfl (.inr (.inr rfl)),
    rfl, here, others⟩
  · have listed : Queues off (freed k p) :=
      sound.queues.release aside dead rfl rfl (sound.priority p) rfl rfl rfl rfl
    apply listed.reoff
    intro q ready
    have other : q ≠ p := by
      rintro rfl
      rw [here] at ready
      cases ready
    exact ⟨fun inside => inside.1, fun inside => ⟨inside, other⟩⟩
  · exact ⟨sound.aside, Ne.symm different⟩
  · rintro q ⟨inside, other⟩ waiting
    rw [others q other] at waiting
    exact sound.blocked q inside waiting
  · exact Kernel.put_cases (fun _ entry => Consistent entry) (.free rfl) fun q _ => sound.consistent q
  · intro q waiting waits
    by_cases same : q = p
    · subst same; rw [here] at waiting; cases waiting
    · rw [others q same] at waiting waits ⊢
      rcases sound.served q waiting waits with dying | ⟨s, live, named⟩
      · cases dying
      · refine .inr ⟨s, ?_⟩
        have server : s ≠ p := by
          rintro rfl
          rw [dead] at live
          cases live
        rw [others s server]
        exact ⟨live, named⟩
  · have current : (freed k p).procCurrent = k.procCurrent := rfl
    unfold Kernel.current
    rw [current, others _ (Ne.symm different)]
    exact sound.alive

/-- Between two switches only the current process is set aside. -/
abbrev Settled (k : Kernel) : Prop := Sound {k.procCurrent} none k

theorem settle {c : Slot} (sound : Sound {c} none k) : Settled k := by
  have same : k.procCurrent = c := sound.aside
  rw [← same] at sound
  exact sound

private theorem zap_waiting (settled : Settled k) {p : Slot} (waiting : (k.procSet p).state = .waiting)
    (status : UInt32) :
    Ensures never (do procTerm p status; when (p ≠ k.procCurrent) (procRelease p)) k fun _ after =>
      Settled after ∧ Evolves Fates k after ∧ (after.procSet p).state.live = false ∧
        ∀ q, q ≠ p → Wakes (k.procSet q).state (after.procSet q).state := by
  apply Ensures.bind (procTerm_spec settled (.inr ⟨waiting, rfl⟩) status)
  rintro _ after ⟨kept, evolves, dead, others⟩
  by_cases self : p = k.procCurrent
  · rw [decide_eq_false (not_not_intro self)]
    rw [self, Set.insert_eq_of_mem (Set.mem_singleton _)] at kept
    exact ⟨settle kept, evolves, congrArg ProcState.live dead, others⟩
  · rw [decide_eq_true self]
    have different : p ≠ after.procCurrent := by rw [evolves.current]; exact self
    apply (procRelease_spec kept dead (Set.mem_insert p _) different).weaken
    rintro _ last ⟨final, since, _, free, rest⟩
    have outside : p ∉ ({k.procCurrent} : Set Slot) := self
    rw [Set.insert_sdiff_self_of_notMem outside] at final
    refine ⟨settle final, evolves.fates_trans since, congrArg ProcState.live free, ?_⟩
    intro q other
    rw [rest q other]
    exact others q other

structure Zapped (k : Kernel) (killer : Option Slot) (p : Slot) (after : Kernel) : Prop where
  settled : Settled after
  evolves : Evolves Fates k after
  dead : mayZap k killer p = true → (after.procSet p).state.live = false
  others : ∀ q, q ≠ p → Wakes (k.procSet q).state (after.procSet q).state

theorem procZap_spec (settled : Settled k) {killer : Option Slot} {p : Slot} {status : UInt32}
    (used : (k.procSet p).state ≠ .free) :
    Ensures never (procZap killer p status) k fun _ after => Zapped k killer p after := by
  unfold procZap
  apply Ensures.get
  cases allowed : mayZap k killer p with
  | false => exact ⟨settled, .fates_refl k, fun yes => absurd (allowed.symm.trans yes) nofun, fun _ _ => .inl rfl⟩
  | true =>
    apply ensure_spec (decide_eq_true (ne_of_gt (settled.queues.nprocs_pos settled.alive)))
    cases state : (k.procSet p).state with
    | runnable =>
      apply (procTerm_spec settled (.inl ⟨state, rfl⟩) status).weaken
      rintro _ after ⟨kept, evolves, dead, others⟩
      exact ⟨settle kept, evolves, fun _ => congrArg ProcState.live dead, others⟩
    | waiting =>
      apply (zap_waiting settled state status).weaken
      rintro _ after ⟨kept, evolves, dead, others⟩
      exact ⟨kept, evolves, fun _ => dead, others⟩
    | zombie => exact ⟨settled, .fates_refl k, fun _ => congrArg ProcState.live state, fun _ _ => .inl rfl⟩
    | free => exact absurd state used

/-- The kernel while a process runs: it is runnable and inside no kernel call. -/
structure Running (k : Kernel) : Prop where
  settled : Settled k
  runnable : k.current.state = .runnable
  outside : k.current.call = none

/-- What a kernel function leaves, for each way in which it may end. -/
def Left (turn : Turn) (k : Kernel) : Prop :=
  match turn with
  | .running => Running k
  | .yielding => Settled k

theorem Left.settled {turn : Turn} (left : Left turn k) : Settled k := by
  cases turn with
  | running => exact Running.settled left
  | yielding => exact left

/-- A running process that has not been killed in the meantime still runs. -/
theorem Running.evolve {after : Kernel} (running : Running k) (settled : Settled after)
    (evolves : Evolves Fates k after)
    (survives : after.current.state ≠ .zombie) : Running after := by
  have current := evolves.current
  refine ⟨settled, ?_, ?_⟩
  · have state := evolves.state k.procCurrent
    unfold Kernel.current at survives ⊢
    have alive := settled.alive
    unfold Kernel.current at alive
    rw [current] at survives alive ⊢
    rcases state with (same | ⟨_, woken⟩) | dead | free
    · rw [same]; exact running.runnable
    · exact woken
    · exact absurd dead survives
    · exact absurd free alive
  · unfold Kernel.current
    rw [current, evolves.call]
    exact running.outside

/-- Nothing but a wake-up can happen to a process that runs. -/
theorem Running.wakes {after : Kernel} (running : Running k) (settled : Settled after)
    (evolves : Evolves Wakes k after) :
    Running after := by
  apply running.evolve settled evolves.fates
  have state := evolves.state k.procCurrent
  unfold Kernel.current
  rw [evolves.current, state.runnable running.runnable]
  exact nofun

private theorem killAll_spec (settled : Settled k) (killer : Slot) (status : UInt32) :
    Ensures never (killAll killer status) k fun turn after => Settled after ∧ Evolves Fates k after ∧
      (turn = .running → after.current.state ≠ .zombie) := by
  have each : ∀ p now, Settled now ∧ Evolves Fates k now →
      Ensures never (zapInterruptable killer status p) now fun _ after =>
      Settled after ∧ Evolves Fates k after := by
    rintro p now ⟨held, before⟩
    unfold zapInterruptable
    apply Ensures.get
    cases chosen : decide ((now.procSet p).state ≠ .free) && (now.procSet p).interruptable with
    | false => exact ⟨held, before⟩
    | true =>
      simp only [Bool.and_eq_true, decide_eq_true_eq] at chosen
      apply (procZap_spec held chosen.1).weaken
      rintro _ after ⟨kept, since, _⟩
      exact ⟨kept, before.fates_trans since⟩
  unfold killAll
  apply Ensures.get
  apply Ensures.bind (forSlots_spec each procSlots ⟨settled, .fates_refl k⟩)
  rintro _ after ⟨kept, evolves⟩
  refine ⟨kept, evolves, ?_⟩
  intro turn
  unfold Kernel.current
  rw [evolves.current]
  intro dead
  rw [if_pos dead] at turn
  cases turn

/-- proc_kill called by the running process. -/
theorem procKill_spec (running : Running k) (killer pid : Pid) (status : UInt32) :
    Ensures never (procKill killer pid status) k Left := by
  unfold procKill
  apply Ensures.get
  cases k.procFind killer with
  | none => exact running
  | some killer =>
    cases pid == 0 with
    | true =>
      apply (killAll_spec running.settled killer status).weaken
      rintro turn after ⟨kept, evolves, survives⟩
      cases turn with
      | running => exact running.evolve kept evolves (survives rfl)
      | yielding => exact kept
    | false =>
      cases found : k.procFind pid with
      | none => exact running
      | some p =>
        apply Ensures.bind (procZap_spec running.settled (Kernel.procFind_some found).1)
        rintro _ after ⟨kept, evolves, _, others⟩
        by_cases dead : (after.procSet p).state = .zombie
        · change Left (if (after.procSet p).state = .zombie then .yielding else .running) after
          rw [if_pos dead]
          exact kept
        · change Left (if (after.procSet p).state = .zombie then .yielding else .running) after
          rw [if_neg dead]
          apply running.evolve kept evolves
          unfold Kernel.current
          rw [evolves.current]
          by_cases self : k.procCurrent = p
          · rw [self]; exact dead
          · rw [(others _ self).runnable running.runnable]; exact nofun

/-- proc_kill called by a device handler. -/
theorem procKill_interrupt (settled : Settled k) (killer : Pid) (status : UInt32) :
    Ensures never (procKill killer 0 status) k fun _ after => Settled after := by
  unfold procKill
  apply Ensures.get
  cases k.procFind killer with
  | none => exact settled
  | some killer =>
    apply (killAll_spec settled killer status).weaken
    rintro _ after ⟨kept, _⟩
    exact kept

end Egos.Grass
