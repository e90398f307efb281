import Egos.Proofs.GrassYield

/-! Whole runs of the kernel: the run queues and the mailboxes are sound in every
reachable state, and the assertions about them never fail. -/

namespace Egos.Grass
open Library Library.Prog

def Machine.Valid (m : Machine) : Prop :=
  match m.mode with
  | .running => Running m.kernel
  | .yielding => Settled m.kernel
  | .stopped reason => Expected reason

private theorem valid_after {program : Kern Turn} {k : Kernel} {stops : Halt → Prop}
    (ensured : Ensures stops program k Left)
    (expected : ∀ reason, stops reason → Expected reason) : (Machine.after (program k)).Valid := by
  unfold Ensures at ensured
  cases ran : program k with
  | done turn after =>
    rw [ran] at ensured
    cases turn with
    | running => exact ensured
    | yielding => exact ensured
  | halted reason after =>
    rw [ran] at ensured
    exact expected reason ensured

theorem Step.valid {before : Machine} {event : Event} {after : Machine} (step : Step before event after)
    (valid : before.Valid) : after.Valid := by
  cases step with
  | call => exact valid_after (perform_spec valid _) fun _ => False.elim
  | interrupt => exact valid_after (serve_spec valid _) fun _ => False.elim
  | round => exact valid_after (procYieldRound_spec valid _ _) fun _ expected => expected

private theorem noProcesses_queues : Queues ∅ noProcesses := by
  have none : ∀ test : Process → Bool, (∀ p, test (noProcesses.procSet p) = false) →
      tally test noProcesses.procSet = 0 := by
    intro test fails
    unfold tally
    simp only [fails, Bool.false_eq_true, Finset.filter_false, Finset.card_empty, Nat.cast_zero]
  refine ⟨?_, fun _ => List.nodup_nil, fun _ => Nat.zero_lt_succ _, fun p => ⟨fun _ => rfl, fun _ => mem_procSlots p⟩,
    List.nodup_finRange _, (none _ fun _ => rfl).symm, (none _ fun _ => rfl).symm⟩
  intro level p
  exact ⟨nofun, fun listed => Bool.noConfusion listed.2.1⟩

private def mainOnly (p : Slot) (rest : List Slot) : Kernel :=
  { noProcesses.put p (Process.fresh 1 1 0) with
    procFree := rest
    pidGen := 1 + 1
    procNprocs := 0 + 1
    procNrunnable := 0 + 1
    procCurrent := p
    lives := [.created p, .switched p] }

private theorem mainOnly_running {p : Slot} {rest : List Slot} (head : noProcesses.procFree = p :: rest) :
    Running (mainOnly p rest) := by
  have here : (mainOnly p rest).procSet p = Process.fresh 1 1 0 := Kernel.put_self
  have others : ∀ q, q ≠ p → (mainOnly p rest).procSet q = noProcesses.procSet q := fun q other =>
    Kernel.put_of_ne other
  have listed : Queues (insert p ∅) (mainOnly p rest) :=
    noProcesses_queues.alloc head rfl rfl (Nat.zero_lt_succ _) rfl rfl rfl rfl
  have runnable : (mainOnly p rest).current.state = .runnable := congrArg Process.state here
  refine ⟨settled_of ?_ ?_ ?_ runnable, runnable, congrArg Process.call here⟩
  · rw [insert_empty_eq] at listed
    exact listed
  · exact Kernel.put_cases (fun _ entry => Consistent entry) (.fresh 1 1 0) fun _ _ => .free rfl
  · intro q waiting
    by_cases same : q = p
    · subst same; rw [here] at waiting; cases waiting
    · rw [others q same] at waiting; cases waiting

theorem booted_valid : booted.Valid := by
  obtain ⟨p, rest, head⟩ : ∃ p rest, noProcesses.procFree = p :: rest := List.exists_cons_of_ne_nil nofun
  have ran : procInitialize noProcesses = .done .running (mainOnly p rest) := by
    unfold procInitialize procAlloc Grass.setProc
    simp only [bind, get_run, head, modify_run, pure_run, Kernel.setProc]
    rfl
  unfold booted
  rw [ran]
  exact mainOnly_running head

theorem reachable_valid {m : Machine} (reachable : Reachable m) : m.Valid := by
  obtain ⟨events, run⟩ := reachable
  exact run.invariant (fun _ _ _ valid step => step.valid valid) booted_valid

def Machine.take (m : Machine) (event : Event) : Option Machine :=
  match m.mode, event with
  | .running, .call call => some (.after (call.perform m.kernel))
  | .yielding, .interrupt interrupt => some (.after (interrupt.serve m.kernel))
  | .yielding, .round now later => some (.after (procYieldRound now later m.kernel))
  | _, _ => none

def Machine.play (m : Machine) (events : List Event) : Option Machine := events.foldlM Machine.take m

theorem Machine.take_step {m after : Machine} {event : Event} (taken : m.take event = some after) :
    Step m event after := by
  obtain ⟨kernel, mode⟩ := m
  cases mode with
  | running =>
    cases event with
    | call call => cases taken; exact .call
    | interrupt interrupt => cases taken
    | round now later => cases taken
  | yielding =>
    cases event with
    | call call => cases taken
    | interrupt interrupt => cases taken; exact .interrupt
    | round now later => cases taken; exact .round
  | stopped reason => cases event <;> cases taken

theorem Machine.play_run {m after : Machine} {events : List Event} (played : m.play events = some after) :
    Run Step m events after :=
  .of_foldlM take_step played

/-- Each process is where its state says. -/
structure RunQueues (k : Kernel) : Prop where
  runnable : ∀ p, (k.procSet p).state = .runnable → p ≠ k.procCurrent → (k.procSet p).priority < MAX_PRIORITY ∧
    ∀ level, (k.mtlQueue level).count p = if level.val = (k.procSet p).priority then 1 else 0
  current : ∀ level, k.procCurrent ∉ k.mtlQueue level
  others : ∀ level p, p ∈ k.mtlQueue level → (k.procSet p).state = .runnable ∨ (k.procSet p).state = .zombie
  free : ∀ p, (k.procSet p).state = .free → k.procFree.count p = 1
  nrunnable : k.procNrunnable = (Finset.univ.filter fun p => (k.procSet p).state = .runnable).card
  nprocs : k.procNprocs = (Finset.univ.filter fun p => (k.procSet p).state ≠ .free).card

private theorem Sound.runQueues {k : Kernel} (settled : Settled k) : RunQueues k := by
  have queues := settled.queues
  refine ⟨?_, ?_, ?_, ?_, ?_, ?_⟩
  · intro p runnable other
    refine ⟨queues.priority p, fun level => ?_⟩
    have ready : (k.procSet p).state.queued = true := by rw [runnable]; rfl
    by_cases here : level.val = (k.procSet p).priority
    · rw [if_pos here]
      exact List.count_eq_one_of_mem (queues.nodup level) ((queues.mem level p).mpr ⟨other, ready, here⟩)
    · rw [if_neg here]
      exact List.count_eq_zero_of_not_mem fun inside => here ((queues.mem level p).mp inside).2.2
  · exact fun level inside => ((queues.mem level _).mp inside).1 rfl
  · intro level p inside
    have ready := ((queues.mem level p).mp inside).2.1
    cases state : (k.procSet p).state with
    | runnable => exact .inl rfl
    | zombie => exact .inr rfl
    | waiting => rw [state] at ready; cases ready
    | free => rw [state] at ready; cases ready
  · exact fun p free => List.count_eq_one_of_mem queues.freeNodup ((queues.freeMem p).mpr free)
  · rw [queues.nrunnable]
    simp only [tally, isRunnable, decide_eq_true_eq]
  · rw [queues.nprocs]
    simp only [tally, inUse, decide_eq_true_eq]

/-- Whenever process code runs, the scheduler's lists and counters are right. -/
theorem run_queues_sound {m : Machine} (reachable : Reachable m) (runs : m.mode = .running) : RunQueues m.kernel := by
  have valid := reachable_valid reachable
  unfold Machine.Valid at valid
  rw [runs] at valid
  exact valid.settled.runQueues

/-- The main process has created another one, which has the CPU. -/
private def twoProcesses : Machine := .after ((Call.create 1 0 0).perform booted.kernel)

private theorem twoProcesses_reachable : Reachable twoProcesses := ⟨[.call (.create 1 0 0)], .snoc .nil .call⟩

theorem run_queues_sound_two : twoProcesses.kernel.procNrunnable = 2 ∧ RunQueues twoProcesses.kernel :=
  ⟨rfl, run_queues_sound twoProcesses_reachable rfl⟩

/-- Each process waits on the mailbox it says, and no message is lost. -/
structure Mailboxes (k : Kernel) : Prop where
  waiting : ∀ p, (k.procSet p).state.live = true →
    ((k.procSet p).state = .waiting ↔ ∃! mtype, ((k.procSet p).mboxes mtype).waiting = true)
  empty : ∀ p mtype, (k.procSet p).state.live = true → ((k.procSet p).mboxes mtype).waiting = true →
    ((k.procSet p).mboxes mtype).messages = []
  reply : ∀ p, (k.procSet p).state.live = true → ((k.procSet p).mboxes .reply).messages.length ≤ 1 ∧
    ∀ msg ∈ ((k.procSet p).mboxes .reply).messages, msg.src = (k.procSet p).server
  server : ∀ p, (k.procSet p).state = .waiting → ((k.procSet p).mboxes .reply).waiting = true →
    ∃ s, (k.procSet s).pid = (k.procSet p).server ∧ (k.procSet s).state ≠ .zombie ∧ (k.procSet s).state ≠ .free
  ledger : ∀ p mtype, (k.procSet p).state ≠ .free → ((k.procSet p).mboxes mtype).Ledger

private theorem waits_iff {p : Process} (consistent : Consistent p) (live : p.state.live = true) :
    p.state = .waiting ↔ ∃! mtype, (p.mboxes mtype).waiting = true := by
  constructor
  · intro waiting
    obtain ⟨await, _, flags, _⟩ := consistent.blocked waiting
    refine ⟨await.mtype, (flags _).trans (decide_eq_true rfl), ?_⟩
    intro mtype waits
    exact of_decide_eq_true ((flags mtype).symm.trans waits)
  · rintro ⟨mtype, waits, _⟩
    cases state : p.state with
    | waiting => rfl
    | runnable => cases (consistent.idle state mtype).symm.trans waits
    | zombie => rw [state] at live; cases live
    | free => rw [state] at live; cases live

private theorem Sound.mailboxes {k : Kernel} (settled : Settled k) : Mailboxes k := by
  refine ⟨fun p live => waits_iff (settled.consistent p) live, ?_, ?_,
    ?_, fun p mtype used => (settled.consistent p).ledger used mtype⟩
  · intro p mtype live waits
    cases state : (k.procSet p).state with
    | waiting =>
      obtain ⟨await, _, flags, none⟩ := (settled.consistent p).blocked state
      rw [flags] at waits
      rw [of_decide_eq_true waits]
      exact none
    | runnable => cases ((settled.consistent p).idle state mtype).symm.trans waits
    | zombie => rw [state] at live; cases live
    | free => rw [state] at live; cases live
  · intro p live
    rcases (settled.consistent p).reply live with none | ⟨_, msg, _, _, single, src⟩
    · rw [none]
      exact ⟨Nat.zero_le 1, fun _ member => nomatch member⟩
    · rw [single]
      refine ⟨Nat.le_refl 1, fun other member => ?_⟩
      rw [List.mem_singleton.mp member]
      exact src
  · intro p waiting waits
    obtain ⟨s, live, named⟩ := (settled.served p waiting waits).resolve_left nofun
    refine ⟨s, named, ?_, ?_⟩
    · intro dead; rw [dead] at live; cases live
    · intro free; rw [free] at live; cases live

/-- The mailboxes are sound as long as the system lives, and none of the assertions
about them ends it. -/
theorem mailboxes_sound {m : Machine} (reachable : Reachable m) :
    ((∀ reason, m.mode ≠ .stopped reason) → Mailboxes m.kernel) ∧
      ∀ function text, m.mode = .stopped (.assertion function text) →
        function ∉ ["proc_recv", "proc_send", "proc_wakeup", "sys_rpc"] := by
  have valid := reachable_valid reachable
  unfold Machine.Valid at valid
  constructor
  · intro lives
    cases mode : m.mode with
    | running => rw [mode] at valid; exact valid.settled.mailboxes
    | yielding => rw [mode] at valid; exact Sound.mailboxes valid
    | stopped reason => exact absurd mode (lives reason)
  · intro function text stopped
    rw [stopped] at valid
    rcases valid with exit | same
    · cases exit
    · cases same
      decide

/-- The new process asks the main process for something and waits for its reply. -/
private def rpcInProgress : Machine := .after ((Call.rpc 1 [7] 4 0).perform twoProcesses.kernel)

private theorem rpcInProgress_reachable : Reachable rpcInProgress :=
  ⟨[.call (.create 1 0 0), .call (.rpc 1 [7] 4 0)], .snoc (.snoc .nil .call) .call⟩

theorem mailboxes_sound_rpc : rpcInProgress.kernel.current.state = .waiting ∧ Mailboxes rpcInProgress.kernel :=
  ⟨rfl, (mailboxes_sound rpcInProgress_reachable).1 nofun⟩

end Egos.Grass
