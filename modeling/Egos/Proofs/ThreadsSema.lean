import Egos.Proofs.ThreadsQueues
import Egos.Library.Transition

/-! Semaphores of mt.c: how often sema_dec can return. -/

namespace Egos.Threads
open Library Library.Prog

variable {ι : Type} [DecidableEq ι]

/-- The package stops only where it calls sys_exit, and of the calls of sema_dec at most
`given` can return. -/
abbrev Serves (program : Package ι (Control ι)) (s : State ι) (given : ι → Nat) : Prop :=
  Ensures (· = .sysExit 1) program s fun control after =>
    Sound none after ∧ control ≠ .returns .exit ∧ ∀ x, credit x after + gain x control ≤ given x

theorem Handed.serves {call : Call ι} {t : ThreadId} {rest : List ThreadId} {before after : State ι}
    {control : Control ι}
    (handed : Handed call t rest before after) (sound : Sound (some call) before) (queue : before.ready = t :: rest)
    (parked : (before.thread t).base = .top ∧ control = .enters ∨
      ∃ saved, saved ≠ .exit ∧ (before.thread t).base = .inside saved ∧ control = .returns saved) :
    Sound none after ∧ control ≠ .returns .exit ∧ ∀ x, credit x after + gain x control ≤ credit x before := by
  refine ⟨handed.sound_after sound queue, ?_, fun x => ?_⟩
  · rcases parked with ⟨_, rfl⟩ | ⟨saved, returns, _, rfl⟩
    · exact nofun
    · exact fun same => returns (Control.returns.inj same)
  · rw [← handed.credit_after sound queue x]
    unfold gain
    split
    · rename_i back
      rcases parked with ⟨_, rfl⟩ | ⟨saved, _, base, rfl⟩
      · cases back
      · cases back
        unfold Thread.released
        rw [base]
        simp
    · omega

/-- A stopped thread gets the CPU and comes back from the call it was in. -/
private theorem switch_serves {call : Call ι} {s between : State ι} (sound : Sound (some call) s) {t : ThreadId}
    {rest : List ThreadId}
    (queue : s.ready = t :: rest) {saved : Call ι} (returns : saved ≠ .exit) (base : (s.thread t).base = .inside saved)
    (ready : between.ready = rest ∨ between.ready = rest ++ [s.current] ∧ (between.thread s.current).state = .stopped ∧
      call ≠ .exit ∧ ∀ x, call ≠ .semaDec x)
    (current : between.current = t) (threads : ∀ other, other ≠ s.current → other ≠ t →
    between.thread other = s.thread other)
    (kept : (between.thread t).base = (s.thread t).base) (sema : between.sema = s.sema)
    (created : between.created = s.created) :
    Serves (ctxSwitch call s.current t) between fun x => credit x s := by
  have apart := sound.current_ne queue
  have context : ((between.setBase s.current (.inside call)).thread t).base = .inside saved := by
    simp only [State.setBase, Function.update_of_ne apart.symm]
    rw [kept, base]
  unfold ctxSwitch
  apply Ensures.modify
  apply Ensures.get
  simp only [context]
  refine Ensures.returns rfl (Handed.serves ?_ sound queue (.inr ⟨saved, returns, base, rfl⟩))
  refine ⟨?_, current, ?_, ?_, sema, created⟩
  · simpa [State.setBase] using ready
  · intro other first second
    simp [State.setBase, first, threads other first second]
  · simp [State.setBase]

/-- A thread that cannot go on leaves the CPU only to one that has run before. -/
private theorem schedule_serves {call : Call ι} {s : State ι} (sound : Sound (some call) s) {t : ThreadId}
    {rest : List ThreadId}
    (queue : s.ready = t :: rest)
    (leaves : runnable (s.thread s.current).state = false ∧ (s.thread t).state = .stopped ∨ call ≠ .exit ∧
    ∀ x, call ≠ .semaDec x) :
    Serves (threadSchedule call) s fun x => credit x s := by
  have apart := sound.current_ne queue
  have found : findRunnable s = .done t { s with ready := rest } := by
    unfold findRunnable
    rw [bind_done (get_run s)]
    simp only [queue]
    rfl
  unfold threadSchedule
  apply Ensures.get
  apply Ensures.bind_returns found
  apply Ensures.modify
  apply Ensures.get
  simp only [decide_eq_false apart]
  have awake : (s.thread t).state = .ready ∨ runnable (s.thread s.current).state = true →
      call ≠ .exit ∧ ∀ x, call ≠ .semaDec x := by
    intro goes
    rcases leaves with ⟨sleeps, stopped⟩ | awake
    · rw [sleeps, stopped] at goes
      rcases goes with new | run
      · cases new
      · cases run
    · exact awake
  rcases sound.parked t (head_ready queue) with ⟨new, top⟩ | ⟨stopped, saved, returns, base⟩
  · simp only [new]
    refine Ensures.returns rfl (Handed.serves ?_ sound queue (.inl ⟨top, rfl⟩))
    refine ⟨.inr ⟨rfl, ?_, awake (.inl new)⟩, rfl, ?_, ?_, rfl, rfl⟩
    · simp [State.setState, State.setBase, State.queueAdd, apart]
    · intro other first second
      simp [State.setState, State.setBase, State.queueAdd, first, second]
    · simp [State.setState, State.setBase, State.queueAdd, apart]
  · simp only [stopped]
    cases run : runnable (s.thread s.current).state with
    | true =>
      apply Ensures.modify
      apply Ensures.modify
      apply Ensures.modify
      apply Ensures.modify
      refine switch_serves sound queue returns base (.inr ⟨rfl, ?_, awake (.inr run)⟩) rfl ?_ ?_ rfl rfl
      · simp [State.setState, State.queueAdd, apart]
      · intro other first second
        simp [State.setState, State.queueAdd, first, second]
      · simp [State.setState, State.queueAdd, apart.symm]
    | false =>
      apply Ensures.modify
      apply Ensures.modify
      refine switch_serves sound queue returns base (.inl rfl) rfl ?_ ?_ rfl rfl
      · intro other first second
        simp [State.setState, second]
      · simp [State.setState]

/-- A thread that gives up the CPU, after its state and the queues say why. -/
private theorem yield_serves {call : Call ι} {s : State ι} (sound : Sound (some call) s)
    (leaves : runnable (s.thread s.current).state = false ∧ (∀ t ∈ s.ready.head?, (s.thread t).state = .stopped) ∨
      call = .threadYield) : Serves (threadYield call) s fun x => credit x s := by
  unfold threadYield
  apply Ensures.get
  cases queue : s.ready with
  | nil =>
    cases run : runnable (s.thread s.current).state with
    | false => exact rfl
    | true =>
      rcases leaves with ⟨sleeps, _⟩ | rfl
      · rw [sleeps] at run
        cases run
      · refine ⟨sound.settle fun x member => ?_, nofun, fun x => Nat.le_refl _⟩
        cases sound.leaving x member
  | cons t rest =>
    have goes : runnable (s.thread s.current).state = false ∧ (s.thread t).state = .stopped ∨
        call ≠ .exit ∧ ∀ x, call ≠ .semaDec x := by
      rcases leaves with ⟨sleeps, stopped⟩ | rfl
      · exact .inl ⟨sleeps, stopped t (by rw [queue]; rfl)⟩
      · exact .inr ⟨nofun, nofun⟩
    cases run : runnable (s.thread s.current).state with
    | false => exact schedule_serves sound queue goes
    | true =>
      apply Ensures.modify
      exact schedule_serves (s := { s with exited := [] }) (sound.keep rfl rfl rfl (fun _ => rfl) rfl) queue goes

private theorem create_serves {s : State ι} (sound : Sound none s) : Serves threadCreate s fun x => credit x s := by
  have grown := sound.create s.exited
  unfold threadCreate
  apply Ensures.modify
  apply Ensures.modify
  apply Ensures.modify
  obtain ⟨t, rest, queue⟩ : ∃ t rest, s.ready ++ [s.created + 1] = t :: rest :=
    List.exists_cons_of_ne_nil (List.append_ne_nil_of_right_ne_nil _ (List.cons_ne_nil _ _))
  refine (schedule_serves grown queue (.inr ⟨nofun, nofun⟩)).weaken fun control after served => ?_
  refine ⟨served.1, served.2.1, fun x => (served.2.2 x).trans_eq ?_⟩
  have known : ∀ t ∈ s.ready, t ≠ s.created + 1 := fun t member =>
    Nat.ne_of_lt (Nat.lt_succ_of_le (sound.readyKnown t member))
  unfold credit
  simp only [List.countP_append, List.countP_singleton, Function.update_self]
  rw [List.countP_congr fun t member => by rw [Function.update_of_ne (known t member)]]
  rfl

private theorem credit_setState {s : State ι} {t : ThreadId} (state : Status) (x : ι) :
    credit x (s.setState t state) = credit x s := by
  unfold credit
  congr 1
  apply List.countP_congr
  intro u _
  by_cases same : u = t
  · simp [State.setState, Thread.released, same]
  · simp [State.setState, same]

omit [DecidableEq ι] in
theorem setState_state (s : State ι) (t : ThreadId) (state : Status) :
    ((s.setState t state).thread t).state = state := by
  simp [State.setState]

omit [DecidableEq ι] in
/-- A stopped head of the ready queue is another thread. -/
private theorem stopped_setState {s : State ι} (sound : Sound none s) (state : Status)
    (prudent : ∀ t ∈ s.ready.head?, (s.thread t).state = .stopped) :
    ∀ t ∈ s.ready.head?, ((s.setState s.current state).thread t).state = .stopped := by
  intro t head
  have apart : t ≠ s.current := by
    rintro rfl
    exact sound.running (List.mem_of_mem_head? head)
  simp only [State.setState, Function.update_of_ne apart]
  exact prudent t head

private theorem credit_setSema (s : State ι) (x y : ι) (value : Sema) :
    credit x (s.setSema y value) + (s.sema x).count.toNat =
      credit x s + if x = y then value.count.toNat else (s.sema x).count.toNat := by
  unfold credit State.setSema
  by_cases same : x = y
  · simp only [same, Function.update_self, if_true]
    omega
  · simp only [Function.update_of_ne same, if_neg same]

/-- Only the line of waiting threads is different. -/
private theorem sound_setCount {s : State ι} (sound : Sound none s) (y : ι) (count : UInt32) :
    Sound none (s.setSema y { s.sema y with count }) := by
  refine sound.keep rfl rfl rfl (fun x => ?_) rfl
  by_cases same : x = y
  · simp [State.setSema, same]
  · simp [State.setSema, same]

private theorem exit_serves {s : State ι} (sound : Sound none s)
    (prudent : ∀ t ∈ s.ready.head?, (s.thread t).state = .stopped) :
    Serves threadExit s fun x => credit x s := by
  unfold threadExit
  apply Ensures.modify
  apply Ensures.modify
  have exits : Sound (some .exit) (s.setState s.current .terminated) := (sound.setState .terminated).settle sound.awake
  have kept : Sound (some .exit) { s.setState s.current .terminated with exited := s.exited ++ [s.current] } :=
    exits.keep rfl rfl rfl (fun _ => rfl) rfl
  have sleeps : runnable ((s.setState s.current .terminated).thread s.current).state = false := by
    rw [setState_state]
    rfl
  refine (yield_serves kept (.inl ⟨sleeps, stopped_setState sound .terminated prudent⟩)).weaken
    fun control after served => ?_
  exact ⟨served.1, served.2.1, fun x => (served.2.2 x).trans_eq (credit_setState (s := s) .terminated x)⟩

private theorem dec_serves {s : State ι} (sound : Sound none s) (y : ι)
    (prudent : (s.sema y).count = 0 → ∀ t ∈ s.ready.head?, (s.thread t).state = .stopped) :
    Serves (semaDec y) s fun x => credit x s := by
  unfold semaDec
  apply Ensures.get
  cases zero : decide ((s.sema y).count = 0) with
  | true =>
    apply Ensures.modify
    apply Ensures.modify
    have kept := (sound.setState .blocked).block y
    have sleeps : runnable ((s.setState s.current .blocked).thread s.current).state = false := by
      rw [setState_state]
      rfl
    have stopped := stopped_setState sound .blocked (prudent (of_decide_eq_true zero))
    refine (yield_serves kept (.inl ⟨sleeps, stopped⟩)).weaken fun control after served => ?_
    refine ⟨served.1, served.2.1, fun x => (served.2.2 x).trans_eq ?_⟩
    have counted := credit_setSema (s.setState s.current .blocked) x y
      { s.sema y with queueWait := (s.sema y).queueWait ++ [s.current] }
    rw [credit_setState] at counted
    have same : (if x = y then (s.sema y).count.toNat else (s.sema x).count.toNat) = (s.sema x).count.toNat := by
      split <;> simp_all
    exact Nat.add_right_cancel (counted.trans (congrArg _ same))
  | false =>
    have positive := of_decide_eq_false zero
    apply Ensures.modify
    refine ⟨sound_setCount sound y _, nofun, fun x => ?_⟩
    have counted := credit_setSema s x y { s.sema y with count := (s.sema y).count - 1 }
    have lower : ((s.sema y).count - 1).toNat + 1 = (s.sema y).count.toNat := by
      have nonzero : (s.sema y).count.toNat ≠ 0 := fun zero => positive (UInt32.toNat_inj.mp zero)
      have bound := UInt32.toNat_lt (s.sema y).count
      rw [UInt32.toNat_sub, UInt32.toNat_one]
      omega
    unfold gain
    by_cases same : x = y
    · subst same
      rw [if_pos rfl] at counted ⊢
      dsimp only at counted ⊢
      omega
    · rw [if_neg same] at counted
      rw [if_neg fun back => same (Call.semaDec.inj (Control.returns.inj back)).symm]
      dsimp only at counted ⊢
      omega

private theorem credit_queueAdd (s : State ι) (t : ThreadId) (x : ι) :
    credit x (s.queueAdd t) = credit x s + if (s.thread t).released x then 1 else 0 := by
  unfold credit State.queueAdd
  simp only [List.countP_append, List.countP_singleton]
  omega

private theorem inc_serves {s : State ι} (sound : Sound none s) (y : ι) :
    Serves (semaInc y) s fun x => credit x s + if x = y then 1 else 0 := by
  unfold semaInc
  apply Ensures.get
  cases queue : (s.sema y).queueWait with
  | cons t rest =>
    apply Ensures.modify
    apply Ensures.modify
    apply Ensures.modify
    refine ⟨sound.release queue, nofun, fun x => ?_⟩
    have none : gain x (.returns (.semaInc y)) = 0 := if_neg nofun
    rw [none]
    have waits : t ∈ (s.sema y).queueWait := by
      rw [queue]
      exact List.mem_cons_self
    have apart : t ≠ s.current := by
      rintro rfl
      exact sound.awake y waits
    have released : (((s.setSema y { s.sema y with queueWait := rest }).setState t .stopped).thread t).released x =
        decide (y = x) := by
      simp [State.setState, State.setSema, Thread.released, sound.inside y t waits apart]
    have counted := credit_setSema s x y { s.sema y with queueWait := rest }
    have state := credit_setState (s := s.setSema y { s.sema y with queueWait := rest }) (t := t) .stopped x
    have added := credit_queueAdd ((s.setSema y { s.sema y with queueWait := rest }).setState t .stopped) t x
    rw [released, state] at added
    rw [added]
    dsimp only at counted ⊢
    by_cases same : x = y
    · rw [if_pos same] at counted ⊢
      subst same
      rw [if_pos (decide_eq_true rfl)]
      omega
    · rw [if_neg same] at counted ⊢
      rw [if_neg fun equal => same (of_decide_eq_true equal).symm]
      omega
  | nil =>
    apply Ensures.modify
    refine ⟨sound_setCount sound y _, nofun, fun x => ?_⟩
    have counted := credit_setSema s x y { s.sema y with count := (s.sema y).count + 1 }
    have upper : ((s.sema y).count + 1).toNat ≤ (s.sema y).count.toNat + 1 := by
      rw [UInt32.toNat_add, UInt32.toNat_one]
      exact Nat.mod_le _ _
    have none : gain x (.returns (.semaInc y)) = 0 := if_neg nofun
    rw [none]
    dsimp only at counted ⊢
    split
    · rename_i same
      subst same
      rw [if_pos rfl] at counted
      omega
    · rename_i other
      rw [if_neg other] at counted
      omega

/-- A thread that blocks or exits does not make room for one that has not run yet. -/
def Prudent (s : State ι) (turn : Turn ι) : Prop :=
  match turn.call with
  | .semaDec x => (s.sema x).count = 0 → ∀ t ∈ s.ready.head?, (s.thread t).state = .stopped
  | .exit => ∀ t ∈ s.ready.head?, (s.thread t).state = .stopped
  | _ => True

omit [DecidableEq ι] in
instance (s : State ι) : (turn : Turn ι) → Decidable (Prudent s turn)
  | ⟨_, .semaDec x, _⟩ =>
    inferInstanceAs (Decidable ((s.sema x).count = 0 → ∀ t ∈ s.ready.head?, (s.thread t).state = .stopped))
  | ⟨_, .exit, _⟩ => inferInstanceAs (Decidable (∀ t ∈ s.ready.head?, (s.thread t).state = .stopped))
  | ⟨_, .threadYield, _⟩ | ⟨_, .threadCreate, _⟩ | ⟨_, .semaInc _, _⟩ => inferInstanceAs (Decidable True)


private theorem perform_serves {s : State ι} (sound : Sound none s) {turn : Turn ι} (prudent : Prudent s turn) :
    Serves (perform turn.call) s fun x => credit x s + if turn.call = .semaInc x then 1 else 0 := by
  obtain ⟨thread, call, control⟩ := turn
  cases call with
  | threadYield =>
    have ready : Sound (some .threadYield) s := sound.settle sound.awake
    refine (yield_serves ready (.inr rfl)).weaken fun control after served => ?_
    exact ⟨served.1, served.2.1, fun x => Nat.le_add_right_of_le (served.2.2 x)⟩
  | threadCreate =>
    refine (create_serves sound).weaken fun control after served => ?_
    exact ⟨served.1, served.2.1, fun x => Nat.le_add_right_of_le (served.2.2 x)⟩
  | semaInc y =>
    refine (inc_serves sound y).weaken fun control after served => ?_
    refine ⟨served.1, served.2.1, fun x => (served.2.2 x).trans_eq ?_⟩
    have same : (x = y) = (Call.semaInc y = Call.semaInc x) :=
      propext ⟨fun same => same ▸ rfl, fun same => (Call.semaInc.inj same).symm⟩
    simp only [same]
  | semaDec y =>
    refine (dec_serves sound y prudent).weaken fun control after served => ?_
    exact ⟨served.1, served.2.1, fun x => Nat.le_add_right_of_le (served.2.2 x)⟩
  | exit =>
    refine (exit_serves sound prudent).weaken fun control after served => ?_
    exact ⟨served.1, served.2.1, fun x => Nat.le_add_right_of_le (served.2.2 x)⟩

/-- One turn: what is owed and what has been returned stay within what was given. -/
theorem step_credit {before after : State ι} {turn : Turn ι} (sound : Sound none before) (prudent : Prudent before turn)
    (step : Step before turn after) :
    Sound none after ∧ ∀ x, credit x after + gain x turn.control ≤ credit x before + if turn.call = .semaInc x then 1
        else 0 := by
  have serves := perform_serves sound prudent
  unfold Step State.turn at step
  cases ran : perform turn.call before with
  | halted reason stopped =>
    rw [ran] at step
    cases step
  | done control reached =>
    rw [ran] at step
    simp only [Option.ite_none_right_eq_some, Option.some.injEq] at step
    obtain ⟨⟨_, rfl, _⟩, rfl⟩ := step
    have served := serves.done ran
    exact ⟨served.1, served.2.2⟩

omit [DecidableEq ι] in
theorem boot_sound (count : ι → UInt32) (state : Status) : Sound none (boot count state) := by
  constructor <;> simp [boot]

/-- The first thread blocks in favour of one it has created, which releases it. -/
def orderlyTurns : List (Turn Unit) :=
  [⟨0, .threadCreate, .enters⟩, ⟨1, .threadYield, .returns .threadCreate⟩, ⟨0, .semaDec (), .returns .threadYield⟩,
    ⟨1, .semaInc (), .returns (.semaInc ())⟩, ⟨1, .exit, .returns (.semaDec ())⟩]

/-- The first thread blocks while the second thread it has created still has to run. -/
def earlyTurns : List (Turn Unit) :=
  [⟨0, .threadCreate, .enters⟩, ⟨1, .threadCreate, .returns .threadCreate⟩, ⟨0, .semaDec (), .enters⟩,
    ⟨2, .threadYield, .returns .threadCreate⟩, ⟨1, .threadYield, .returns (.semaDec ())⟩]

end Egos.Threads
