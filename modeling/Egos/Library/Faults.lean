import Egos.Library.Effect

/-! Programs on top of a service that may fail. An oracle decides what becomes of each
access: it is served, it fails and changes nothing, or the process is cut off before it. -/

namespace Egos.Library

inductive Fate where
  | served
  | fails
  | cut
  deriving DecidableEq

/-- A state together with the fates of the accesses to come. -/
structure Faulty (σ : Type) where
  state : σ
  fates : Nat → Fate

namespace Faulty
variable {Op : Type} {Reply : Op → Type} {σ ε : Type}

/-- Serves a call. `failure` is the reply of an access that fails; what has none cannot fail. A
process that is cut off halts without a reason. -/
def serve (serve : (op : Op) → Prog σ ε (Reply op)) (failure : (op : Op) → Option (Reply op)) (op : Op) :
    Prog (Faulty σ) (Option ε) (Reply op) := fun faulty =>
  let served (fates : Nat → Fate) : Outcome (Faulty σ) (Option ε) (Reply op) :=
    match serve op faulty.state with
    | .done reply state => .done reply { state, fates }
    | .halted reason state => .halted (some reason) { state, fates }
  match failure op with
  | none => served faulty.fates
  | some reply =>
    let later (k : Nat) : Fate := faulty.fates (k + 1)
    match faulty.fates 0 with
    | .served => served later
    | .fails => .done reply { state := faulty.state, fates := later }
    | .cut => .halted none { state := faulty.state, fates := later }

/-- An access that returned was served, or it failed and changed nothing. -/
theorem serve_returns {service : (op : Op) → Prog σ ε (Reply op)} {failure : (op : Op) → Option (Reply op)}
    {op : Op} {reply lost : Reply op}
    {faulty after : Faulty σ} (failing : failure op = some lost)
    (ran : serve service failure op faulty = .done reply after) :
    after.fates = (fun k => faulty.fates (k + 1)) ∧
      (faulty.fates 0 = .served ∧ service op faulty.state = .done reply after.state ∨
        faulty.fates 0 = .fails ∧ reply = lost ∧ after.state = faulty.state) := by
  unfold serve at ran
  rw [failing] at ran
  cases fate : faulty.fates 0 with
  | served =>
    simp only [fate] at ran
    cases served : service op faulty.state with
    | done value state =>
      rw [served] at ran
      cases ran
      exact ⟨rfl, .inl ⟨rfl, rfl⟩⟩
    | halted reason state =>
      rw [served] at ran
      cases ran
  | fails =>
    simp only [fate] at ran
    cases ran
    exact ⟨rfl, .inr ⟨rfl, rfl, rfl⟩⟩
  | cut =>
    simp only [fate] at ran
    cases ran

end Faulty

namespace Effect
variable {Op : Type} {Reply : Op → Type} {σ ε α β : Type}

/-- The program with other names for the reasons for which it halts. -/
def renameHalts {ζ : Type} (name : ε → ζ) : Effect Reply ε α → Effect Reply ζ α
  | .pure value => .pure value
  | .halt reason => .halt (name reason)
  | .call op next => .call op fun reply => (next reply).renameHalts name

theorem renameHalts_bind {ζ : Type} {name : ε → ζ} {program : Effect Reply ε α} {next : α → Effect Reply ε β} :
    (program >>= next).renameHalts name = program.renameHalts name >>= fun value => (next value).renameHalts name := by
  induction program with
  | pure value => rfl
  | halt reason => rfl
  | call op rest ih => simp only [call_bind, renameHalts, ih]

/-- Runs a program on top of the failing service. -/
def runFaulty (serve : (op : Op) → Prog σ ε (Reply op)) (failure : (op : Op) → Option (Reply op))
    (program : Effect Reply ε α) :
    Prog (Faulty σ) (Option ε) α := (program.renameHalts some).run (Faulty.serve serve failure)

section Run
variable {serve : (op : Op) → Prog σ ε (Reply op)} {failure : (op : Op) → Option (Reply op)}

theorem runFaulty_bind {program : Effect Reply ε α} {next : α → Effect Reply ε β} :
    (program >>= next).runFaulty serve failure =
      program.runFaulty serve failure >>= fun value => (next value).runFaulty serve failure := by
  unfold runFaulty
  rw [renameHalts_bind, run_bind]

theorem runFaulty_call (op : Op) (next : Reply op → Effect Reply ε α) :
    (Effect.call op next).runFaulty serve failure =
      Faulty.serve serve failure op >>= fun reply => (next reply).runFaulty serve failure := rfl

/-- A program that goes on after an access that is served. -/
theorem runFaulty_access {op : Op} {next : Reply op → Effect Reply ε α} {state after : σ}
    {reply lost : Reply op} {fates : Nat → Fate}
    (failing : failure op = some lost) (ran : serve op state = .done reply after) (served : fates 0 = .served) :
    (perform op >>= next : Effect Reply ε α).runFaulty serve failure { state, fates } =
      (next reply).runFaulty serve failure { state := after, fates := fun k => fates (k + 1) } := by
  have begun : Faulty.serve serve failure op { state, fates } =
      .done reply { state := after, fates := fun k => fates (k + 1) } := by
    simp only [Faulty.serve, failing, served, ran]
  rw [perform_bind, runFaulty_call, Prog.bind_done begun]

/-- A program that is cut off before its first access. -/
theorem runFaulty_cut {op : Op} {next : Reply op → Effect Reply ε α} {state : σ} {lost : Reply op} {fates : Nat → Fate}
    (failing : failure op = some lost) (cut : fates 0 = .cut) :
    (perform op >>= next : Effect Reply ε α).runFaulty serve failure { state, fates } = .halted none
    { state, fates := fun k => fates (k + 1) } := by
  have begun : Faulty.serve serve failure op { state, fates } =
      .halted none { state, fates := fun k => fates (k + 1) } := by
    simp only [Faulty.serve, failing, cut]
  rw [perform_bind, runFaulty_call, Prog.bind_halted begun]

/-- A program whose accesses are served for long enough ends as it does on the reliable service. -/
theorem runFaulty_served {program : Effect Reply ε α} {state after : σ} {value : α}
    (ran : program.run serve state = .done value after) :
    ∃ k, ∀ fates, (∀ j < k, fates j = .served) →
      program.runFaulty serve failure { state, fates } =
          .done value { state := after, fates := fun j => fates (k + j) } := by
  induction program generalizing state with
  | pure other =>
    cases ran
    exact ⟨0, fun fates _ => by simp only [Nat.zero_add]; rfl⟩
  | halt reason => cases ran
  | call op next ih =>
    obtain ⟨reply, between, first, rest⟩ := Prog.bind_returns.mp ran
    obtain ⟨k, later⟩ := ih reply rest
    cases failing : failure op with
    | none =>
      refine ⟨k, fun fates served => ?_⟩
      have begun : Faulty.serve serve failure op { state, fates } = .done reply { state := between, fates } := by
        simp only [Faulty.serve, failing, first]
      rw [runFaulty_call, Prog.bind_done begun]
      exact later fates served
    | some lost =>
      refine ⟨k + 1, fun fates served => ?_⟩
      have begun : Faulty.serve serve failure op { state, fates } =
          .done reply { state := between, fates := fun j => fates (j + 1) } := by
        simp only [Faulty.serve, failing, served 0 (Nat.succ_pos k), first]
      rw [runFaulty_call, Prog.bind_done begun, later _ fun j less => served (j + 1) (Nat.succ_lt_succ less)]
      congr 2
      funext j
      rw [Nat.add_right_comm]

end Run

/-- Where a program can end from a state, whatever becomes of its accesses: with a value, or cut
off or halted in the middle. -/
def Ends (serve : (op : Op) → Prog σ ε (Reply op)) (failure : (op : Op) → Option (Reply op))
    (program : Effect Reply ε α) (state : σ)
    (returned : α → σ → Prop) (stopped : σ → Prop) : Prop :=
  ∀ fates, match program.runFaulty serve failure { state, fates } with
    | .done value after => returned value after.state
    | .halted _ after => stopped after.state

namespace Ends
variable {serve : (op : Op) → Prog σ ε (Reply op)} {failure : (op : Op) → Option (Reply op)} {state : σ}
    {stopped : σ → Prop}

theorem pure {value : α} {returned : α → σ → Prop} (holds : returned value state) :
    Ends serve failure (Pure.pure value) state returned stopped := fun _ => holds

theorem halt {reason : ε} {returned : α → σ → Prop} (holds : stopped state) :
    Ends serve failure (.halt reason) state returned stopped := fun _ => holds

theorem bind {first : Effect Reply ε α} {next : α → Effect Reply ε β} {middle : α → σ → Prop} {returned : β → σ → Prop}
    (left : Ends serve failure first state middle stopped)
    (right : ∀ value after, middle value after → Ends serve failure (next value) after returned stopped) :
    Ends serve failure (first >>= next) state returned stopped := by
  intro fates
  rw [runFaulty_bind]
  have begun := left fates
  cases ran : first.runFaulty serve failure { state, fates } with
  | done value between =>
    rw [ran] at begun
    rw [Prog.bind_done ran]
    exact right value between.state begun between.fates
  | halted reason between =>
    rw [ran] at begun
    rw [Prog.bind_halted ran]
    exact begun

theorem weaken {program : Effect Reply ε α} {given returned : α → σ → Prop}
    (ends : Ends serve failure program state given stopped)
    (implies : ∀ value after, given value after → returned value after) :
    Ends serve failure program state returned stopped := by
  intro fates
  have ended := ends fates
  cases ran : program.runFaulty serve failure { state, fates } with
  | done value after =>
    rw [ran] at ended
    exact implies value after.state ended
  | halted reason after =>
    rw [ran] at ended
    exact ended

theorem stopped_mono {program : Effect Reply ε α} {returned : α → σ → Prop} {other : σ → Prop}
    (ends : Ends serve failure program state returned stopped) (implies : ∀ after, stopped after → other after) :
    Ends serve failure program state returned other := by
  intro fates
  have ended := ends fates
  cases ran : program.runFaulty serve failure { state, fates } with
  | done value after =>
    rw [ran] at ended
    exact ended
  | halted reason after =>
    rw [ran] at ended
    exact implies after.state ended

theorem done {program : Effect Reply ε α} {returned : α → σ → Prop} {fates : Nat → Fate} {value : α} {after : Faulty σ}
    (ends : Ends serve failure program state returned stopped)
    (ran : program.runFaulty serve failure { state, fates } = .done value after) : returned value after.state := by
  have ended := ends fates
  rw [ran] at ended
  exact ended

/-- Wherever a program ends. -/
theorem ended {program : Effect Reply ε α} {held : σ → Prop}
    (ends : Ends serve failure program state (fun _ => held) held)
    (fates : Nat → Fate) : held (program.runFaulty serve failure { state, fates }).state.state := by
  have holds := ends fates
  cases ran : program.runFaulty serve failure { state, fates } with
  | done value after =>
    rw [ran] at holds
    exact holds
  | halted reason after =>
    rw [ran] at holds
    exact holds

/-- A call that cannot fail. -/
theorem call {op : Op} {next : Reply op → Effect Reply ε α} {reply : Reply op} {after : σ} {returned : α → σ → Prop}
    (reliable : failure op = none) (ran : serve op state = .done reply after)
    (rest : Ends serve failure (next reply) after returned stopped) :
    Ends serve failure (.call op next) state returned stopped := by
  intro fates
  have begun : Faulty.serve serve failure op { state, fates } = .done reply { state := after, fates } := by
    simp only [Faulty.serve, reliable, ran]
  have last := rest fates
  rw [runFaulty_call]
  rw [Prog.bind_done begun]
  exact last

/-- An access: it is served, or it fails, or the process is cut off. -/
theorem access {op : Op} {next : Reply op → Effect Reply ε α} {reply lost : Reply op} {after : σ}
    {returned : α → σ → Prop}
    (failing : failure op = some lost) (ran : serve op state = .done reply after) (cut : stopped state)
    (served : Ends serve failure (next reply) after returned stopped)
    (failed : Ends serve failure (next lost) state returned stopped) :
    Ends serve failure (.call op next) state returned stopped := by
  intro fates
  rw [runFaulty_call]
  cases fate : fates 0 with
  | served =>
    have begun : Faulty.serve serve failure op { state, fates } =
        .done reply { state := after, fates := fun k => fates (k + 1) } := by
      simp only [Faulty.serve, failing, fate, ran]
    rw [Prog.bind_done begun]
    exact served fun k => fates (k + 1)
  | fails =>
    have begun : Faulty.serve serve failure op { state, fates } =
        .done lost { state, fates := fun k => fates (k + 1) } := by
      simp only [Faulty.serve, failing, fate]
    rw [Prog.bind_done begun]
    exact failed fun k => fates (k + 1)
  | cut =>
    have begun : Faulty.serve serve failure op { state, fates } =
        .halted none { state, fates := fun k => fates (k + 1) } := by
      simp only [Faulty.serve, failing, fate]
    rw [Prog.bind_halted begun]
    exact cut

end Ends
end Effect
end Egos.Library
