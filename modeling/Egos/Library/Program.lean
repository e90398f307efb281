import Mathlib.Logic.Basic

/-! Sequential programs over a state that may stop the whole process. A stopped
program keeps the state it reached: what was written before a panic stays written. -/

namespace Egos.Library

inductive Outcome (σ ε α : Type) where
  | done (value : α) (state : σ)
  | halted (reason : ε) (state : σ)

namespace Outcome
variable {σ ε α : Type}

def value? : Outcome σ ε α → Option α
  | .done value _ => some value
  | .halted .. => none

def state : Outcome σ ε α → σ
  | .done _ state => state
  | .halted _ state => state

theorem done_of_value {outcome : Outcome σ ε α} {value : α} (returned : outcome.value? = some value) :
    outcome = .done value outcome.state := by
  cases outcome with
  | done other state =>
    cases returned
    rfl
  | halted reason state => cases returned

end Outcome

/-- A program reads and replaces the state and either returns or halts. -/
def Prog (σ ε α : Type) : Type := σ → Outcome σ ε α

variable {σ ε α β : Type}

namespace Prog

instance : Monad (Prog σ ε) where
  pure value := fun state => .done value state
  bind first next := fun state =>
    match first state with
    | .done value after => next value after
    | .halted reason after => .halted reason after

def halt (reason : ε) : Prog σ ε α := fun state => .halted reason state

def get : Prog σ ε σ := fun state => .done state state

def modify (change : σ → σ) : Prog σ ε Unit := fun state => .done () (change state)

@[simp] theorem pure_run (value : α) (state : σ) : (pure value : Prog σ ε α) state = .done value state := rfl

@[simp] theorem halt_run (reason : ε) (state : σ) : (halt reason : Prog σ ε α) state = .halted reason state := rfl

@[simp] theorem get_run (state : σ) : (get : Prog σ ε σ) state = .done state state := rfl

@[simp] theorem modify_run (change : σ → σ) (state : σ) :
    (modify change : Prog σ ε Unit) state = .done () (change state) := rfl

/-- Sequencing when the first part is known to return. -/
theorem bind_done {first : Prog σ ε α} {next : α → Prog σ ε β} {state after : σ} {value : α}
    (returned : first state = .done value after) : (first >>= next) state = next value after := by
  simp only [bind, returned]

/-- Sequencing when the first part halts. -/
theorem bind_halted {first : Prog σ ε α} {next : α → Prog σ ε β} {state after : σ} {reason : ε}
    (stopped : first state = .halted reason after) : (first >>= next) state = .halted reason after := by
  simp only [bind, stopped]

/-- A sequence that returned went through a state between its two parts. -/
theorem bind_returns {first : Prog σ ε α} {next : α → Prog σ ε β} {state after : σ} {value : β} :
    (first >>= next) state = .done value after ↔
      ∃ middle between, first state = .done middle between ∧ next middle between = .done value after := by
  constructor
  · intro returned
    cases seen : first state with
    | done middle between => exact ⟨middle, between, rfl, (bind_done seen).symm.trans returned⟩
    | halted reason between => rw [bind_halted seen] at returned; cases returned
  · rintro ⟨middle, between, first, next⟩
    exact (bind_done first).trans next

theorem bind_assoc {γ : Type} (first : Prog σ ε α) (next : α → Prog σ ε β) (last : β → Prog σ ε γ) :
    (first >>= next) >>= last = first >>= fun value => next value >>= last := by
  funext state
  simp only [Bind.bind]
  cases first state with
  | done value after => rfl
  | halted reason after => rfl

theorem bind_pure (program : Prog σ ε α) : (program >>= fun value => pure value) = program := by
  funext state
  simp only [Bind.bind]
  cases program state with
  | done value after => rfl
  | halted reason after => rfl

end Prog

/-- The same outcome in another state. -/
def Outcome.mapState (f : σ → σ) : Outcome σ ε α → Outcome σ ε α
  | .done value state => .done value (f state)
  | .halted reason state => .halted reason (f state)

/-- A program on a part of the state. -/
def Prog.focus {τ : Type} (get : τ → σ) (set : σ → τ → τ) (program : Prog σ ε α) : Prog τ ε α := fun state =>
  match program (get state) with
  | .done value part => .done value (set part state)
  | .halted reason part => .halted reason (set part state)

/-- A program that neither depends on what `f` changes nor undoes it. -/
def Prog.Commutes (f : σ → σ) (program : Prog σ ε α) : Prop :=
  ∀ state, program (f state) = (program state).mapState f

namespace Prog.Commutes
variable {f : σ → σ}

theorem pure (value : α) : Commutes f (pure value : Prog σ ε α) := fun _ => rfl

theorem halt (reason : ε) : Commutes f (halt reason : Prog σ ε α) := fun _ => rfl

theorem bind {first : Prog σ ε α} {next : α → Prog σ ε β} (left : Commutes f first)
    (right : ∀ value, Commutes f (next value)) :
    Commutes f (first >>= next) := by
  intro state
  have same := left state
  cases ran : first state with
  | done value after =>
    rw [ran] at same
    rw [bind_done same, bind_done ran]
    exact right value after
  | halted reason after =>
    rw [ran] at same
    rw [bind_halted same, bind_halted ran]
    rfl

end Prog.Commutes
end Egos.Library
