import Egos.Library.Effect

/-! What a program ensures from a given state. The reasons for which it may halt
are bounded too, so that a proof also shows that assertions of the program hold. -/

namespace Egos.Library.Prog

variable {σ ε α β : Type}

def Ensures (stops : ε → Prop) (program : Prog σ ε α) (state : σ) (post : α → σ → Prop) : Prop :=
  match program state with
  | .done value after => post value after
  | .halted reason _ => stops reason

namespace Ensures
variable {stops : ε → Prop} {program : Prog σ ε α} {state : σ} {post : α → σ → Prop}

theorem returns {value : α} {after : σ} (ran : program state = .done value after) (holds : post value after) :
    Ensures stops program state post := by
  unfold Ensures
  rw [ran]
  exact holds

theorem done {value : α} {after : σ} (ensured : Ensures stops program state post)
    (ran : program state = .done value after) :
    post value after := by
  unfold Ensures at ensured
  rw [ran] at ensured
  exact ensured

/-- A program that has no reason to halt returns. -/
theorem total (ensured : Ensures (fun _ => False) program state post) :
    ∃ value after, program state = .done value after ∧ post value after := by
  unfold Ensures at ensured
  cases ran : program state with
  | done value after =>
    rw [ran] at ensured
    exact ⟨value, after, rfl, ensured⟩
  | halted reason after =>
    rw [ran] at ensured
    exact ensured.elim

theorem pure {value : α} (holds : post value state) : Ensures stops (pure value) state post := holds

theorem halt {reason : ε} (stopped : stops reason) : Ensures stops (Prog.halt reason : Prog σ ε α) state post :=
  stopped

theorem get {next : σ → Prog σ ε α} (rest : Ensures stops (next state) state post) :
    Ensures stops (Prog.get >>= next) state post := rest

theorem modify {change : σ → σ} {next : Unit → Prog σ ε α} (rest : Ensures stops (next ()) (change state) post) :
    Ensures stops (Prog.modify change >>= next) state post := rest

theorem bind {first : Prog σ ε α} {next : α → Prog σ ε β} {middle : α → σ → Prop} {post : β → σ → Prop}
    (left : Ensures stops first state middle)
    (right : ∀ value after, middle value after → Ensures stops (next value) after post) :
    Ensures stops (first >>= next) state post := by
  unfold Ensures at left
  cases ran : first state with
  | done value after =>
    rw [ran] at left
    unfold Ensures
    rw [bind_done ran]
    exact right value after left
  | halted reason after =>
    rw [ran] at left
    unfold Ensures
    rw [bind_halted ran]
    exact left

/-- The part of a program that is known to return can be run. -/
theorem bind_returns {first : Prog σ ε α} {next : α → Prog σ ε β} {after : σ} {value : α} {post : β → σ → Prop}
    (ran : first state = .done value after) (rest : Ensures stops (next value) after post) :
    Ensures stops (first >>= next) state post := by
  unfold Ensures
  rw [bind_done ran]
  exact rest

/-- A sequence whose first part halts. -/
theorem bind_halts {first : Prog σ ε α} {next : α → Prog σ ε β} {after : σ} {reason : ε} {post : β → σ → Prop}
    (ran : first state = .halted reason after) (stopped : stops reason) :
    Ensures stops (first >>= next) state post := by
  unfold Ensures
  rw [bind_halted ran]
  exact stopped

theorem weaken {given : α → σ → Prop} (ensured : Ensures stops program state given)
    (implies : ∀ value after, given value after → post value after) : Ensures stops program state post := by
  unfold Ensures at ensured ⊢
  cases ran : program state with
  | done value after => rw [ran] at ensured; exact implies value after ensured
  | halted reason after => rw [ran] at ensured; exact ensured

theorem stops_mono {fewer : ε → Prop} (ensured : Ensures fewer program state post)
    (implies : ∀ reason, fewer reason → stops reason) : Ensures stops program state post := by
  unfold Ensures at ensured ⊢
  cases ran : program state with
  | done value after => rw [ran] at ensured; exact ensured
  | halted reason after => rw [ran] at ensured; exact implies reason ensured

/-- What is known of a program from two sides. -/
theorem both {other : ε → Prop} {more : α → σ → Prop} (first : Ensures stops program state post)
    (second : Ensures other program state more) :
    Ensures stops program state fun value after => post value after ∧ more value after := by
  unfold Ensures at first second ⊢
  cases ran : program state with
  | done value after => rw [ran] at first second; exact ⟨first, second⟩
  | halted reason after => rw [ran] at first; exact first

end Ensures

/-- A part of the state that a program leaves alone, also when it halts. -/
def Keeps {τ : Type} (view : σ → τ) (program : Prog σ ε α) : Prop :=
  ∀ state, match program state with
    | .done _ after => view after = view state
    | .halted _ after => view after = view state

namespace Keeps
variable {τ : Type} {view : σ → τ} {program : Prog σ ε α}

theorem ensures (keeps : Keeps view program) (state : σ) :
    Ensures (fun _ => True) program state fun _ after => view after = view state := by
  have kept := keeps state
  unfold Ensures
  cases ran : program state with
  | done value after => rw [ran] at kept; exact kept
  | halted reason after => trivial

theorem pure (value : α) : Keeps view (Pure.pure value : Prog σ ε α) := fun _ => rfl

theorem halt (reason : ε) : Keeps view (Prog.halt reason : Prog σ ε α) := fun _ => rfl

theorem get {next : σ → Prog σ ε α} (rest : ∀ state, Keeps view (next state)) : Keeps view (Prog.get >>= next) :=
  fun state => rest state state

theorem modify {change : σ → σ} (same : ∀ state, view (change state) = view state) :
    Keeps view (Prog.modify change : Prog σ ε Unit) := same

theorem bind {first : Prog σ ε α} {next : α → Prog σ ε β} (left : Keeps view first)
    (right : ∀ value, Keeps view (next value)) :
    Keeps view (first >>= next) := by
  intro state
  have kept := left state
  cases ran : first state with
  | done value between =>
    rw [ran] at kept
    rw [bind_done ran]
    have later := right value between
    cases last : next value between with
    | done _ after => rw [last] at later; exact later.trans kept
    | halted _ after => rw [last] at later; exact later.trans kept
  | halted reason between =>
    rw [ran] at kept
    rw [bind_halted ran]
    exact kept

/-- A program of calls that all leave the part alone. -/
theorem run {Op : Type} {Reply : Op → Type} {serve : (op : Op) → Prog σ ε (Reply op)} {allowed : Op → Prop}
    {calls : Effect Reply ε α}
    (serves : ∀ op, allowed op → Keeps view (serve op)) (uses : calls.Uses allowed fun _ => True) :
    Keeps view (calls.run serve) := by
  induction calls with
  | pure value => exact pure value
  | halt reason => exact halt reason
  | call op next ih => exact (serves op uses.1).bind fun reply => ih reply (uses.2 reply)

end Keeps
end Egos.Library.Prog
