import Egos.Library.Ensures

/-! What a program leaves behind, also when it stops in the middle. -/

namespace Egos.Library.Prog

variable {σ ε α β : Type}

def Leaves (program : Prog σ ε α) (state : σ) (post : α → σ → Prop) (stop : ε → σ → Prop) : Prop :=
  match program state with
  | .done value after => post value after
  | .halted reason after => stop reason after

namespace Leaves
variable {program : Prog σ ε α} {state : σ} {post : α → σ → Prop} {stop : ε → σ → Prop}

theorem done {value : α} {after : σ} (left : Leaves program state post stop) (ran : program state = .done value after) :
    post value after := by
  unfold Leaves at left
  rw [ran] at left
  exact left

theorem halted {reason : ε} {after : σ} (left : Leaves program state post stop)
    (ran : program state = .halted reason after) :
    stop reason after := by
  unfold Leaves at left
  rw [ran] at left
  exact left

theorem get {next : σ → Prog σ ε α} (rest : Leaves (next state) state post stop) :
    Leaves (Prog.get >>= next) state post stop := rest

theorem modify {change : σ → σ} {next : Unit → Prog σ ε α} (rest : Leaves (next ()) (change state) post stop) :
    Leaves (Prog.modify change >>= next) state post stop := rest

/-- A program on a part of the state leaves the rest as it is. -/
theorem focus {τ : Type} {get : τ → σ} {set : σ → τ → τ} {whole : τ} {post : α → τ → Prop} {stop : ε → τ → Prop}
    (left : Leaves program (get whole) (fun value part => post value (set part whole))
    (fun reason part => stop reason (set part whole))) :
    Leaves (program.focus get set) whole post stop := by
  unfold Leaves at left
  unfold Leaves Prog.focus
  cases ran : program (get whole) with
  | done value part => rw [ran] at left; exact left
  | halted reason part => rw [ran] at left; exact left

theorem bind {first : Prog σ ε α} {next : α → Prog σ ε β} {middle : α → σ → Prop} {between : ε → σ → Prop}
    {post : β → σ → Prop}
    (left : Leaves first state middle between)
    (right : ∀ value after, middle value after → Leaves (next value) after post stop)
    (stops : ∀ reason after, between reason after → stop reason after) : Leaves (first >>= next) state post stop := by
  unfold Leaves at left
  cases ran : first state with
  | done value after =>
    rw [ran] at left
    unfold Leaves
    rw [bind_done ran]
    exact right value after left
  | halted reason after =>
    rw [ran] at left
    unfold Leaves
    rw [bind_halted ran]
    exact stops reason after left

/-- A sequence whose first part does not halt. -/
theorem after {first : Prog σ ε α} {next : α → Prog σ ε β} {middle : α → σ → Prop} {post : β → σ → Prop}
    (left : Ensures (fun _ => False) first state middle)
    (right : ∀ value after, middle value after → Leaves (next value) after post stop) :
    Leaves (first >>= next) state post stop := by
  obtain ⟨value, between, ran, holds⟩ := left.total
  unfold Leaves
  rw [bind_done ran]
  exact right value between holds

/-- A sequence whose first part halts. -/
theorem bind_halts {first : Prog σ ε α} {next : α → Prog σ ε β} {last : σ} {reason : ε} {post : β → σ → Prop}
    (ran : first state = .halted reason last) (stopped : stop reason last) :
    Leaves (first >>= next) state post stop := by
  unfold Leaves
  rw [bind_halted ran]
  exact stopped

/-- The part of a program that is known to return can be run. -/
theorem bind_returns {first : Prog σ ε α} {next : α → Prog σ ε β} {after : σ} {value : α} {post : β → σ → Prop}
    (ran : first state = .done value after) (rest : Leaves (next value) after post stop) :
    Leaves (first >>= next) state post stop := by
  unfold Leaves
  rw [bind_done ran]
  exact rest

theorem returns {value : α} {after : σ} (ran : program state = .done value after) (holds : post value after) :
    Leaves program state post stop := by
  unfold Leaves
  rw [ran]
  exact holds

theorem of_ensures {stops : ε → Prop} (ensured : Ensures stops program state post) :
    Leaves program state post fun reason _ => stops reason := by
  unfold Ensures at ensured
  unfold Leaves
  cases ran : program state with
  | done value after => rw [ran] at ensured; exact ensured
  | halted reason after => rw [ran] at ensured; exact ensured

theorem weaken {given : α → σ → Prop} {before : ε → σ → Prop} (left : Leaves program state given before)
    (implies : ∀ value after, given value after → post value after)
    (stops : ∀ reason after, before reason after → stop reason after) :
    Leaves program state post stop := by
  unfold Leaves at left ⊢
  cases ran : program state with
  | done value after => rw [ran] at left; exact implies value after left
  | halted reason after => rw [ran] at left; exact stops reason after left

end Leaves

/-- Wherever the program ends, the state is related to the one it has started in. -/
def Tends (rel : σ → σ → Prop) (program : Prog σ ε α) (state : σ) : Prop :=
  Leaves program state (fun _ after => rel state after) fun _ after => rel state after

namespace Tends
variable {rel : σ → σ → Prop} {program : Prog σ ε α} {state : σ}

theorem returns {value : α} {after : σ} (ran : program state = .done value after) (related : rel state after) :
    Tends rel program state :=
  Leaves.returns ran related

theorem modify {change : σ → σ} (related : rel state (change state)) :
    Tends rel (Prog.modify change : Prog σ ε Unit) state := related

theorem get {next : σ → Prog σ ε α} (rest : Tends rel (next state) state) : Tends rel (Prog.get >>= next) state := rest

/-- The state that a program leaves. -/
theorem ends (tends : Tends rel program state) : rel state (program state).state := by
  unfold Tends Leaves at tends
  cases ran : program state with
  | done value after => rw [ran] at tends; exact tends
  | halted reason after => rw [ran] at tends; exact tends

section Refl
variable [Std.Refl rel]

theorem pure (value : α) (state : σ) : Tends rel (Pure.pure value : Prog σ ε α) state := Std.Refl.refl state

theorem halt (reason : ε) (state : σ) : Tends rel (Prog.halt reason : Prog σ ε α) state := Std.Refl.refl state

end Refl

/-- The second part may use what the first one has left. -/
theorem bind [Trans rel rel rel] {first : Prog σ ε α} {next : α → Prog σ ε β} (left : Tends rel first state)
    (right : ∀ value after, first state = .done value after → rel state after → Tends rel (next value) after) :
    Tends rel (first >>= next) state := by
  have related := left.ends
  unfold Tends
  cases ran : first state with
  | done value between =>
    rw [ran] at related
    apply Leaves.bind_returns ran
    exact Leaves.weaken (right value between ran related) (fun _ _ later => Trans.trans related later)
      fun _ _ later => Trans.trans related later
  | halted reason between =>
    rw [ran] at related
    exact Leaves.bind_halts ran related

/-- The first part may be followed by the second one wherever it ends. -/
theorem seq [Trans rel rel rel] {first : Prog σ ε α} {next : α → Prog σ ε β} (left : Tends rel first state)
    (right : ∀ value after, rel state after → Tends rel (next value) after) : Tends rel (first >>= next) state :=
  left.bind fun value after _ => right value after

end Tends
end Egos.Library.Prog
