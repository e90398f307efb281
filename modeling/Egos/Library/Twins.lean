import Egos.Library.Effect

/-! What a program can do to a part of the state, whatever its calls return, and what two
programs do that run in states that look alike. -/

namespace Egos.Library.Effect

variable {Op : Type} {Reply : Op → Type} {σ ε α β γ δ : Type}

/-- Every call of the program is allowed and every value that it can return is as wanted. -/
def Gives (allowed : Op → Prop) (wanted : α → Prop) : Effect Reply ε α → Prop
  | .pure value => wanted value
  | .halt _ => True
  | .call op next => allowed op ∧ ∀ reply, (next reply).Gives allowed wanted

namespace Gives
variable {allowed : Op → Prop} {wanted : α → Prop} {program : Effect Reply ε α}

theorem weaken {middle : α → Prop} (gives : program.Gives allowed middle)
    (implies : ∀ value, middle value → wanted value) :
    program.Gives allowed wanted := by
  induction program with
  | pure value => exact implies value gives
  | halt reason => trivial
  | call op next ih => exact ⟨gives.1, fun reply => ih reply (gives.2 reply)⟩

theorem bind {next : α → Effect Reply ε β} {last : β → Prop} (first : program.Gives allowed wanted)
    (rest : ∀ value, wanted value → (next value).Gives allowed last) : (program >>= next).Gives allowed last := by
  induction program with
  | pure value => exact rest value first
  | halt reason => trivial
  | call op continuation ih => exact ⟨first.1, fun reply => ih reply (first.2 reply)⟩

theorem call {op : Op} {next : Reply op → Effect Reply ε β} {last : β → Prop} (fine : allowed op)
    (rest : ∀ reply, (next reply).Gives allowed last) : (perform op >>= next).Gives allowed last := ⟨fine, rest⟩

theorem ite {condition : Prop} [Decidable condition] {other : Effect Reply ε α} (yes : program.Gives allowed wanted)
    (no : other.Gives allowed wanted) : (if condition then program else other).Gives allowed wanted := by
  split_ifs
  · exact yes
  · exact no

/-- What the allowed calls keep holds of the state at the end, also of a program that halts. -/
theorem run {serve : (op : Op) → Prog σ ε (Reply op)} {holds : σ → Prop}
    (kept : ∀ op, allowed op → ∀ state, holds state → holds (serve op state).state)
    (gives : program.Gives allowed wanted) {state : σ}
    (start : holds state) :
    holds (program.run serve state).state ∧ ∀ value after, program.run serve state = .done value after →
        wanted value := by
  induction program generalizing state with
  | pure value =>
    refine ⟨start, fun other after ran => ?_⟩
    cases ran
    exact gives
  | halt reason => exact ⟨start, fun other after ran => nomatch ran⟩
  | call op next ih =>
    have first := kept op gives.1 state start
    cases served : serve op state with
    | done reply middle =>
      rw [served] at first
      have same : (Effect.call op next).run serve state = (next reply).run serve middle := Prog.bind_done served
      rw [same]
      exact ih reply (gives.2 reply) first
    | halted reason middle =>
      rw [served] at first
      have same : (Effect.call op next).run serve state = .halted reason middle := Prog.bind_halted served
      rw [same]
      exact ⟨first, fun other after ran => nomatch ran⟩

end Gives

/-- From related states both programs return, or both halt for the same reason, in related states. -/
def Twins (serve : (op : Op) → Prog σ ε (Reply op)) (related : σ → σ → Prop) (first : Effect Reply ε α)
    (second : Effect Reply ε β)
    (wanted : α → β → Prop) : Prop :=
  ∀ s t, related s t → match first.run serve s, second.run serve t with
    | .done a after, .done b other => related after other ∧ wanted a b
    | .halted reason after, .halted cause other => reason = cause ∧ related after other
    | _, _ => False

namespace Twins
variable {serve : (op : Op) → Prog σ ε (Reply op)} {related : σ → σ → Prop} {first : Effect Reply ε α}
    {second : Effect Reply ε β}
  {wanted : α → β → Prop}

theorem returns {a : α} {b : β} (holds : wanted a b) :
    Twins serve related (pure a) (pure b) wanted := fun _ _ alike => ⟨alike, holds⟩

theorem halts (reason : ε) :
    Twins serve related (.halt reason : Effect Reply ε α) (.halt reason : Effect Reply ε β) wanted :=
  fun _ _ alike => ⟨rfl, alike⟩

theorem ite {condition : Prop} [Decidable condition] {left : Effect Reply ε α} {right : Effect Reply ε β}
    (yes : Twins serve related first second wanted) (no : Twins serve related left right wanted) :
    Twins serve related (if condition then first else left) (if condition then second else right) wanted := by
  split_ifs
  · exact yes
  · exact no

theorem weaken {middle : α → β → Prop} (twins : Twins serve related first second middle)
    (implies : ∀ a b, middle a b → wanted a b) :
    Twins serve related first second wanted := by
  intro s t alike
  have ended := twins s t alike
  cases left : first.run serve s with
  | done a after =>
    cases right : second.run serve t with
    | done b other =>
      rw [left, right] at ended
      exact ⟨ended.1, implies a b ended.2⟩
    | halted cause other =>
      rw [left, right] at ended
      exact ended
  | halted reason after =>
    cases right : second.run serve t with
    | done b other =>
      rw [left, right] at ended
      exact ended
    | halted cause other =>
      rw [left, right] at ended
      exact ended

theorem bind {next : α → Effect Reply ε γ} {rest : β → Effect Reply ε δ} {last : γ → δ → Prop}
    (begin_ : Twins serve related first second wanted)
    (continue_ : ∀ a b, wanted a b → Twins serve related (next a) (rest b) last) :
    Twins serve related (first >>= next) (second >>= rest) last := by
  intro s t alike
  have middle := begin_ s t alike
  rw [run_bind, run_bind]
  cases left : first.run serve s with
  | done a after =>
    cases right : second.run serve t with
    | done b other =>
      rw [left, right] at middle
      rw [Prog.bind_done left, Prog.bind_done right]
      exact continue_ a b middle.2 after other middle.1
    | halted cause other =>
      rw [left, right] at middle
      exact middle.elim
  | halted reason after =>
    cases right : second.run serve t with
    | done b other =>
      rw [left, right] at middle
      exact middle.elim
    | halted cause other =>
      rw [left, right] at middle
      rw [Prog.bind_halted left, Prog.bind_halted right]
      exact middle

/-- A program whose calls have the same replies in related states is its own twin. -/
theorem same {visible : Op → Prop} (replies : ∀ op, visible op → ∀ s t, related s t → ∃ reply after other,
      serve op s = .done reply after ∧ serve op t = .done reply other ∧ related after other)
    {program : Effect Reply ε α} {given : α → Prop} (sees : program.Gives visible given) :
    Twins serve related program program fun a b => a = b ∧ given a := by
  induction program with
  | pure value => exact fun s t alike => ⟨alike, rfl, sees⟩
  | halt reason => exact fun s t alike => ⟨rfl, alike⟩
  | call op next ih =>
    intro s t alike
    obtain ⟨reply, after, other, left, right, still⟩ := replies op sees.1 s t alike
    have one : (Effect.call op next).run serve s = (next reply).run serve after := Prog.bind_done left
    have two : (Effect.call op next).run serve t = (next reply).run serve other := Prog.bind_done right
    rw [one, two]
    exact ih reply (sees.2 reply) after other still

end Twins

end Egos.Library.Effect
