import Mathlib.Logic.Basic

/-! Computations that may fail: the reasons for which they can fail, and what holds of the
values they return. -/

namespace Egos.Library

variable {ε α β σ : Type}

/-- The computation fails only for allowed reasons, and returns only what is wanted. -/
def Yields (allowed : ε → Prop) (wanted : α → Prop) : Except ε α → Prop
  | .ok value => wanted value
  | .error reason => allowed reason

namespace Yields
variable {allowed : ε → Prop} {wanted : α → Prop} {run : Except ε α}

theorem value {result : α} (yields : Yields allowed wanted run) (returned : run = .ok result) : wanted result := by
  rw [returned] at yields
  exact yields

theorem reason {failure : ε} (yields : Yields allowed wanted run) (failed : run = .error failure) :
    allowed failure := by
  rw [failed] at yields
  exact yields

theorem weaken {middle : α → Prop} (yields : Yields allowed middle run)
    (implies : ∀ value, middle value → wanted value) :
    Yields allowed wanted run := by
  cases run with
  | ok result => exact implies result yields
  | error failure => exact yields

theorem both {more : α → Prop} (first : Yields allowed wanted run) (second : Yields allowed more run) :
    Yields allowed (fun result => wanted result ∧ more result) run := by
  cases run with
  | ok result => exact ⟨first, second⟩
  | error failure => exact first

theorem bind {next : α → Except ε β} {last : β → Prop} (first : Yields allowed wanted run)
    (rest : ∀ value, wanted value → Yields allowed last (next value)) : Yields allowed last (run >>= next) := by
  cases run with
  | ok result => exact rest result first
  | error failure => exact first

/-- A loop over a range, with what holds before each round. -/
theorem range {next : σ → Nat → Except ε σ} {holds : Nat → σ → Prop} {start count : Nat}
    (step : ∀ i state, start ≤ i → i < start + count → holds i state → Yields allowed (holds (i + 1)) (next state i))
    {state : σ} (first : holds start state) :
    Yields allowed (holds (start + count)) ((List.range' start count).foldlM next state) := by
  induction count generalizing start state with
  | zero => exact first
  | succ count ih =>
    rw [List.range'_succ, List.foldlM_cons, show start + (count + 1) = start + 1 + count by omega]
    refine (step start state (Nat.le_refl _) (by omega) first).bind fun middle held => ?_
    exact ih (fun i state low high => step i state (by omega) (by omega)) held

end Yields

end Egos.Library
