import Mathlib.Logic.Basic

/-! Runs of labelled transition systems. An invariant is proved once for a step
and holds along every run; a guard restricts a system to the steps that meet a
condition on the state they start in. -/

namespace Egos.Library

variable {σ ε τ : Type}

/-- `Run step before labels after`: the labels, in order, lead from one state to the other. -/
inductive Run (step : σ → ε → σ → Prop) : σ → List ε → σ → Prop where
  | nil {state} : Run step state [] state
  | snoc {before labels middle label after} :
      Run step before labels middle → step middle label after → Run step before (labels ++ [label]) after

namespace Run
variable {step : σ → ε → σ → Prop}

/-- An invariant may speak about the labels of the steps made so far. -/
theorem history {holds : List ε → σ → Prop}
    (kept : ∀ labels before label after, holds labels before → step before label after →
    holds (labels ++ [label]) after)
    {before labels after} (run : Run step before labels after) (start : holds [] before) : holds labels after := by
  induction run with
  | nil => exact start
  | snoc _ last ih => exact kept _ _ _ _ ih last

theorem invariant {holds : σ → Prop} (kept : ∀ before label after, holds before → step before label after → holds after)
    {before labels after} (run : Run step before labels after) (start : holds before) : holds after :=
  history (fun _ => kept) run start

theorem mono {other : σ → ε → σ → Prop}
    (implies : ∀ before label after, step before label after → other before label after)
    {before labels after} (run : Run step before labels after) : Run other before labels after := by
  induction run with
  | nil => exact .nil
  | snoc _ last ih => exact .snoc ih (implies _ _ _ last)

theorem append {before first middle second after} (left : Run step before first middle)
    (right : Run step middle second after) : Run step before (first ++ second) after := by
  induction right with
  | nil => simpa using left
  | snoc _ last ih => rw [← List.append_assoc]; exact .snoc ih last

theorem cons {before label middle labels after} (first : step before label middle)
    (rest : Run step middle labels after) : Run step before (label :: labels) after :=
  append (.snoc .nil first) rest

/-- The first labels of a run are those of a run. -/
theorem initial {before labels after first} (run : Run step before labels after) (start : first <+: labels) :
    ∃ middle, Run step before first middle := by
  induction run generalizing first with
  | nil =>
    rw [List.prefix_nil.mp start]
    exact ⟨_, .nil⟩
  | snoc earlier last ih =>
    rcases List.prefix_concat_iff.mp start with rfl | start
    · exact ⟨_, .snoc earlier last⟩
    · exact ih start

theorem stays {before labels after} (run : Run step before labels after) (none : labels = []) : after = before := by
  cases run with
  | nil => rfl
  | snoc => simp at none

/-- Where a part of the label decides what happens, that part of the labels decides the run. -/
theorem agree {κ : Type} {key : ε → κ}
    (functional : ∀ {before label after other last}, step before label after → step before other last →
    key other = key label →
      other = label ∧ last = after)
    {before labels after others last} (first : Run step before labels after) (second : Run step before others last)
    (same : others.map key = labels.map key) : others = labels ∧ last = after := by
  induction first generalizing others last with
  | nil =>
    have none := List.map_eq_nil_iff.mp same
    exact ⟨none, second.stays none⟩
  | snoc earlier step ih =>
    cases second with
    | nil => simp at same
    | snoc begins next =>
      rw [List.map_append, List.map_append] at same
      obtain ⟨same, final⟩ := List.append_inj' same rfl
      obtain ⟨rfl, rfl⟩ := ih begins same
      obtain ⟨rfl, rfl⟩ := functional step next (List.singleton_inj.mp final)
      exact ⟨rfl, rfl⟩

/-- A run of a system whose steps can be computed. -/
theorem of_foldlM {next : σ → ε → Option σ}
    (sound : ∀ {before label after}, next before label = some after → step before label after)
    {before labels after} (ran : labels.foldlM next before = some after) : Run step before labels after := by
  induction labels generalizing before with
  | nil => cases ran; exact .nil
  | cons label labels ih =>
    obtain ⟨middle, first, rest⟩ := Option.bind_eq_some_iff.mp ran
    exact cons (sound first) (ih rest)

/-- A relation carried by every step carries along runs: the abstract system
follows the concrete one label by label. -/
theorem simulate {target : τ → ε → τ → Prop} {related : σ → τ → Prop}
    (follow : ∀ before label after abstract, related before abstract → step before label after →
      ∃ next, target abstract label next ∧ related after next)
    {before labels after abstract} (run : Run step before labels after) (start : related before abstract) :
    ∃ final, Run target abstract labels final ∧ related after final := by
  induction run with
  | nil => exact ⟨abstract, .nil, start⟩
  | snoc _ last ih =>
    obtain ⟨middle, reached, same⟩ := ih
    obtain ⟨next, moved, kept⟩ := follow _ _ _ _ same last
    exact ⟨next, .snoc reached moved, kept⟩

end Run

/-- The steps of a system that meet a condition on their label and first state. -/
def Guarded (guard : σ → ε → Prop) (step : σ → ε → σ → Prop) : σ → ε → σ → Prop :=
  fun before label after => guard before label ∧ step before label after

theorem Guarded.run {guard : σ → ε → Prop} {step : σ → ε → σ → Prop} {before labels after}
    (run : Run (Guarded guard step) before labels after) : Run step before labels after :=
  run.mono fun _ _ _ moved => moved.2

/-- The labels alone may meet the guard. -/
theorem Run.guarded {guard : σ → ε → Prop} {step : σ → ε → σ → Prop} {before labels after}
    (run : Run step before labels after)
    (meets : ∀ label ∈ labels, ∀ state, guard state label) : Run (Guarded guard step) before labels after := by
  induction run with
  | nil => exact .nil
  | snoc _ last ih =>
    refine .snoc (ih fun label member => meets label (List.mem_append_left _ member)) ⟨?_, last⟩
    exact meets _ (List.mem_append_right _ List.mem_cons_self) _

/-- An infinite run. -/
def Endless (step : σ → ε → σ → Prop) (states : Nat → σ) (labels : Nat → ε) : Prop :=
  ∀ n, step (states n) (labels n) (states (n + 1))

namespace Endless
variable {step : σ → ε → σ → Prop} {states : Nat → σ} {labels : Nat → ε} {holds : σ → Prop}

theorem invariant (endless : Endless step states labels)
    (kept : ∀ before label after, holds before → step before label after → holds after)
    {n : Nat} (start : holds (states n)) {m : Nat} (later : n ≤ m) : holds (states m) := by
  induction later with
  | refl => exact start
  | step _ ih => exact kept _ _ _ ih (endless _)

/-- What the other steps keep holds until a step is taken that may end it. -/
theorem holds_until (endless : Endless step states labels) {ends : ε → Prop}
    (kept : ∀ before label after, holds before → ¬ ends label → step before label after → holds after) {n : Nat}
    (start : holds (states n)) :
    (∃ m, n ≤ m ∧ holds (states m) ∧ ends (labels m)) ∨ ∀ m, n ≤ m → holds (states m) ∧ ¬ ends (labels m) := by
  by_cases some : ∃ m, n ≤ m ∧ holds (states m) ∧ ends (labels m)
  · exact .inl some
  · have still : ∀ m, n ≤ m → holds (states m) := by
      intro m later
      induction later with
      | refl => exact start
      | @step m later ih => exact kept _ _ _ ih (fun last => some ⟨m, later, ih, last⟩) (endless m)
    exact .inr fun m later => ⟨still m later, fun last => some ⟨m, later, still m later, last⟩⟩

/-- A run goes on without an end. -/
theorem after_run (endless : Endless step states labels) {before : σ} {first : List ε} {after : σ}
    (run : Run step before first after)
    (begins : states 0 = after) :
    ∃ whole others, Endless step whole others ∧ whole 0 = before ∧ ∃ n, ∀ m, whole (n + m) = states m ∧
        others (n + m) = labels m := by
  induction run generalizing states labels with
  | nil => exact ⟨states, labels, endless, begins, 0, fun m => by rw [Nat.zero_add]; exact ⟨rfl, rfl⟩⟩
  | @snoc firsts middle label after run last ih =>
    have moved : Endless step (fun n => n.casesOn middle states) (fun n => n.casesOn label labels) := fun n => by
      cases n with
      | zero =>
        rw [← begins] at last
        exact last
      | succ n => exact endless n
    obtain ⟨whole, others, endless, start, n, same⟩ := ih moved rfl
    refine ⟨whole, others, endless, start, n + 1, fun m => ?_⟩
    rw [Nat.add_assoc, Nat.add_comm 1]
    exact same (m + 1)

end Endless

end Egos.Library
