import Egos.Library.Faults
import Egos.Library.Transition
import Mathlib.Logic.Function.Basic

/-! Services on top of one another. A layer serves its calls by programs over the calls of the
service below, with data of its own. What is on top of two services that answer alike cannot
tell them apart, and clients that use different parts of a service do not notice each other. -/

namespace Egos.Library

variable {σ τ ρ ε α β : Type}

abbrev Service {Op : Type} (Reply : Op → Type) (ε σ : Type) : Type := (op : Op) → Prog σ ε (Reply op)

/-- The same ending. What is left in memory by a program that halts is not looked at. -/
def Outcome.Alike (related : σ → τ → Prop) : Outcome σ ε α → Outcome τ ε α → Prop
  | .done value state, .done other after => value = other ∧ related state after
  | .halted reason _, .halted other _ => reason = other
  | _, _ => False

theorem Outcome.Alike.trans {related : σ → τ → Prop} {onto : τ → ρ → Prop} {first : Outcome σ ε α}
    {second : Outcome τ ε α} {third : Outcome ρ ε α}
    (left : first.Alike related second) (right : second.Alike onto third) :
    first.Alike (fun s u => ∃ t, related s t ∧ onto t u) third := by
  cases first with
  | done value s =>
    cases second with
    | done other t =>
      cases third with
      | done last u => exact ⟨left.1.trans right.1, t, left.2, right.2⟩
      | halted reason u => exact right.elim
    | halted reason t => exact left.elim
  | halted reason s =>
    cases second with
    | done other t => exact left.elim
    | halted cause t =>
      cases third with
      | done last u => exact right.elim
      | halted last u => exact Eq.trans left right

theorem Outcome.Alike.mono {related wider : σ → τ → Prop} {first : Outcome σ ε α} {second : Outcome τ ε α}
    (alike : first.Alike related second)
    (implies : ∀ s t, related s t → wider s t) : first.Alike wider second := by
  cases first with
  | done value s =>
    cases second with
    | done other t => exact ⟨alike.1, implies s t alike.2⟩
    | halted reason t => exact alike.elim
  | halted reason s =>
    cases second with
    | done other t => exact alike.elim
    | halted cause t => exact alike

theorem Outcome.Alike.symm {related : σ → τ → Prop} {first : Outcome σ ε α} {second : Outcome τ ε α}
    (alike : first.Alike related second) :
    second.Alike (fun t s => related s t) first := by
  cases first with
  | done value s =>
    cases second with
    | done other t => exact ⟨alike.1.symm, alike.2⟩
    | halted reason t => exact alike.elim
  | halted reason s =>
    cases second with
    | done other t => exact alike.elim
    | halted cause t => exact Eq.symm alike

section Ends
variable {related : σ → τ → Prop} {first : Outcome σ ε α} {second : Outcome τ ε α} {value : α} {reason : ε}
    {s : σ} {t : τ}

theorem Outcome.Alike.of_done (alike : (Outcome.done value s : Outcome σ ε α).Alike related second) :
    ∃ t, second = .done value t ∧ related s t := by
  cases second with
  | done other t => exact ⟨t, by rw [alike.1], alike.2⟩
  | halted cause t => exact alike.elim

theorem Outcome.Alike.of_halted (alike : (Outcome.halted reason s : Outcome σ ε α).Alike related second) :
    ∃ t, second = .halted reason t := by
  cases second with
  | done other t => exact alike.elim
  | halted cause t =>
    obtain rfl : reason = cause := alike
    exact ⟨t, rfl⟩

theorem Outcome.Alike.done_of (alike : first.Alike related (.done value t)) :
    ∃ s, first = .done value s ∧ related s t := by
  cases first with
  | done other s => exact ⟨s, by rw [alike.1], alike.2⟩
  | halted cause s => exact alike.elim

end Ends

/-- From related states the programs end in the same way. -/
def Prog.Alike (related : σ → τ → Prop) (first : Prog σ ε α) (second : Prog τ ε α) : Prop :=
  ∀ s t, related s t → (first s).Alike related (second t)

theorem Effect.bind_assoc {Op γ : Type} {Reply : Op → Type} {program : Effect Reply ε α}
    {next : α → Effect Reply ε β} {last : β → Effect Reply ε γ} :
    program >>= next >>= last = program >>= fun value => next value >>= last := by
  induction program with
  | pure value => rfl
  | halt reason => rfl
  | call op rest ih => exact congrArg (Effect.call op) (funext ih)

theorem Effect.bind_pure {Op : Type} {Reply : Op → Type} {program : Effect Reply ε α} :
    program >>= Pure.pure = program := by
  induction program with
  | pure value => rfl
  | halt reason => rfl
  | call op rest ih => exact congrArg (Effect.call op) (funext ih)

theorem Effect.uses_all {Op : Type} {Reply : Op → Type} (program : Effect Reply ε α) :
    program.Uses (fun _ => True) fun _ => True := by
  induction program with
  | pure value => trivial
  | halt reason => trivial
  | call op rest ih => exact ⟨trivial, ih⟩

theorem Effect.uses_forM {Op : Type} {Reply : Op → Type} {allowed : Op → Prop} {stops : ε → Prop}
    {body : β → Effect Reply ε Unit} {items : List β}
    (each : ∀ item ∈ items, (body item).Uses allowed stops) : (items.forM body).Uses allowed stops := by
  induction items with
  | nil => trivial
  | cons item rest ih =>
    exact uses_bind (each item List.mem_cons_self) fun _ => ih fun other member =>
      each other (List.mem_cons_of_mem _ member)

theorem Effect.uses_foldlM {Op : Type} {Reply : Op → Type} {allowed : Op → Prop} {stops : ε → Prop}
    {body : α → β → Effect Reply ε α}
    {items : List β} (each : ∀ value, ∀ item ∈ items, (body value item).Uses allowed stops) (start : α) :
    (items.foldlM body start).Uses allowed stops := by
  induction items generalizing start with
  | nil => trivial
  | cons item rest ih =>
    exact uses_bind (each start item List.mem_cons_self) fun value => ih
      (fun value other member => each value other (List.mem_cons_of_mem _ member)) value

/-- Nothing is left to be done. -/
def Effect.Ended {Op : Type} {Reply : Op → Type} : Effect Reply ε α → Prop
  | .call .. => False
  | _ => True

theorem Effect.Ended.returned {Op : Type} {Reply : Op → Type} {program : Effect Reply ε α} (ended : program.Ended)
    (never : ∀ reason, program ≠ .halt reason) : ∃ value, program = .pure value := by
  cases program with
  | pure value => exact ⟨value, rfl⟩
  | halt reason => exact absurd rfl (never reason)
  | call op next => exact ended.elim

/-- The program with other names for the reasons for which it halts. -/
def Prog.renameHalts {ζ : Type} (name : ε → ζ) (program : Prog σ ε α) : Prog σ ζ α := fun state =>
  match program state with
  | .done value after => .done value after
  | .halted reason after => .halted (name reason) after

theorem Prog.renameHalts_bind {ζ : Type} {name : ε → ζ} {first : Prog σ ε α} {next : α → Prog σ ε β} :
    (first >>= next).renameHalts name = first.renameHalts name >>= fun value => (next value).renameHalts name := by
  funext state
  cases ran : first state with
  | done value after =>
    have begun : first.renameHalts name state = .done value after := by simp only [renameHalts, ran]
    rw [bind_done begun]
    simp only [renameHalts, bind_done ran]
  | halted reason after =>
    have begun : first.renameHalts name state = .halted (name reason) after := by simp only [renameHalts, ran]
    rw [bind_halted begun]
    simp only [renameHalts, bind_halted ran]

namespace Prog.Alike
variable {related : σ → τ → Prop} {first : Prog σ ε α} {second : Prog τ ε α}

theorem pure (value : α) : Alike related (pure value : Prog σ ε α) (Pure.pure value) := fun _ _ alike => ⟨rfl, alike⟩

theorem halt (reason : ε) : Alike related (halt reason : Prog σ ε α) (Prog.halt reason) := fun _ _ _ => rfl

theorem bind {next : α → Prog σ ε β} {rest : α → Prog τ ε β} (begins : Alike related first second)
    (goesOn : ∀ value, Alike related (next value) (rest value)) : Alike related (first >>= next) (second >>= rest) := by
  intro s t alike
  have middle := begins s t alike
  cases left : first s with
  | done value after =>
    cases right : second t with
    | done other last =>
      rw [left, right] at middle
      obtain ⟨rfl, alike⟩ := middle
      rw [bind_done left, bind_done right]
      exact goesOn value after last alike
    | halted reason last =>
      rw [left, right] at middle
      exact middle.elim
  | halted reason after =>
    cases right : second t with
    | done other last =>
      rw [left, right] at middle
      exact middle.elim
    | halted cause last =>
      rw [left, right] at middle
      rw [bind_halted left, bind_halted right]
      exact middle

end Prog.Alike

section Layers
variable {Op Calls Deeper : Type} {Reply : Op → Type} {Answer : Calls → Type} {κ : Type}

/-- The services answer alike whatever is asked of what is allowed. -/
def Simulates (allowed : Op → Prop) (related : σ → τ → Prop) (first : Service Reply ε σ)
    (second : Service Reply ε τ) : Prop :=
  ∀ op, allowed op → Prog.Alike related (first op) (second op)

theorem Effect.renameHalts_uses {ζ : Type} {name : ε → ζ} {allowed : Op → Prop} {program : Effect Reply ε α}
    (uses : program.Uses allowed fun _ => True) : (program.renameHalts name).Uses allowed fun _ => True := by
  induction program with
  | pure value => trivial
  | halt reason => trivial
  | call op next ih => exact ⟨uses.1, fun reply => ih reply (uses.2 reply)⟩

theorem Effect.renameHalts_run {ζ : Type} {name : ε → ζ} {serve : Service Reply ε σ} (program : Effect Reply ε α) :
    (program.renameHalts name).run (fun op => (serve op).renameHalts name) = (program.run serve).renameHalts name := by
  induction program with
  | pure value => rfl
  | halt reason => rfl
  | call op next ih =>
    change ((serve op).renameHalts name >>= fun reply => ((next reply).renameHalts name).run
      fun op => (serve op).renameHalts name) = _
    simp only [ih, run, Prog.renameHalts_bind]

section Services
variable {allowed : Op → Prop} {related : σ → τ → Prop} {onto : τ → ρ → Prop} {first : Service Reply ε σ}
    {second : Service Reply ε τ}
  {third : Service Reply ε ρ}

/-- Programs cannot tell such services apart. -/
theorem Simulates.run (simulates : Simulates allowed related first second) {program : Effect Reply ε α}
    (uses : program.Uses allowed fun _ => True) : Prog.Alike related (program.run first) (program.run second) := by
  induction program with
  | pure value => exact .pure value
  | halt reason => exact .halt reason
  | call op next ih => exact (simulates op uses.1).bind fun reply => ih reply (uses.2 reply)

theorem Simulates.restrict {fewer : Op → Prop} (simulates : Simulates allowed related first second)
    (implies : ∀ op, fewer op → allowed op) :
    Simulates fewer related first second := fun op fine => simulates op (implies op fine)

theorem Simulates.congr {other : σ → τ → Prop} (simulates : Simulates allowed related first second)
    (same : ∀ s t, related s t ↔ other s t) :
    Simulates allowed other first second :=
  fun op fine s t alike => (simulates op fine s t ((same s t).mpr alike)).mono fun s t => (same s t).mp

theorem Simulates.trans (left : Simulates allowed related first second) (right : Simulates allowed onto second third) :
    Simulates allowed (fun s u => ∃ t, related s t ∧ onto t u) first third := by
  rintro op fine s u ⟨t, one, two⟩
  exact (left op fine s t one).trans (right op fine t u two)

end Services

/-- How a layer with data of type `κ` serves a call. -/
abbrev Layer (Reply : Op → Type) (Answer : Calls → Type) (ε κ : Type) : Type :=
  (op : Op) → κ → Effect Answer ε (Reply op × κ)

/-- A program on top of the layer, as a program on top of what is below it. -/
def Effect.through (layer : Layer Reply Answer ε κ) : Effect Reply ε α → κ → Effect Answer ε (α × κ)
  | .pure value, own => .pure (value, own)
  | .halt reason, _ => .halt reason
  | .call op next, own => layer op own >>= fun (reply, own) => (next reply).through layer own

/-- The layer on top of a service. A layer that halts loses nothing that anybody could still look at. -/
def Layer.over (layer : Layer Reply Answer ε κ) (below : Service Answer ε σ) :
    Service Reply ε (κ × σ) := fun op state =>
  match (layer op state.1).run below state.2 with
  | .done (reply, own) after => .done reply (own, after)
  | .halted reason after => .halted reason (state.1, after)

variable {layer : Layer Reply Answer ε κ} {below : Service Answer ε σ} {op : Op} {own last : κ} {state after : σ}

theorem Layer.over_done {reply : Reply op} (ran : (layer op own).run below state = .done (reply, last) after) :
    layer.over below op (own, state) = .done reply (last, after) := by
  unfold Layer.over
  rw [ran]

theorem Layer.over_halted {reason : ε} (ran : (layer op own).run below state = .halted reason after) :
    layer.over below op (own, state) = .halted reason (own, after) := by
  unfold Layer.over
  rw [ran]

/-- What a program asks for through a layer is what the layer asks for. -/
theorem Effect.through_uses {wanted : Op → Prop} {allowed : Calls → Prop} {program : Effect Reply ε α}
    (fine : program.Uses wanted fun _ => True)
    (uses : ∀ op, wanted op → ∀ own, (layer op own).Uses allowed fun _ => True) :
    (program.through layer own).Uses allowed fun _ => True := by
  induction program generalizing own with
  | pure value => trivial
  | halt reason => trivial
  | call op next ih => exact uses_bind (uses op fine.1 own) fun answer => ih answer.1 (fine.2 answer.1)

variable (layer below) in
/-- The program above and below the layer. -/
theorem Effect.through_run (program : Effect Reply ε α) (own : κ) (state : σ) :
    match (program.through layer own).run below state with
    | .done (value, last) after => program.run (layer.over below) (own, state) = .done value (last, after)
    | .halted reason after => ∃ last, program.run (layer.over below) (own, state) = .halted reason (last, after) := by
  induction program generalizing own state with
  | pure value => rfl
  | halt reason => exact ⟨own, rfl⟩
  | call op next ih =>
    unfold through
    rw [run_bind]
    cases served : (layer op own).run below state with
    | done value between =>
      obtain ⟨reply, last⟩ := value
      have here : (Effect.call op next).run (layer.over below) (own, state) =
          (next reply).run (layer.over below) (last, between) :=
        Prog.bind_done (Layer.over_done served)
      rw [Prog.bind_done served, here]
      exact ih reply last between
    | halted reason between =>
      rw [Prog.bind_halted served]
      exact ⟨own, Prog.bind_halted (Layer.over_halted served)⟩

theorem Effect.through_done {program : Effect Reply ε α} {value : α}
    (ran : program.run (layer.over below) (own, state) = .done value (last, after)) :
    (program.through layer own).run below state = .done (value, last) after := by
  have through := program.through_run layer below own state
  cases ended : (program.through layer own).run below state with
  | done result final =>
    rw [ended] at through
    cases ran.symm.trans through
    rfl
  | halted reason final =>
    rw [ended] at through
    obtain ⟨_, halted⟩ := through
    cases ran.symm.trans halted

theorem Effect.through_halted {program : Effect Reply ε α} {reason : ε} {ends : κ × σ}
    (ran : program.run (layer.over below) (own, state) = .halted reason ends) :
    ∃ after, (program.through layer own).run below state = .halted reason after := by
  have through := program.through_run layer below own state
  cases ended : (program.through layer own).run below state with
  | done result final =>
    rw [ended] at through
    cases ran.symm.trans through
  | halted cause final =>
    rw [ended] at through
    obtain ⟨_, halted⟩ := through
    cases ran.symm.trans halted
    exact ⟨final, rfl⟩

variable (layer below) in
/-- What the program returns on top of the layer. -/
theorem Effect.through_alike (program : Effect Reply ε α) (own : κ) (state : σ) (f : α → β) :
    ((program.through layer own >>= fun result => Pure.pure (f result.1)).run below state).Alike
      (fun after s => s.2 = after)
      ((program >>= fun value => Pure.pure (f value)).run (layer.over below) (own, state)) := by
  have ran := program.through_run layer below own state
  rw [run_bind, run_bind]
  cases ended : (program.through layer own).run below state with
  | done value after =>
    rw [ended] at ran
    rw [Prog.bind_done ended, Prog.bind_done ran]
    exact ⟨rfl, rfl⟩
  | halted reason after =>
    rw [ended] at ran
    obtain ⟨last, ran⟩ := ran
    rw [Prog.bind_halted ended, Prog.bind_halted ran]
    rfl

/-- A layer has the same data on top of services that answer alike. -/
theorem Layer.over_alike {allowed : Calls → Prop} {related : σ → τ → Prop} {first : Service Answer ε σ}
    {second : Service Answer ε τ}
    (simulates : Simulates allowed related first second) (uses : (layer op own).Uses allowed fun _ => True)
    {s : σ} {t : τ} (alike : related s t) :
    (layer.over first op (own, s)).Alike (fun s t => s.1 = t.1 ∧ related s.2 t.2) (layer.over second op (own, t)) := by
  have ended := simulates.run uses s t alike
  cases left : (layer op own).run first s with
  | done value after =>
    obtain ⟨reply, last⟩ := value
    cases right : (layer op own).run second t with
    | done other final =>
      rw [left, right] at ended
      obtain ⟨rfl, still⟩ := ended
      rw [Layer.over_done left, Layer.over_done right]
      exact ⟨rfl, rfl, still⟩
    | halted reason final =>
      rw [left, right] at ended
      exact ended.elim
  | halted reason after =>
    cases right : (layer op own).run second t with
    | done other final =>
      rw [left, right] at ended
      exact ended.elim
    | halted cause final =>
      rw [left, right] at ended
      rw [Layer.over_halted left, Layer.over_halted right]
      exact ended

theorem Simulates.lift {wanted : Op → Prop} {allowed : Calls → Prop} {related : σ → τ → Prop}
    {first : Service Answer ε σ}
    {second : Service Answer ε τ} (simulates : Simulates allowed related first second)
    (uses : ∀ op, wanted op → ∀ own, (layer op own).Uses allowed fun _ => True) :
    Simulates wanted (fun s t => s.1 = t.1 ∧ related s.2 t.2) (layer.over first) (layer.over second) := by
  rintro op fine ⟨own, s⟩ ⟨_, t⟩ ⟨rfl, alike⟩
  exact Layer.over_alike simulates (uses op fine own) alike

end Layers

/-! Copies of a service, each with a state of its own. -/

section Copies
variable {Op ι : Type} [DecidableEq ι] {Reply : Op → Type} {i : ι} {op : Op} {s : ι → σ}

/-- A copy of the service for each index. -/
def Service.copies (serve : Service Reply ε σ) : Service (fun c : ι × Op => Reply c.2) ε (ι → σ) := fun c s =>
  match serve c.2 (s c.1) with
  | .done reply after => .done reply (Function.update s c.1 after)
  | .halted reason after => .halted reason (Function.update s c.1 after)

theorem Service.copies_done {serve : Service Reply ε σ} {reply : Reply op} {after : σ}
    (served : serve op (s i) = .done reply after) :
    serve.copies (i, op) s = .done reply (Function.update s i after) := by
  simp only [copies, served]

theorem Service.copies_halted {serve : Service Reply ε σ} {reason : ε} {after : σ}
    (halted : serve op (s i) = .halted reason after) :
    serve.copies (i, op) s = .halted reason (Function.update s i after) := by
  simp only [copies, halted]

theorem Simulates.copies {allowed : Op → Prop} {related : σ → τ → Prop} {first : Service Reply ε σ}
    {second : Service Reply ε τ}
    (simulates : Simulates allowed related first second) :
    Simulates (fun c : ι × Op => allowed c.2)
        (fun s t => ∀ i, related (s i) (t i)) (Service.copies first) (Service.copies second) := by
  rintro ⟨i, op⟩ fine s t alike
  have ended := simulates op fine (s i) (t i) (alike i)
  cases served : first op (s i) with
  | halted reason after =>
    rw [served] at ended
    obtain ⟨last, answered⟩ := ended.of_halted
    rw [Service.copies_halted served, Service.copies_halted answered]
    rfl
  | done reply after =>
    rw [served] at ended
    obtain ⟨last, answered, still⟩ := ended.of_done
    rw [Service.copies_done served, Service.copies_done answered]
    refine ⟨rfl, fun j => ?_⟩
    by_cases self : j = i
    · subst self
      rw [Function.update_self, Function.update_self]
      exact still
    · rw [Function.update_of_ne self, Function.update_of_ne self]
      exact alike j

end Copies

/-! Services with limits. -/

section Limits
variable {Op : Type} {Reply : Op → Type}

/-- The services answer alike until the first one stops for one reason, which it does only where the
second one gets over the limits. -/
structure SimulatesUntil (allowed : Op → Prop) (related : σ → τ → Prop) (stop : ε) (past : τ → Prop)
    (first : Service Reply ε σ)
    (second : Service Reply ε τ) : Prop where
  step : ∀ op, allowed op → ∀ s t, related s t → (first op s).Alike related (second op t) ∨
    (∃ after, first op s = .halted stop after) ∧ ∀ reply last, second op t = .done reply last → past last
  stays : ∀ op, allowed op → ∀ t reply last, past t → second op t = .done reply last → past last

namespace SimulatesUntil
variable {allowed : Op → Prop} {related : σ → τ → Prop} {stop : ε} {past : τ → Prop} {first : Service Reply ε σ}
    {second : Service Reply ε τ}
  {program : Effect Reply ε α}

theorem beyond (simulates : SimulatesUntil allowed related stop past first second)
    (uses : program.Uses allowed fun _ => True) {t last : τ} {value : α}
    (big : past t) (ran : program.run second t = .done value last) : past last := by
  induction program generalizing t with
  | pure other =>
    cases ran
    exact big
  | halt reason => cases ran
  | call op next ih =>
    obtain ⟨reply, middle, answered, rest⟩ := Prog.bind_returns.mp ran
    exact ih reply (uses.2 reply) (simulates.stays op uses.1 t reply middle big answered) rest

/-- So does every program. -/
theorem run (simulates : SimulatesUntil allowed related stop past first second)
    (uses : program.Uses allowed fun _ => True) {s : σ} {t : τ}
    (alike : related s t) : (program.run first s).Alike related (program.run second t) ∨
      (∃ after, program.run first s = .halted stop after) ∧
          ∀ value last, program.run second t = .done value last → past last := by
  induction program generalizing s t with
  | pure value => exact .inl ⟨rfl, alike⟩
  | halt reason => exact .inl rfl
  | call op next ih =>
    change ((first op >>= fun reply => (next reply).run first) s).Alike _
      ((second op >>= fun reply => (next reply).run second) t) ∨ _
    rcases simulates.step op uses.1 s t alike with same | ⟨⟨after, stopped⟩, gets⟩
    · cases served : first op s with
      | halted reason after =>
        rw [served] at same
        obtain ⟨last, answered⟩ := same.of_halted
        rw [Prog.bind_halted served, Prog.bind_halted answered]
        exact .inl rfl
      | done reply after =>
        rw [served] at same
        obtain ⟨last, answered, still⟩ := same.of_done
        have begins : (Effect.call op next).run first s = (next reply).run first after := Prog.bind_done served
        have goesOn : (Effect.call op next).run second t = (next reply).run second last := Prog.bind_done answered
        rw [Prog.bind_done served, Prog.bind_done answered, begins, goesOn]
        exact ih reply (uses.2 reply) still
    · refine .inr ⟨⟨after, Prog.bind_halted stopped⟩, fun value last ran => ?_⟩
      obtain ⟨reply, middle, answered, rest⟩ := Prog.bind_returns.mp ran
      exact simulates.beyond (uses.2 reply) (gets reply middle answered) rest

end SimulatesUntil
end Limits

/-! Clients that share a service, each with a program of its own. -/

section Clients
variable {ι χ : Type} [DecidableEq ι] [DecidableEq χ] {Op : Type} {Reply : Op → Type} {γ : ι → Type} {part : χ → Type}

/-- What is left of the clients' programs, and the state of the service. -/
structure Clients (Reply : Op → Type) (ε : Type) (γ : ι → Type) (σ : Type) where
  program : (i : ι) → Effect Reply ε (γ i)
  state : σ

namespace Clients

/-- A client makes its next call. -/
inductive Step (serve : ι → Service Reply ε σ) : Clients Reply ε γ σ → ι → Clients Reply ε γ σ → Prop where
  | call {w : Clients Reply ε γ σ} {i op next reply after} : w.program i = .call op next →
      serve i op w.state = .done reply after →
      Step serve w i { program := Function.update w.program i (next reply), state := after }

/-- The clients make the calls that are allowed to their group. -/
def Behave (group : ι → χ) (allowed : χ → Op → Prop) (w : Clients Reply ε γ σ) : Prop :=
  ∀ i, (w.program i).Uses (allowed (group i)) fun _ => True

/-- The clients of one group, on a service of their own. The others have programs that are not looked at. -/
def only (group : ι → χ) (others : (i : ι) → Effect Reply ε (γ i)) (w : Clients Reply ε γ σ) (c : χ) (own : part c) :
    Clients Reply ε γ (part c) :=
  { program := fun i => if group i = c then w.program i else others i, state := own }

section Call
variable {group : ι → χ} {allowed : χ → Op → Prop} {others : (i : ι) → Effect Reply ε (γ i)}
    {w : Clients Reply ε γ σ} {i : ι} {rest : Effect Reply ε (γ i)} {state : σ} {c : χ}

omit [DecidableEq χ] in
theorem Behave.call (behave : w.Behave group allowed) (fine : rest.Uses (allowed (group i)) fun _ => True) :
    Behave group allowed { program := Function.update w.program i rest, state := state } := by
  intro j
  change (Function.update w.program i rest j).Uses _ _
  by_cases self : j = i
  · subst self
    rw [Function.update_self]
    exact fine
  · rw [Function.update_of_ne self]
    exact behave j

/-- A call of the group is a call of the group on its own. -/
theorem only_mine (own last : part (group i)) :
    only group others { program := Function.update w.program i rest, state := state } (group i) last =
      { program := Function.update (only group others w (group i) own).program i rest, state := last } := by
  unfold only
  congr 1
  funext j
  change (if group j = group i then Function.update w.program i rest j else others j) = _
  by_cases self : j = i
  · subst self
    rw [Function.update_self, Function.update_self, if_pos rfl]
  · rw [Function.update_of_ne self, Function.update_of_ne self]

theorem only_other (other : group i ≠ c) (own : part c) :
    only group others { program := Function.update w.program i rest, state := state } c own =
        only group others w c own := by
  unfold only
  congr 1
  funext j
  change (if group j = c then Function.update w.program i rest j else others j) = _
  by_cases self : j = i
  · subst self
    rw [if_neg other, if_neg other]
  · rw [Function.update_of_ne self]

end Call

/-- A client that is alone with the service has got through a part of its program. -/
theorem alone_run {serve : Service Reply ε σ} {before after : Clients Reply ε γ σ} {turns : List ι} {i : ι}
    (run : Run (Step fun _ => serve) before turns after) (alone : ∀ j ∈ turns, j = i) :
    (after.program i).run serve after.state = (before.program i).run serve before.state := by
  induction run with
  | nil => rfl
  | @snoc labels middle j last ran step ih =>
    obtain rfl : j = i := alone j (List.mem_append_right _ (List.mem_singleton.mpr rfl))
    cases step with
    | @call op next reply after calls served =>
      rw [← ih fun k member => alone k (List.mem_append_left _ member), calls]
      change (Function.update middle.program j (next reply) j).run serve after = _
      rw [Function.update_self]
      have goesOn : (Effect.call op next).run serve middle.state = (next reply).run serve after := Prog.bind_done served
      exact goesOn.symm

end Clients

/-- Each group of clients has a part of the service to itself: the calls that are allowed to it
change and depend on nothing else. -/
def Separate (group : ι → χ) (allowed : χ → Op → Prop) (related : σ → ((c : χ) → part c) → Prop)
    (serve : ι → Service Reply ε σ)
    (alone : (c : χ) → Service Reply ε (part c)) : Prop :=
  ∀ i op s parts, allowed (group i) op → related s parts →
    (serve i op s).Alike (fun after own => related after (Function.update parts (group i) own))
      (alone (group i) op (parts (group i)))

namespace Separate
variable {group : ι → χ} {allowed : χ → Op → Prop} {related : σ → ((c : χ) → part c) → Prop}
    {serve : ι → Service Reply ε σ}
  {alone : (c : χ) → Service Reply ε (part c)} {before after : Clients Reply ε γ σ} {turns : List ι}
    {parts : (c : χ) → part c}

/-- In whatever order the clients make their calls, each group of them is where its own calls alone have brought it. -/
theorem run (separate : Separate group allowed related serve alone) (behave : before.Behave group allowed)
    (start : related before.state parts)
    (run : Run (Clients.Step serve) before turns after) :
    after.Behave group allowed ∧ ∃ last, related after.state last ∧ ∀ others c,
      Run (Clients.Step fun _ => alone c) (Clients.only group others before c (parts c)) (turns.filter (group · = c))
        (Clients.only group others after c (last c)) := by
  induction run with
  | nil => exact ⟨behave, parts, start, fun _ _ => .nil⟩
  | @snoc labels between i _ _ step ih =>
    obtain ⟨behaves, middle, here, runs⟩ := ih
    cases step with
    | @call op next reply state calls served =>
      have fine := behaves i
      rw [calls] at fine
      have ended := separate i op between.state middle fine.1 here
      rw [served] at ended
      obtain ⟨own, answered, still⟩ := ended.of_done
      refine ⟨behaves.call (fine.2 reply), Function.update middle (group i) own, still, fun others c => ?_⟩
      rw [List.filter_append]
      by_cases mine : group i = c
      · subst mine
        have taken : [i].filter (group · = group i) = [i] := by simp
        have calling : (Clients.only group others between (group i) (middle (group i))).program i = .call op next :=
          (if_pos rfl).trans calls
        rw [taken, Function.update_self, Clients.only_mine (middle (group i)) own]
        exact (runs others _).snoc (.call calling answered)
      · have dropped : [i].filter (group · = c) = [] := by simp [mine]
        rw [dropped, Function.update_of_ne (Ne.symm mine), Clients.only_other mine, List.append_nil]
        exact runs others c

/-- A client that is alone in its group: what is left of its program ends as the program does without the others. -/
theorem ends (separate : Separate group allowed related serve alone) (behave : before.Behave group allowed)
    (start : related before.state parts)
    (ran : Run (Clients.Step serve) before turns after) {i : ι} (single : ∀ j, group j = group i → j = i) :
    after.Behave group allowed ∧ ∃ last, related after.state last ∧
      (after.program i).run (alone (group i)) (last (group i)) =
          (before.program i).run (alone (group i)) (parts (group i)) := by
  obtain ⟨behaves, last, here, runs⟩ := separate.run behave start ran
  have mine : ∀ j ∈ turns.filter (group · = group i),
    j = i := fun j member => single j (by simpa using (List.mem_filter.mp member).2)
  have same := Clients.alone_run (runs before.program (group i)) mine
  have first : (Clients.only group before.program before (group i) (parts (group i))).program i = before.program i :=
    if_pos rfl
  have final : (Clients.only group before.program after (group i) (last (group i))).program i = after.program i :=
    if_pos rfl
  rw [first, final] at same
  exact ⟨behaves, last, here, same⟩

omit [DecidableEq ι] in
/-- A client that goes on without being interrupted cannot tell the service from its part of it. -/
theorem alike (separate : Separate group allowed related serve alone) {i : ι} {α : Type} {program : Effect Reply ε α}
    (fine : program.Uses (allowed (group i)) fun _ => True) {s : σ} (start : related s parts) :
    (program.run (serve i) s).Alike (fun after own => related after (Function.update parts (group i) own))
      (program.run (alone (group i)) (parts (group i))) := by
  induction program generalizing s parts with
  | pure value =>
    refine ⟨rfl, ?_⟩
    change related s (Function.update parts (group i) (parts (group i)))
    rw [Function.update_eq_self]
    exact start
  | halt reason => rfl
  | call op next ih =>
    have ended := separate i op s parts fine.1 start
    change ((serve i op >>= fun reply => (next reply).run (serve i)) s).Alike _ ((alone (group i) op >>= fun reply =>
      (next reply).run (alone (group i))) (parts (group i)))
    cases served : serve i op s with
    | halted reason after =>
      rw [served] at ended
      obtain ⟨own, answered⟩ := ended.of_halted
      rw [Prog.bind_halted served, Prog.bind_halted answered]
      rfl
    | done reply after =>
      rw [served] at ended
      obtain ⟨own, answered, still⟩ := ended.of_done
      have rest := ih reply (fine.2 reply) still
      rw [Function.update_self] at rest
      rw [Prog.bind_done served, Prog.bind_done answered]
      refine rest.mono fun _ _ holds => ?_
      rw [Function.update_idem] at holds
      exact holds

/-- A client can come to its end among the others, if its part of the service answers every call. -/
theorem endsLater (separate : Separate group allowed related serve alone) {i : ι}
    (answers : ∀ op own, allowed (group i) op → ∃ reply last, alone (group i) op own = .done reply last)
    (behave : before.Behave group allowed) (start : related before.state parts) :
    ∃ turns after, Run (Clients.Step serve) before turns after ∧ (after.program i).Ended := by
  generalize here : before.program i = program
  induction program generalizing before parts with
  | pure value => exact ⟨[], before, .nil, here ▸ trivial⟩
  | halt reason => exact ⟨[], before, .nil, here ▸ trivial⟩
  | call op next ih =>
    have fine := behave i
    rw [here] at fine
    obtain ⟨reply, own, answered⟩ := answers op (parts (group i)) fine.1
    have ended := separate i op before.state parts fine.1 start
    rw [answered] at ended
    obtain ⟨state, served, still⟩ := ended.done_of
    obtain ⟨turns, after, run, finished⟩ :=
      @ih reply { program := Function.update before.program i (next reply), state }
      (Function.update parts (group i) own) (behave.call (fine.2 reply)) still (Function.update_self ..)
    exact ⟨i :: turns, after, run.cons (.call here served), finished⟩

/-- A client that has not come to its end can go on, if it could alone. -/
theorem goesOn (separate : Separate group allowed related serve alone) (behave : before.Behave group allowed)
    (start : related before.state parts)
    (ran : Run (Clients.Step serve) before turns after) {i : ι} {op : Op} {next : Reply op → Effect Reply ε (γ i)}
    (calls : after.program i = .call op next) (answers : ∀ own, allowed (group i) op →
    ∃ reply last, alone (group i) op own = .done reply last) :
    ∃ w, Clients.Step serve after i w := by
  obtain ⟨behaves, last, here, _⟩ := separate.run behave start ran
  have fine := behaves i
  rw [calls] at fine
  obtain ⟨reply, own, answered⟩ := answers (last (group i)) fine.1
  have ended := separate i op after.state last fine.1 here
  rw [answered] at ended
  obtain ⟨state, served, _⟩ := ended.done_of
  exact ⟨_, .call calls served⟩

end Separate
end Clients
end Egos.Library
