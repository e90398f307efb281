import Egos.Library.Rpc

/-! Servers that come to an end with every request. If no handler halts, whatever its calls
return, and no two servers wait for each other, then a server can always go on, and in a run
in which no server is passed over for ever each request is answered. -/

namespace Egos.Library

namespace Effect
variable {Op : Type} {Reply : Op → Type} {ε α β : Type}

/-- The calls are as they should be, and if they return what they can return the program ends
with a value that is wanted. -/
def Completes (asks : Op → Prop) (gives : (op : Op) → Reply op → Prop) (wanted : α → Prop) : Effect Reply ε α → Prop
  | .pure value => wanted value
  | .halt _ => False
  | .call op next => asks op ∧ ∀ reply, gives op reply → (next reply).Completes asks gives wanted

namespace Completes
variable {asks : Op → Prop} {gives : (op : Op) → Reply op → Prop} {wanted : α → Prop} {program other : Effect Reply ε α}

theorem weaken {middle : α → Prop} (completes : program.Completes asks gives middle)
    (implies : ∀ value, middle value → wanted value) :
    program.Completes asks gives wanted := by
  induction program with
  | pure value => exact implies value completes
  | halt reason => exact completes
  | call op next ih => exact ⟨completes.1, fun reply given => ih reply (completes.2 reply given)⟩

theorem mono {asked : Op → Prop} {given : (op : Op) → Reply op → Prop} (completes : program.Completes asks gives wanted)
    (calls : ∀ op, asks op → asked op) (returns : ∀ op reply, given op reply → gives op reply) :
    program.Completes asked given wanted := by
  induction program with
  | pure value => exact completes
  | halt reason => exact completes
  | call op next ih =>
    exact ⟨calls op completes.1, fun reply gave => ih reply (completes.2 reply (returns op reply gave))⟩

theorem bind {next : α → Effect Reply ε β} {last : β → Prop} (first : program.Completes asks gives wanted)
    (rest : ∀ value, wanted value → (next value).Completes asks gives last) :
    (program >>= next).Completes asks gives last := by
  induction program with
  | pure value => exact rest value first
  | halt reason => exact first.elim
  | call op continuation ih => exact ⟨first.1, fun reply given => ih reply (first.2 reply given)⟩

theorem call {op : Op} {next : Reply op → Effect Reply ε β} {last : β → Prop} (fine : asks op)
    (rest : ∀ reply, gives op reply → (next reply).Completes asks gives last) :
    (perform op >>= next).Completes asks gives last := ⟨fine, rest⟩

theorem ite {condition : Prop} [Decidable condition] (yes : condition → program.Completes asks gives wanted)
    (no : ¬ condition → other.Completes asks gives wanted) :
    (if condition then program else other).Completes asks gives wanted := by
  split_ifs with holds
  · exact yes holds
  · exact no holds

end Completes
end Effect

namespace Rpc

variable {ι P M U : Type} [DecidableEq ι] [DecidableEq P] {server : ι → Protocol ι P M U} {pid : ι → P}

/-- The server that takes the step, if it is a step of a server. -/
def Event.actor : Event server → Option ι
  | .receive i | .finish i | .reply i | .call i => some i
  | .proceed i _ _ => some i
  | _ => none

/-- Good requests are made, the calls of the servers return what is promised, a process
identifier is used again only when no request is open under it, and no process dies while a
server has a request of it. -/
def Steady (good : ι → M → Prop) (promised : (i : ι) → (op : (server i).Op) → (server i).Reply op → Prop)
    (w : World server) : Event server → Prop
  | .request _ i msg => good i msg
  | .proceed i op value => promised i op value
  | .create src _ => ∀ i r, w.Open i r → r.src ≠ src
  | .die src => ∀ i r, w.Held i r → r.src ≠ src
  | _ => True

/-- What a call can return while the sender of the request is alive. -/
def Gives (promised : (i : ι) → (op : (server i).Op) → (server i).Reply op → Prop) (i : ι) (src : P)
    (op : (server i).Op)
    (value : (server i).Reply op) : Prop :=
  (server i).target op ≠ none ∨ ∃ table, table src ≠ none ∧ (server i).returns table op value ∧ promised i op value

/-- Where a server makes a request to another, it is a good one. -/
def Asks (good : ι → M → Prop) (i : ι) (op : (server i).Op) : Prop :=
  ∀ j msg, (server i).callee op = some (some (j, msg)) → good j msg

/-- What is expected of the servers. A server waits only for servers of lower rank. -/
structure Serving (pid : ι → P) (good : ι → M → Prop)
    (promised : (i : ι) → (op : (server i).Op) → (server i).Reply op → Prop)
    (rank : ι → Nat) : Prop where
  apart : Function.Injective pid
  once : ∀ i state msg src, good i msg → ((server i).serve state msg src).Replies (server i).target (promised i) src 1
  completes : ∀ i state msg src, good i msg →
    ((server i).serve state msg src).Completes (Asks good i) (Gives promised i src) fun _ => True
  silent : ∀ i op, (server i).callee op ≠ none → (server i).target op = none
  below : ∀ i op j msg, (server i).callee op = some (some (j, msg)) → rank j < rank i
  sends : ∀ i op, (server i).target op ≠ none → Nonempty ((server i).Reply op)
  returns : ∀ i table op, (server i).target op = none → ∃ value, (server i).returns table op value ∧ promised i op value

/-! Each request is in one place. -/

structure Placed (w : World server) : Prop where
  issued : ∀ i r, w.Held i r → r.id < w.issued
  same : ∀ i j r q, w.Held i r → w.Held j q → r.id = q.id → i = j ∧ r = q
  nodup : ∀ i, (w.mbox i).Nodup
  apart : ∀ i r calling program, w.control i = .handling r calling program → r ∉ w.mbox i

section Placed
variable {w after : World server} {i : ι} {src : P} {msg : M}

omit [DecidableEq P] in
/-- The server goes on with its request or drops it. -/
theorem Placed.set (placed : Placed w) {control : Control (server i)}
    (same : ∀ r calling program, control = .handling r calling program →
    ∃ calling program, w.control i = .handling r calling program) :
    Placed (w.setControl i control) := by
  refine ⟨fun j r held => placed.issued j r (World.held_set same held),
    fun j k r q first second => placed.same j k r q (World.held_set same first) (World.held_set same second),
      placed.nodup, fun j r calling program place => ?_⟩
  by_cases here : j = i
  · subst here
    simp only [World.setControl, Function.update_self] at place
    obtain ⟨_, _, before⟩ := same r calling program place
    exact placed.apart _ _ _ _ before
  · simp only [World.setControl, Function.update_of_ne here] at place
    exact placed.apart _ _ _ _ place

theorem Placed.issue (placed : Placed w) : Placed (w.issue src i msg) := by
  have fresh : ∀ j r, w.Held j r → r.id ≠ w.issued := fun j r held => Nat.ne_of_lt (placed.issued j r held)
  refine ⟨fun j r held => ?_, fun j k r q first second ids => ?_, fun j => ?_, fun j r calling program place => ?_⟩
  · rcases World.held_issue held with before | ⟨-, rfl⟩
    · exact Nat.lt_succ_of_lt (placed.issued j r before)
    · exact Nat.lt_succ_self _
  · rcases World.held_issue first with before | ⟨rfl, rfl⟩
    · rcases World.held_issue second with before' | ⟨-, rfl⟩
      · exact placed.same j k r q before before' ids
      · exact absurd ids (fresh j r before)
    · rcases World.held_issue second with before | ⟨rfl, rfl⟩
      · exact absurd ids.symm (fresh k q before)
      · exact ⟨rfl, rfl⟩
  · by_cases here : j = i
    · subst here
      simp only [World.issue, Function.update_self]
      refine List.nodup_append.mpr ⟨placed.nodup j, List.nodup_singleton _, fun r queued q new same => ?_⟩
      rw [List.mem_singleton.mp new] at same
      exact fresh j r (.inl queued) (same ▸ rfl)
    · simp only [World.issue, Function.update_of_ne here]
      exact placed.nodup j
  · have handled : w.control j = .handling r calling program := place
    by_cases here : j = i
    · subst here
      simp only [World.issue, Function.update_self, List.mem_append, List.mem_singleton, not_or]
      exact ⟨placed.apart j r calling program handled, fun new => fresh j r (.inr ⟨_, _, handled⟩) (new ▸ rfl)⟩
    · simp only [World.issue, Function.update_of_ne here]
      exact placed.apart j r calling program handled

omit [DecidableEq P] in
theorem Placed.receive (placed : Placed w) {r : Request P M} {rest : List (Request P M)} (queued : w.mbox i = r :: rest)
    (program : Effect (server i).Reply (server i).Stop (server i).State) :
    Placed ({ w with mbox := Function.update w.mbox i rest }.setControl i (.handling r false program)) := by
  have whole := placed.nodup i
  rw [queued, List.nodup_cons] at whole
  refine ⟨fun j q held => placed.issued j q (World.held_receive queued held),
    fun j k q q' first second => placed.same j k q q' (World.held_receive queued first)
      (World.held_receive queued second), fun j => ?_,
    fun j q calling program place => ?_⟩
  · by_cases here : j = i
    · subst here
      simp only [World.setControl, Function.update_self]
      exact whole.2
    · simp only [World.setControl, Function.update_of_ne here]
      exact placed.nodup j
  · by_cases here : j = i
    · subst here
      simp only [World.setControl, Function.update_self] at place ⊢
      cases place
      exact whole.1
    · simp only [World.setControl, Function.update_of_ne here] at place ⊢
      exact placed.apart j q calling program place

omit [DecidableEq ι] [DecidableEq P] in
/-- What is not about the places of requests may change. -/
theorem Placed.congr (placed : Placed w) (mbox : after.mbox = w.mbox) (control : after.control = w.control)
    (issued : after.issued = w.issued) :
    Placed after := by
  have held : ∀ j r, after.Held j r → w.Held j r := fun j r later => by
    unfold World.Held at later ⊢
    rwa [mbox, control] at later
  refine ⟨fun j r later => issued ▸ placed.issued j r (held j r later),
    fun j k r q first second => placed.same j k r q (held j r first) (held k q second),
    fun j => mbox ▸ placed.nodup j, fun j r calling program place => ?_⟩
  rw [control] at place
  rw [mbox]
  exact placed.apart j r calling program place

end Placed

omit [DecidableEq ι] [DecidableEq P] in
/-- The server goes on with its request. -/
theorem handling_on {w : World server} {i : ι} {r : Request P M} {before after : Bool}
    {program next : Effect (server i).Reply (server i).Stop (server i).State}
    (handling : w.control i = .handling r before program) :
    ∀ q calling other, Control.handling r after next = .handling q calling other →
        ∃ calling program, w.control i = .handling q calling program := by
  intro q calling other place
  cases place
  exact ⟨_, _, handling⟩

/-! The requests that servers have, and what they do with them. -/

/-- The requests are good ones of living processes, no program is going to halt, and at most one server has the CPU. -/
structure Manned (good : ι → M → Prop) (promised : (i : ι) → (op : (server i).Op) → (server i).Reply op → Prop)
    (w : World server) : Prop where
  held : ∀ i r, w.Held i r → good i r.msg ∧ w.table r.src ≠ none
  programs : ∀ i r calling program, w.control i = .handling r calling program →
    program.Completes (Asks good i) (Gives promised i r.src) fun _ => True
  calls : ∀ i r program, w.control i = .handling r true program → ∃ op next, program = .call op next ∧
    (server i).callee op ≠ none
  turns : ∀ i j, i ≠ j → (w.control i).yields = true ∨ (w.control j).yields = true

section Manned
variable {good : ι → M → Prop} {promised : (i : ι) → (op : (server i).Op) → (server i).Reply op → Prop}
    {w after : World server} {i : ι} {src : P} {msg : M}

omit [DecidableEq P] [DecidableEq ι] in
theorem Manned.congr (manned : Manned good promised w) (mbox : after.mbox = w.mbox)
    (control : after.control = w.control)
    (alive : ∀ i r, w.Held i r → after.table r.src ≠ none) : Manned good promised after := by
  constructor
  · intro j r later
    unfold World.Held at later
    rw [mbox, control] at later
    exact ⟨(manned.held j r later).1, alive j r later⟩
  · rw [control]
    exact manned.programs
  · rw [control]
    exact manned.calls
  · rw [control]
    exact manned.turns

omit [DecidableEq P] in
theorem Manned.set (manned : Manned good promised w) {control : Control (server i)}
    (same : ∀ r calling program, control = .handling r calling program →
    ∃ calling program, w.control i = .handling r calling program)
    (programs : ∀ r calling program, control = .handling r calling program →
    program.Completes (Asks good i) (Gives promised i r.src) fun _ => True)
    (calls : ∀ r program, control = .handling r true program → ∃ op next, program = .call op next ∧
    (server i).callee op ≠ none)
    (turn : control.yields = true ∨ ∀ j ≠ i, (w.control j).yields = true) :
    Manned good promised (w.setControl i control) := by
  have here : (w.setControl i control).control i = control := Function.update_self ..
  have there {j : ι} (other : j ≠ i) : (w.setControl i control).control j = w.control j :=
    Function.update_of_ne other ..
  refine ⟨fun j r later => manned.held j r (World.held_set same later), fun j r calling program place => ?_,
    fun j r program place => ?_, fun j k apart => ?_⟩
  · by_cases own : j = i
    · subst own
      exact programs r calling program (here ▸ place)
    · exact manned.programs j r calling program (there own ▸ place)
  · by_cases own : j = i
    · subst own
      exact calls r program (here ▸ place)
    · exact manned.calls j r program (there own ▸ place)
  · by_cases first : j = i
    · subst first
      rw [here, there apart.symm]
      exact turn.imp_right fun others => others k apart.symm
    · by_cases second : k = i
      · subst second
        rw [here, there apart]
        exact (turn.imp_right fun others => others j apart).symm
      · rw [there first, there second]
        exact manned.turns j k apart

omit [DecidableEq P] in
theorem Manned.goOn (manned : Manned good promised w) {r : Request P M} {before next : Bool}
    {program rest : Effect (server i).Reply (server i).Stop (server i).State}
    (handling : w.control i = .handling r before program)
    (completes : rest.Completes (Asks good i) (Gives promised i r.src) fun _ => True)
    (calls : next = true → ∃ op more, rest = .call op more ∧ (server i).callee op ≠ none)
    (turn : next = true ∨ ∀ j ≠ i, (w.control j).yields = true) :
    Manned good promised (w.setControl i (.handling r next rest)) := by
  refine manned.set (handling_on handling) (fun q calling other place => ?_) (fun q other place => ?_) turn
  · cases place
    exact completes
  · cases place
    exact calls rfl

omit [DecidableEq ι] in
theorem Manned.die (manned : Manned good promised w) (steady : ∀ i r, w.Held i r → r.src ≠ src) :
    Manned good promised { w with
      table := Function.update w.table src none, waits := Function.update w.waits src none } := by
  refine manned.congr rfl rfl fun i r held => ?_
  dsimp only
  rw [Function.update_of_ne (steady i r held)]
  exact (manned.held i r held).2

omit [DecidableEq ι] in
theorem Manned.create (manned : Manned good promised w) (user : U) :
    Manned good promised { w with table := Function.update w.table src (some user) } := by
  refine manned.congr rfl rfl fun i r held gone => ?_
  by_cases own : r.src = src
  · rw [own] at gone
    exact absurd ((Function.update_self ..).symm.trans gone) nofun
  · exact (manned.held i r held).2 ((Function.update_of_ne own ..).symm.trans gone)

theorem Manned.issue (manned : Manned good promised w) (fine : good i msg) (there : w.table src ≠ none) :
    Manned good promised (w.issue src i msg) := by
  refine ⟨fun j r held => ?_, manned.programs, manned.calls, manned.turns⟩
  rcases World.held_issue held with before | ⟨rfl, rfl⟩
  · exact manned.held j r before
  · exact ⟨fine, there⟩

omit [DecidableEq P] in
theorem Manned.receive (manned : Manned good promised w) {r : Request P M} {rest : List (Request P M)}
    (queued : w.mbox i = r :: rest)
    (quiet : ∀ j ≠ i, (w.control j).yields = true) {program : Effect (server i).Reply (server i).Stop (server i).State}
    (completes : program.Completes (Asks good i) (Gives promised i r.src) fun _ => True) :
    Manned good promised ({ w with mbox := Function.update w.mbox i rest }.setControl i
        (.handling r false program)) := by
  refine ⟨fun j q held => manned.held j q (World.held_receive queued held), fun j q calling other place => ?_,
    fun j q other place => ?_, fun j k apart => ?_⟩
  · by_cases own : j = i
    · subst own
      simp only [World.setControl, Function.update_self] at place
      cases place
      exact completes
    · simp only [World.setControl, Function.update_of_ne own] at place
      exact manned.programs j q calling other place
  · by_cases own : j = i
    · subst own
      simp only [World.setControl, Function.update_self] at place
      cases place
    · simp only [World.setControl, Function.update_of_ne own] at place
      exact manned.calls j q other place
  · by_cases first : j = i
    · subst first
      simp only [World.setControl, Function.update_of_ne apart.symm]
      exact .inr (quiet k apart.symm)
    · simp only [World.setControl, Function.update_of_ne first]
      exact .inl (quiet j first)

end Manned

/-! The processes that wait for servers. -/

/-- The request of a process that waits is open, and a server waits only in a call, for a server of lower rank. -/
structure Waiting (pid : ι → P) (rank : ι → Nat) (w : World server) : Prop where
  unanswered : ∀ src j id, w.waits src = some (j, id) → ∃ r, r.id = id ∧ r.src = src ∧ w.Open j r
  order : ∀ i j id, w.waits (pid i) = some (j, id) → rank j < rank i
  calling : ∀ i, w.waits (pid i) ≠ none → ∃ r program, w.control i = .handling r true program

section Waiting
variable {rank : ι → Nat} {w after : World server} {i : ι} {src : P} {msg : M}

omit [DecidableEq P] in
theorem Waiting.set (waiting : Waiting pid rank w) {control : Control (server i)}
    (keeps : ∀ r calling program, w.control i = .handling r calling program →
      r.id ∈ w.answered ∨ ∃ calling program, control = .handling r calling program)
    (calls : w.waits (pid i) ≠ none → ∃ r program, control = .handling r true program) :
    Waiting pid rank (w.setControl i control) := by
  refine ⟨fun src j id waits => ?_, waiting.order, fun j waits => ?_⟩
  · obtain ⟨r, same, sender, held, unanswered⟩ := waiting.unanswered src j id waits
    refine ⟨r, same, sender, held.imp_right fun handled => ?_, unanswered⟩
    obtain ⟨calling, program, place⟩ := handled
    by_cases own : j = i
    · subst own
      simp only [World.setControl, Function.update_self]
      exact (keeps r calling program place).resolve_left unanswered
    · simp only [World.setControl, Function.update_of_ne own]
      exact ⟨calling, program, place⟩
  · by_cases own : j = i
    · subst own
      simp only [World.setControl, Function.update_self]
      exact calls waits
    · simp only [World.setControl, Function.update_of_ne own]
      exact waiting.calling j waits

omit [DecidableEq P] in
theorem Waiting.goOn (waiting : Waiting pid rank w) {r : Request P M} {before next : Bool}
    {program rest : Effect (server i).Reply (server i).Stop (server i).State}
    (handling : w.control i = .handling r before program) (calls : w.waits (pid i) ≠ none → next = true) :
    Waiting pid rank (w.setControl i (.handling r next rest)) := by
  refine waiting.set (fun q calling other place => ?_) fun waits => ?_
  · rw [handling] at place
    cases place
    exact .inr ⟨_, _, rfl⟩
  · cases calls waits
    exact ⟨_, _, rfl⟩

omit [DecidableEq ι] in
theorem Waiting.die (waiting : Waiting pid rank w) (client : ∀ k, pid k ≠ src) : Waiting pid rank { w with
    table := Function.update w.table src none, waits := Function.update w.waits src none } := by
  refine ⟨fun other j id waits => ?_, fun k j id waits => ?_, fun k waits => ?_⟩
  · by_cases own : other = src
    · rw [own] at waits
      exact absurd ((Function.update_self ..).symm.trans waits) nofun
    · exact waiting.unanswered other j id ((Function.update_of_ne own ..).symm.trans waits)
  · exact waiting.order k j id ((Function.update_of_ne (client k) ..).symm.trans waits)
  · exact waiting.calling k ((Function.update_of_ne (client k) ..).symm.trans_ne waits)

theorem Waiting.issue (waiting : Waiting pid rank w) (fresh : w.issued ∉ w.answered)
    (servers : ∀ k, pid k = src → rank i < rank k ∧ ∃ r program, w.control k = .handling r true program) :
    Waiting pid rank (w.issue src i msg) := by
  refine ⟨fun other j id waits => ?_, fun k j id waits => ?_, fun k waits => ?_⟩
  · by_cases own : other = src
    · subst own
      simp only [World.issue, Function.update_self] at waits
      cases waits
      refine ⟨{ id := w.issued, src := other, msg }, rfl, rfl, .inl ?_, fresh⟩
      simp only [World.issue, Function.update_self]
      exact List.mem_append_right _ List.mem_cons_self
    · simp only [World.issue, Function.update_of_ne own] at waits
      obtain ⟨r, same, sender, held, unanswered⟩ := waiting.unanswered other j id waits
      refine ⟨r, same, sender, held.imp_left fun queued => ?_, unanswered⟩
      by_cases here : j = i
      · subst here
        simp only [World.issue, Function.update_self]
        exact List.mem_append_left _ queued
      · simp only [World.issue, Function.update_of_ne here]
        exact queued
  · by_cases own : pid k = src
    · simp only [World.issue, own, Function.update_self] at waits
      cases waits
      exact (servers k own).1
    · simp only [World.issue, Function.update_of_ne own] at waits
      exact waiting.order k j id waits
  · by_cases own : pid k = src
    · exact (servers k own).2
    · simp only [World.issue, Function.update_of_ne own] at waits
      exact waiting.calling k waits

omit [DecidableEq P] in
theorem Waiting.receive (waiting : Waiting pid rank w) {state : (server i).State}
    (idle : w.control i = .waiting state) {r : Request P M}
    {rest : List (Request P M)} (queued : w.mbox i = r :: rest)
    (program : Effect (server i).Reply (server i).Stop (server i).State) :
    Waiting pid rank ({ w with mbox := Function.update w.mbox i rest }.setControl i (.handling r false program)) := by
  refine ⟨fun src j id waits => ?_, waiting.order, fun j waits => ?_⟩
  · obtain ⟨q, same, sender, held, unanswered⟩ := waiting.unanswered src j id waits
    refine ⟨q, same, sender, ?_, unanswered⟩
    unfold World.Held at held ⊢
    by_cases own : j = i
    · subst own
      simp only [World.setControl, Function.update_self]
      rcases held with member | ⟨_, _, place⟩
      · rw [queued] at member
        rcases List.mem_cons.mp member with rfl | later
        · exact .inr ⟨_, _, rfl⟩
        · exact .inl later
      · rw [idle] at place
        cases place
    · simp only [World.setControl, Function.update_of_ne own]
      exact held
  · obtain ⟨q, other, place⟩ := waiting.calling j waits
    by_cases own : j = i
    · subst own
      rw [idle] at place
      cases place
    · simp only [World.setControl, Function.update_of_ne own]
      exact ⟨q, other, place⟩

/-- The process that waits with the request gets the reply. -/
theorem Waiting.deliver (waiting : Waiting pid rank w) (placed : Placed w) {r : Request P M} (held : w.Held i r)
    (own : w.waits r.src = some (i, r.id)) : Waiting pid rank (w.deliver i r.src r.id) := by
  have delivered : w.deliver i r.src r.id =
      { w with waits := Function.update w.waits r.src none, answered := w.answered ++ [r.id], returned := w.returned ++ [(r.id, r.id)] } := by
    unfold World.deliver
    rw [own]
    exact if_pos rfl
  rw [delivered]
  have before {src : P} {waits : ι × Nat} (later : Function.update w.waits r.src none src = some waits) : src ≠ r.src ∧
      w.waits src = some waits := by
    by_cases same : src = r.src
    · rw [same, Function.update_self] at later
      cases later
    · rw [Function.update_of_ne same] at later
      exact ⟨same, later⟩
  refine ⟨fun src j id waits => ?_, fun k j id waits => ?_, fun k waits => ?_⟩
  · obtain ⟨other, waits⟩ := before waits
    obtain ⟨q, same, sender, place, unanswered⟩ := waiting.unanswered src j id waits
    refine ⟨q, same, sender, place, fun answered => ?_⟩
    rcases List.mem_append.mp answered with earlier | new
    · exact unanswered earlier
    · obtain ⟨-, rfl⟩ := placed.same j i q r place held (List.mem_singleton.mp new)
      exact other sender.symm
  · exact waiting.order k j id (before waits).2
  · obtain ⟨some, there⟩ := Option.ne_none_iff_exists'.mp waits
    exact waiting.calling k (by rw [(before there).2]; nofun)

end Waiting

/-! All of it together. -/

structure Live [Fintype ι] (pid : ι → P) (good : ι → M → Prop)
    (promised : (i : ι) → (op : (server i).Op) → (server i).Reply op → Prop)
    (rank : ι → Nat) (w : World server) : Prop where
  sound : Sound pid promised w
  placed : Placed w
  manned : Manned good promised w
  waiting : Waiting pid rank w

section Live
variable [Fintype ι] {good : ι → M → Prop}
    {promised : (i : ι) → (op : (server i).Op) → (server i).Reply op → Prop} {rank : ι → Nat}
  {w after : World server} {i : ι} {r : Request P M}

omit [DecidableEq P] [DecidableEq ι] in
/-- A request that has been made is open until it is answered. -/
theorem Live.open_of_issued (live : Live pid good promised rank w) {id : Nat} (issued : id < w.issued)
    (unanswered : id ∉ w.answered) :
    ∃ i r, r.id = id ∧ w.Open i r := by
  obtain ⟨left, balanced⟩ := live.sound.balanced
  have total := balanced.total id
  rw [if_pos issued, List.count_eq_zero_of_not_mem unanswered, Nat.zero_add] at total
  obtain ⟨i, -, due⟩ := Finset.exists_ne_zero_of_sum_ne_zero (total ▸ Nat.one_ne_zero)
  rcases Nat.eq_zero_or_pos ((w.mbox i).countP fun r => r.id = id) with none | some
  · rw [World.due, none, Nat.zero_add] at due
    cases place : w.control i with
    | waiting state => exact absurd (by rw [place]; rfl) due
    | handling r calling program =>
      rw [place, Control.owing] at due
      have same : r.id = id := of_not_not fun other => due (if_neg other)
      exact ⟨i, r, same, .inr ⟨_, _, place⟩, same ▸ unanswered⟩
  · obtain ⟨r, member, same⟩ := List.countP_pos_iff.mp some
    have same := of_decide_eq_true same
    exact ⟨i, r, same, .inl member, same ▸ unanswered⟩

omit [DecidableEq P] [DecidableEq ι] in
theorem Live.fresh (live : Live pid good promised rank w) : w.issued ∉ w.answered := by
  obtain ⟨left, balanced⟩ := live.sound.balanced
  have total := balanced.total w.issued
  rw [if_neg (Nat.lt_irrefl _)] at total
  exact List.count_eq_zero.mp (by omega)

omit [DecidableEq P] [DecidableEq ι] in
/-- A server that is through with a request has answered it. -/
theorem Live.finished (live : Live pid good promised rank w) {calling : Bool} {state : (server i).State}
    (handling : w.control i = .handling r calling (.pure state)) : r.id ∈ w.answered := by
  obtain ⟨left, balanced⟩ := live.sound.balanced
  have held : w.Held i r := .inr ⟨_, _, handling⟩
  have none : left i = 0 := balanced.owes i r calling _ handling
  refine List.count_pos_iff.mp (Nat.pos_of_ne_zero fun zero => ?_)
  have total := balanced.total r.id
  rw [if_pos (live.placed.issued i r held), zero, Nat.zero_add] at total
  obtain ⟨j, -, due⟩ := Finset.exists_ne_zero_of_sum_ne_zero (total ▸ Nat.one_ne_zero)
  apply due
  have queue : (w.mbox j).countP (fun q => q.id = r.id) = 0 := List.countP_eq_zero.mpr fun q member same => by
    obtain ⟨rfl, rfl⟩ := live.placed.same j i q r (.inl member) held (of_decide_eq_true same)
    exact live.placed.apart _ _ _ _ handling member
  rw [World.due, queue, Nat.zero_add]
  cases place : w.control j with
  | waiting state => rfl
  | handling q calling program =>
    dsimp only [Control.owing]
    split_ifs with same
    · obtain ⟨rfl, rfl⟩ := live.placed.same j i q r (.inr ⟨_, _, place⟩) held same
      exact none
    · rfl

omit [DecidableEq P] [DecidableEq ι] in
/-- A reply goes to the sender of the request, which waits for it. -/
theorem Live.replying (live : Live pid good promised rank w) {calling : Bool} {op : (server i).Op}
    {next : (server i).Reply op → Effect (server i).Reply (server i).Stop (server i).State}
    (handling : w.control i = .handling r calling (.call op next))
    {dst : P} (sends : (server i).target op = some dst) : dst = r.src ∧ w.waits r.src = some (i, r.id) := by
  obtain ⟨left, balanced⟩ := live.sound.balanced
  have held : w.Held i r := .inr ⟨_, _, handling⟩
  have owes := balanced.owes i r calling _ handling
  simp only [Effect.Replies, sends] at owes
  obtain ⟨same, rest, one, -⟩ := owes
  refine ⟨same, (live.sound.clients.waits i r ⟨held, fun answered => ?_⟩).resolve_right (live.manned.held i r held).2⟩
  have most := balanced.count_le i r.id
  have before := List.count_pos_iff.mpr answered
  simp only [World.due, handling, Control.owing, if_pos] at most
  omega

omit [DecidableEq P] [DecidableEq ι] in
/-- In a steady run the requests that are received are good ones. -/
theorem Live.proper (live : Live pid good promised rank w) {event : Event server}
    (steady : Steady good promised w event) :
    Proper (fun i _ r => good i r.msg) promised w event := by
  cases event with
  | receive i =>
    intro state r rest idle queued
    exact (live.manned.held i r (.inl (by rw [queued]; exact List.mem_cons_self))).1
  | proceed i op value => exact steady
  | create src user => exact steady
  | request | die | finish | reply | call => trivial

theorem Live.step (serving : Serving pid good promised rank) (live : Live pid good promised rank w)
    {event : Event server} (step : Guarded (Steady good promised) (Step pid) w event after) :
    Live pid good promised rank after := by
  obtain ⟨steady, step⟩ := step
  have answering : Answering (fun i _ r => good i r.msg) promised := fun i state r fine =>
    serving.once i state r.msg r.src fine
  have sound : Sound pid promised after := live.sound.step answering ⟨live.proper steady, step⟩
  obtain ⟨-, placed, manned, waiting⟩ := id live
  cases step with
  | request quiet client there free =>
    have alive := Option.isSome_iff_ne_none.mp there
    exact ⟨sound, placed.issue, manned.issue steady alive, waiting.issue live.fresh
      fun k same => absurd same (client k)⟩
  | die quiet client => exact ⟨sound, placed.congr rfl rfl rfl, manned.die steady, waiting.die client⟩
  | create quiet none =>
    exact ⟨sound, placed.congr rfl rfl rfl, manned.create _, ⟨waiting.unanswered, waiting.order, waiting.calling⟩⟩
  | @receive i state r rest quiet idle queued =>
    have fine := (manned.held i r (.inl (by rw [queued]; exact List.mem_cons_self))).1
    exact ⟨sound, placed.receive queued _, manned.receive queued quiet (serving.completes i state r.msg r.src fine),
      waiting.receive idle queued _⟩
  | @finish i r state handling =>
    refine ⟨sound, placed.set nofun, manned.set nofun nofun nofun (.inl rfl),
      waiting.set (fun q calling program place => ?_) fun waits => ?_⟩
    · rw [handling] at place
      cases place
      exact .inl (live.finished handling)
    · obtain ⟨q, program, place⟩ := waiting.calling i waits
      rw [handling] at place
      cases place
  | @reply i r op next dst value handling sends =>
    obtain ⟨rfl, own⟩ := live.replying handling sends
    obtain ⟨mbox, control, table, issued, -⟩ := w.deliver_keeps i r.src r.id
    have held : w.Held i r := .inr ⟨_, _, handling⟩
    have handling' : (w.deliver i r.src r.id).control i = .handling r false (.call op next) := control ▸ handling
    have completes := (manned.programs _ _ _ _ handling).2 value (.inl (by rw [sends]; nofun))
    have delivered : Manned good promised (w.deliver i r.src r.id) := by
      refine manned.congr mbox control fun j q later => ?_
      rw [table]
      exact (manned.held j q later).2
    have quiet : ∀ j ≠ i, ((w.deliver i r.src r.id).control j).yields = true := fun j other => by
      refine (delivered.turns j i other).resolve_right fun yields => ?_
      rw [handling'] at yields
      cases yields
    refine ⟨sound, (placed.congr mbox control issued).set (handling_on handling'),
      delivered.goOn handling' completes nofun (.inr quiet),
      (waiting.deliver placed held own).goOn handling' fun waits => ?_⟩
    obtain ⟨q, program, place⟩ := (waiting.deliver placed held own).calling i waits
    rw [handling'] at place
    cases place
  | @call i r op next handling calls =>
    have goesOn := manned.goOn handling (manned.programs _ _ _ _ handling)
      (fun _ => ⟨op, next, rfl, by rw [calls]; nofun⟩) (.inl rfl)
    exact ⟨sound, placed.set (handling_on handling), goesOn, waiting.goOn handling fun _ => rfl⟩
  | @issue i r op next j msg handling calls free =>
    have fine : good j msg := (manned.programs _ _ _ _ handling).1 j msg calls
    have goesOn := manned.goOn handling (manned.programs _ _ _ _ handling)
      (fun _ => ⟨op, next, rfl, by rw [calls]; nofun⟩) (.inl rfl)
    have waits : Waiting pid rank (w.setControl i (.handling r true (.call op next))) :=
      waiting.goOn handling fun waits => absurd free waits
    refine ⟨sound, (placed.set (handling_on handling)).issue, goesOn.issue fine (live.sound.clients.servers i),
      waits.issue live.fresh fun k own => ?_⟩
    cases serving.apart own
    exact ⟨serving.below i op j msg calls, r, _, Function.update_self ..⟩
  | @proceed i r calling op next value quiet handling silent calls free returns =>
    have alive := (manned.held i r (.inr ⟨_, _, handling⟩)).2
    have completes := (manned.programs _ _ _ _ handling).2 value (.inr ⟨w.table, alive, returns, steady⟩)
    exact ⟨sound, placed.set (handling_on handling), manned.goOn handling completes nofun (.inr quiet),
      waiting.goOn handling fun waits => absurd free waits⟩

omit [DecidableEq P] [DecidableEq ι] in
theorem World.Initial.live (initial : w.Initial pid) : Live pid good promised rank w := by
  have none : ∀ i r, ¬ w.Held i r := fun i r held => by
    rcases held with queued | ⟨calling, program, place⟩
    · rw [initial.mbox i] at queued
      cases queued
    · obtain ⟨state, idle⟩ := initial.control i
      rw [idle] at place
      cases place
  have idle : ∀ i r calling program, w.control i ≠ .handling r calling program := fun i r calling program place =>
    none i r (.inr ⟨_, _, place⟩)
  refine ⟨initial.sound, ⟨fun i r held => absurd held (none i r), fun i j r q held => absurd held (none i r),
    fun i => ?_, fun i r calling program place => ?_⟩,
    ⟨fun i r held => absurd held (none i r), fun i r calling program place => absurd place (idle i r calling program),
      fun i r program place => absurd place (idle i r true program), fun i j _ => .inl ?_⟩,
    ⟨fun src j id waits => ?_, fun i j id waits => ?_, fun i waits => absurd (initial.waits _) waits⟩⟩
  · rw [initial.mbox i]
    exact List.nodup_nil
  · exact absurd place (idle i r calling program)
  · obtain ⟨state, place⟩ := initial.control i
    rw [place]
    rfl
  · rw [initial.waits] at waits
    cases waits
  · rw [initial.waits] at waits
    cases waits

end Live

/-! A server can always go on. -/

/-- The server can take a step. -/
def Able (pid : ι → P) (good : ι → M → Prop) (promised : (i : ι) → (op : (server i).Op) → (server i).Reply op → Prop)
    (w : World server) (i : ι) : Prop :=
  ∃ event after, Event.actor event = some i ∧ Guarded (Steady good promised) (Step pid) w event after

/-- A server with nothing to do cannot. -/
theorem not_able_of_idle {good : ι → M → Prop}
    {promised : (i : ι) → (op : (server i).Op) → (server i).Reply op → Prop} {w : World server} {i : ι}
    {state : (server i).State} (idle : w.control i = .waiting state) (empty : w.mbox i = []) :
    ¬ Able pid good promised w i := by
  rintro ⟨event, after, own, -, step⟩
  cases step <;> cases own <;> simp_all

section Able
variable [Fintype ι] {good : ι → M → Prop}
    {promised : (i : ι) → (op : (server i).Op) → (server i).Reply op → Prop} {rank : ι → Nat}
  {w after : World server} {i : ι} {r : Request P M}

/-- A server that has the CPU goes on. -/
theorem Live.able_of_running (serving : Serving pid good promised rank) (live : Live pid good promised rank w)
    {program : Effect (server i).Reply (server i).Stop (server i).State}
    (handling : w.control i = .handling r false program) :
    Able pid good promised w i := by
  have quiet : ∀ j ≠ i, (w.control j).yields = true := fun j other =>
    (live.manned.turns j i other).resolve_right fun yields => by rw [handling] at yields; cases yields
  have free : w.waits (pid i) = none := of_not_not fun waits => by
    obtain ⟨q, other, place⟩ := live.waiting.calling i waits
    rw [handling] at place
    cases place
  cases program with
  | pure state => exact ⟨.finish i, _, rfl, trivial, .finish handling⟩
  | halt reason => exact (live.manned.programs i r false _ handling).elim
  | call op next =>
    cases sends : (server i).target op with
    | some dst =>
      obtain ⟨value⟩ := serving.sends i op (by rw [sends]; nofun)
      exact ⟨.reply i, _, rfl, trivial, .reply value handling sends⟩
    | none =>
      cases calls : (server i).callee op with
      | none =>
        obtain ⟨value, returns, promise⟩ := serving.returns i w.table op sends
        exact ⟨.proceed i op value, _, rfl, promise, .proceed quiet handling sends (by rw [calls]; rfl) free returns⟩
      | some callee =>
        cases callee with
        | none => exact ⟨.call i, _, rfl, trivial, .call handling calls⟩
        | some request => exact ⟨.call i, _, rfl, trivial, .issue handling calls free⟩

/-- A server with a request that does not wait for another server goes on when it gets the CPU. -/
theorem Live.able_of_free (serving : Serving pid good promised rank) (live : Live pid good promised rank w)
    (quiet : ∀ j, (w.control j).yields = true) (held : w.Held i r) (free : w.waits (pid i) = none) :
    Able pid good promised w i := by
  cases place : w.control i with
  | waiting state =>
    have queued : r ∈ w.mbox i := held.resolve_right fun ⟨_, _, handled⟩ => by
      rw [place] at handled
      cases handled
    obtain ⟨q, rest, queue⟩ := List.exists_cons_of_ne_nil (List.ne_nil_of_mem queued)
    exact ⟨.receive i, _, rfl, trivial, .receive (fun j _ => quiet j) place queue⟩
  | handling q calling program =>
    have yields := quiet i
    rw [place] at yields
    obtain rfl : calling = true := yields
    obtain ⟨op, next, rfl, calls⟩ := live.manned.calls i q program place
    have silent := serving.silent i op calls
    obtain ⟨value, returns, promise⟩ := serving.returns i w.table op silent
    exact ⟨.proceed i op value, _, rfl, promise,
      .proceed (fun j _ => quiet j) place silent (Option.isSome_iff_ne_none.mpr calls).symm free returns⟩

theorem Live.unstuck (serving : Serving pid good promised rank) (live : Live pid good promised rank w)
    (held : w.Held i r) :
    ∃ j, Able pid good promised w j := by
  by_cases quiet : ∀ j, (w.control j).yields = true
  · -- a server that waits for another one waits for one of lower rank
    induction size : rank i using Nat.strong_induction_on generalizing i r with
    | _ size ih =>
      cases waits : w.waits (pid i) with
      | none => exact ⟨i, live.able_of_free serving quiet held waits⟩
      | some request =>
        obtain ⟨j, id⟩ := request
        obtain ⟨q, -, -, place, -⟩ := live.waiting.unanswered _ j id waits
        exact ih (rank j) (size ▸ live.waiting.order i j id waits) place rfl
  · obtain ⟨j, busy⟩ := not_forall.mp quiet
    cases place : w.control j with
    | waiting state => exact absurd (by rw [place]; rfl) busy
    | handling q calling program =>
      cases calling with
      | true => exact absurd (by rw [place]; rfl) busy
      | false => exact ⟨j, live.able_of_running serving place⟩

end Able

/-! What a step does to the servers. -/

section Steps
variable {w after : World server} {event : Event server} {i : ι} {r : Request P M}

/-- The steps of others. -/
theorem Step.frame (apart : Function.Injective pid) (step : Step pid w event after) (other : event.actor ≠ some i) :
    after.control i = w.control i ∧ w.mbox i <+: after.mbox i ∧
        (after.waits (pid i) = w.waits (pid i) ∨ after.waits (pid i) = none) := by
  have queue {src : P} {j : ι} {msg : M} : w.mbox i <+: (w.issue src j msg).mbox i := by
    unfold World.issue
    by_cases here : i = j
    · rw [here]
      dsimp only
      rw [Function.update_self]
      exact List.prefix_append _ _
    · dsimp only
      rw [Function.update_of_ne here]
  cases step with
  | request quiet client => exact ⟨rfl, queue, .inl (Function.update_of_ne (client i) ..)⟩
  | die quiet client => exact ⟨rfl, List.prefix_refl _, .inl (Function.update_of_ne (client i) ..)⟩
  | create => exact ⟨rfl, List.prefix_refl _, .inl rfl⟩
  | @receive j =>
    have apart : i ≠ j := fun same => other (congrArg some same.symm)
    refine ⟨Function.update_of_ne apart .., ?_, .inl rfl⟩
    simp only [World.setControl, Function.update_of_ne apart]
    exact List.prefix_refl _
  | @finish j =>
    exact ⟨Function.update_of_ne (fun same : i = j => other (congrArg some same.symm)) .., List.prefix_refl _, .inl rfl⟩
  | @reply j r op next dst =>
    obtain ⟨mbox, control, -, -, -⟩ := w.deliver_keeps j dst r.id
    refine ⟨(Function.update_of_ne (fun same : i = j => other (congrArg some same.symm)) ..).trans (congrFun control i),
      ?_, ?_⟩
    · simp only [World.setControl, mbox]
      exact List.prefix_refl _
    · simp only [World.setControl]
      rcases w.deliver_cases j dst r.id with ⟨_, _, waits, _⟩ | ⟨waits, _⟩
      · rw [waits]
        by_cases own : pid i = dst
        · exact .inr (own ▸ Function.update_self ..)
        · exact .inl (Function.update_of_ne own ..)
      · exact .inl (congrFun waits _)
  | @call j =>
    exact ⟨Function.update_of_ne (fun same : i = j => other (congrArg some same.symm)) .., List.prefix_refl _, .inl rfl⟩
  | @issue j =>
    have apart' : i ≠ j := fun same => other (congrArg some same.symm)
    exact ⟨Function.update_of_ne apart' .., queue, .inl (Function.update_of_ne (fun same => apart' (apart same)) ..)⟩
  | @proceed j =>
    exact ⟨Function.update_of_ne (fun same : i = j => other (congrArg some same.symm)) .., List.prefix_refl _, .inl rfl⟩

/-- A step of a server that handles a request: the program comes nearer to its end, or the server gives up the CPU. -/
theorem Step.own {calling : Bool} {program : Effect (server i).Reply (server i).Stop (server i).State}
    (step : Step pid w event after)
    (own : event.actor = some i) (handling : w.control i = .handling r calling program) : w.mbox i <+: after.mbox i ∧
      ((∃ state, program = .pure state ∧ after.control i = .waiting state ∧ after.answered = w.answered) ∨
        ∃ op next, program = .call op next ∧
          ((∃ value, after.control i = .handling r false (next value)) ∨ calling = false ∧
              after.control i = .handling r true program)) := by
  cases step with
  | request | die | create => cases own
  | receive quiet idle =>
    cases own
    rw [handling] at idle
    cases idle
  | finish place =>
    cases own
    rw [handling] at place
    cases place
    exact ⟨List.prefix_refl _, .inl ⟨_, rfl, Function.update_self .., rfl⟩⟩
  | @reply _ r _ next dst value place =>
    cases own
    rw [handling] at place
    cases place
    refine ⟨?_, .inr ⟨_, next, rfl, .inl ⟨value, Function.update_self ..⟩⟩⟩
    simp only [World.setControl, (w.deliver_keeps i dst r.id).1]
    exact List.prefix_refl _
  | call place =>
    cases own
    rw [handling] at place
    cases place
    exact ⟨List.prefix_refl _, .inr ⟨_, _, rfl, .inr ⟨rfl, Function.update_self ..⟩⟩⟩
  | @issue _ _ _ _ j msg place =>
    cases own
    rw [handling] at place
    cases place
    refine ⟨?_, .inr ⟨_, _, rfl, .inr ⟨rfl, Function.update_self ..⟩⟩⟩
    simp only [World.setControl, World.issue]
    by_cases here : i = j
    · rw [here, Function.update_self]
      exact List.prefix_append _ _
    · rw [Function.update_of_ne here]
  | proceed quiet place =>
    cases own
    rw [handling] at place
    cases place
    exact ⟨List.prefix_refl _, .inr ⟨_, _, rfl, .inl ⟨_, Function.update_self ..⟩⟩⟩

/-- A step of a server that is in its loop. -/
theorem Step.receives {state : (server i).State} (step : Step pid w event after) (own : event.actor = some i)
    (idle : w.control i = .waiting state) :
    ∃ r rest program, w.mbox i = r :: rest ∧ after.mbox i = rest ∧ after.control i = .handling r false program := by
  cases step with
  | request | die | create => cases own
  | receive quiet place queued =>
    cases own
    exact ⟨_, _, _, queued, Function.update_self .., Function.update_self ..⟩
  | finish place | reply _ place | call place | issue place | proceed _ place =>
    cases own
    rw [idle] at place
    cases place

/-- While a server has the CPU there are no other steps. -/
theorem Step.holder {program : Effect (server i).Reply (server i).Stop (server i).State} (step : Step pid w event after)
    (turns : ∀ j, j ≠ i → (w.control j).yields = true) (handling : w.control i = .handling r false program) :
    event.actor = some i := by
  have busy : (w.control i).yields ≠ true := by
    rw [handling]
    exact Bool.false_ne_true
  have here {j : ι} {q : Request P M} {other : Effect (server j).Reply (server j).Stop (server j).State}
    (place : w.control j = .handling q false other) :
      j = i := of_not_not fun apart => by
    have yields := turns j apart
    rw [place] at yields
    cases yields
  cases step with
  | request quiet => exact absurd (quiet i) busy
  | die quiet => exact absurd (quiet i) busy
  | create quiet => exact absurd (quiet i) busy
  | @receive j _ _ _ quiet => exact congrArg some (of_not_not fun apart => busy (quiet i fun same => apart same.symm))
  | finish place => exact congrArg some (here place)
  | reply _ place => exact congrArg some (here place)
  | call place => exact congrArg some (here place)
  | issue place => exact congrArg some (here place)
  | @proceed j _ _ _ _ _ quiet =>
    exact congrArg some (of_not_not fun apart => busy (quiet i fun same => apart same.symm))

theorem Step.answered (step : Step pid w event after) : w.answered <+: after.answered := by
  cases step with
  | @reply i r op next dst =>
    simp only [World.setControl, (w.deliver_keeps i dst r.id).2.2.2.2]
    exact List.prefix_append _ _
  | request | die | create | receive | finish | call | issue | proceed => exact List.prefix_refl _

end Steps

end Rpc
end Egos.Library
