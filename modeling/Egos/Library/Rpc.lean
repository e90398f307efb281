import Egos.Library.Effect
import Egos.Library.Tally
import Egos.Library.Transition
import Mathlib.Algebra.Order.BigOperators.Group.Finset

/-! Servers that answer the requests of processes, one request at a time. A reply carries
nothing that tells which request it is for: it reaches a process that waits for this server,
and is dropped otherwise. While it handles a request, a server may itself wait for others.
If every handler replies exactly once, all replies go where they belong. -/

namespace Egos.Library

namespace Effect
variable {Op P : Type} {Reply : Op → Type} {ε α β : Type}

/-- The program replies so many times, always to the same process, on every path on which
the other calls return what is promised, unless it halts. -/
def Replies (target : Op → Option P) (promised : (op : Op) → Reply op → Prop) (src : P) : Effect Reply ε α → Nat → Prop
  | .pure _, left => left = 0
  | .halt _, _ => True
  | .call op next, left =>
    match target op with
    | none => ∀ reply, promised op reply → (next reply).Replies target promised src left
    | some dst => dst = src ∧ ∃ rest, left = rest + 1 ∧ ∀ reply, (next reply).Replies target promised src rest

variable {target : Op → Option P} {promised : (op : Op) → Reply op → Prop} {src : P}

theorem Replies.bind {first : Effect Reply ε α} {next : α → Effect Reply ε β} {before after : Nat}
    (left : first.Replies target promised src before)
    (right : ∀ value, (next value).Replies target promised src after) :
    (first >>= next).Replies target promised src (before + after) := by
  induction first generalizing before with
  | pure value =>
    cases left
    rw [Nat.zero_add]
    exact right value
  | halt reason => trivial
  | call op rest ih =>
    rw [call_bind]
    unfold Replies at left ⊢
    cases sends : target op with
    | none =>
      simp only [sends] at left ⊢
      exact fun reply kept => ih reply (left reply kept)
    | some dst =>
      simp only [sends] at left ⊢
      obtain ⟨same, later, rfl, left⟩ := left
      exact ⟨same, later + after, Nat.add_right_comm .., fun reply => ih reply (left reply)⟩

/-- More may be promised. -/
theorem Replies.mono {more : (op : Op) → Reply op → Prop} {program : Effect Reply ε α} {left : Nat}
    (replies : program.Replies target promised src left)
    (implies : ∀ op reply, more op reply → promised op reply) : program.Replies target more src left := by
  induction program generalizing left with
  | pure value => exact replies
  | halt reason => trivial
  | call op next ih =>
    unfold Replies at replies ⊢
    cases sends : target op with
    | none =>
      simp only [sends] at replies ⊢
      exact fun reply kept => ih reply (replies reply (implies op reply kept))
    | some dst =>
      simp only [sends] at replies ⊢
      obtain ⟨same, rest, one, replies⟩ := replies
      exact ⟨same, rest, one, fun reply => ih reply (replies reply)⟩

theorem Replies.pure (value : α) : (Pure.pure value : Effect Reply ε α).Replies target promised src 0 := rfl

/-- The first part does not reply. -/
theorem Replies.behind {first : Effect Reply ε α} {next : α → Effect Reply ε β} {left : Nat}
    (silent : first.Replies target promised src 0) (rest : ∀ value, (next value).Replies target promised src left) :
    (first >>= next).Replies target promised src left := by
  have both := silent.bind rest
  rwa [Nat.zero_add] at both

theorem Replies.ite {condition : Prop} [Decidable condition] {yes no : Effect Reply ε α} {left : Nat}
    (first : yes.Replies target promised src left) (second : no.Replies target promised src left) :
    (if condition then yes else no).Replies target promised src left := by
  split_ifs
  · exact first
  · exact second

end Effect

namespace Rpc

/-- The language of a server: its calls, and what it does with a request. -/
structure Protocol (ι P M U : Type) where
  Op : Type
  Reply : Op → Type
  Stop : Type
  State : Type
  /-- The process that a reply is sent to. -/
  target : Op → Option P
  /-- Calls in which the server waits for another process, and the request if that is one of the servers. -/
  callee : Op → Option (Option (ι × M))
  returns : (P → Option U) → (op : Op) → Reply op → Prop
  serve : State → M → P → Effect Reply Stop State

/-- The ghost `id` counts the requests. -/
structure Request (P M : Type) where
  id : Nat
  src : P
  msg : M

/-- Where a server is in its loop; `calling` tells that it waits in the call it is at. -/
inductive Control {ι P M U : Type} (server : Protocol ι P M U) where
  | waiting (state : server.State)
  | handling (r : Request P M) (calling : Bool) (program : Effect server.Reply server.Stop server.State)

/-- `waits` are the processes that wait for a server, with the request they have made. The
ghosts are the requests that have been answered, once for each reply, and those whose senders
have got a reply, each with the request that the reply was made for. -/
structure World {ι P M U : Type} (server : ι → Protocol ι P M U) where
  table : P → Option U
  waits : P → Option (ι × Nat)
  mbox : ι → List (Request P M)
  control : (i : ι) → Control (server i)
  issued : Nat
  answered : List Nat
  returned : List (Nat × Nat)

inductive Event {ι P M U : Type} (server : ι → Protocol ι P M U) where
  | request (src : P) (i : ι) (msg : M)
  | die (pid : P)
  | create (pid : P) (user : U)
  | receive (i : ι)
  /-- The server is back in its loop. -/
  | finish (i : ι)
  | reply (i : ι)
  | call (i : ι)
  | proceed (i : ι) (op : (server i).Op) (value : (server i).Reply op)

variable {ι P M U : Type} [DecidableEq ι] [DecidableEq P] {server : ι → Protocol ι P M U} {pid : ι → P}

/-- The server has given up the CPU. -/
def Control.yields {server : Protocol ι P M U} : Control server → Bool
  | .waiting _ => true
  | .handling _ calling _ => calling

namespace World

/-- A process sends a request to a server and waits. -/
def issue (w : World server) (src : P) (i : ι) (msg : M) : World server :=
  { w with
    waits := Function.update w.waits src (some (i, w.issued))
    mbox := Function.update w.mbox i (w.mbox i ++ [{ id := w.issued, src, msg }])
    issued := w.issued + 1 }

def setControl (w : World server) (i : ι) (control : Control (server i)) : World server :=
  { w with control := Function.update w.control i control }

/-- A reply of a server, made for the request. -/
def deliver (w : World server) (i : ι) (dst : P) (id : Nat) : World server :=
  let answered := w.answered ++ [id]
  match w.waits dst with
  | some (j, own) =>
    if j = i then { w with waits := Function.update w.waits dst none, answered, returned := w.returned ++ [(own, id)] }
      else { w with answered }
  | none => { w with answered }

end World

/-- Only one process has the CPU. A server keeps it until it waits. -/
inductive Step (pid : ι → P) : World server → Event server → World server → Prop where
  | request {w src i msg} : (∀ j, (w.control j).yields) → (∀ j, pid j ≠ src) → (w.table src).isSome →
      w.waits src = none →
      Step pid w (.request src i msg) (w.issue src i msg)
  | die {w src} : (∀ j, (w.control j).yields) → (∀ j, pid j ≠ src) →
      Step pid w (.die src) { w with table := Function.update w.table src none, waits := Function.update w.waits src none }
  | create {w src user} : (∀ j, (w.control j).yields) → w.table src = none →
      Step pid w (.create src user) { w with table := Function.update w.table src (some user) }
  | receive {w i state r rest} : (∀ j ≠ i, (w.control j).yields) → w.control i = .waiting state → w.mbox i = r :: rest →
      Step pid w (.receive i)
        ({ w with mbox := Function.update w.mbox i rest }.setControl i
          (.handling r false ((server i).serve state r.msg r.src)))
  | finish {w i r state} : w.control i = .handling r false (.pure state) →
      Step pid w (.finish i) (w.setControl i (.waiting state))
  | reply {w i r op next dst} (value) : w.control i = .handling r false (.call op next) →
      (server i).target op = some dst →
      Step pid w (.reply i) ((w.deliver i dst r.id).setControl i (.handling r false (next value)))
  | call {w i r op next} : w.control i = .handling r false (.call op next) → (server i).callee op = some none →
      Step pid w (.call i) (w.setControl i (.handling r true (.call op next)))
  | issue {w i r op next j msg} : w.control i = .handling r false (.call op next) →
      (server i).callee op = some (some (j, msg)) →
      w.waits (pid i) = none → Step pid w (.call i)
        ((w.issue (pid i) j msg).setControl i (.handling r true (.call op next)))
  | proceed {w i r calling op next value} : (∀ j ≠ i, (w.control j).yields) →
      w.control i = .handling r calling (.call op next) →
      (server i).target op = none → calling = ((server i).callee op).isSome → w.waits (pid i) = none →
      (server i).returns w.table op value →
      Step pid w (.proceed i op value) (w.setControl i (.handling r false (next value)))

/-- The request is in the mailbox or is being handled. -/
def World.Held (w : World server) (i : ι) (r : Request P M) : Prop :=
  r ∈ w.mbox i ∨ ∃ calling program, w.control i = .handling r calling program

/-- No reply has been sent yet. -/
def World.Open (w : World server) (i : ι) (r : Request P M) : Prop := w.Held i r ∧ r.id ∉ w.answered

/-- The request has been received and the server has come back to its loop. -/
def World.Handled (w : World server) (id : Nat) : Prop :=
  id < w.issued ∧ ∀ i, (∀ r ∈ w.mbox i, r.id ≠ id) ∧
    ∀ r calling program, w.control i = .handling r calling program → r.id ≠ id

/-- Every request is answered once, and every process gets the reply to its own request. -/
structure World.Matched (w : World server) : Prop where
  once : ∀ id, w.Handled id → w.answered.count id = 1
  most : ∀ id, w.answered.count id ≤ 1
  own : ∀ pair ∈ w.returned, pair.1 = pair.2

/-- The requests that are received are good ones, the calls of the servers return what is
promised, and a process identifier is used again only when no request is open under it. -/
def Proper (good : (i : ι) → (server i).State → Request P M → Prop)
    (promised : (i : ι) → (op : (server i).Op) → (server i).Reply op → Prop)
    (w : World server) : Event server → Prop
  | .receive i => ∀ state r rest, w.control i = .waiting state → w.mbox i = r :: rest → good i state r
  | .proceed i op value => promised i op value
  | .create src _ => ∀ i r, w.Open i r → r.src ≠ src
  | _ => True

/-- Nothing has been sent yet. -/
structure World.Initial (pid : ι → P) (w : World server) : Prop where
  waits : ∀ src, w.waits src = none
  mbox : ∀ i, w.mbox i = []
  control : ∀ i, ∃ state, w.control i = .waiting state
  issued : w.issued = 0
  answered : w.answered = []
  returned : w.returned = []
  servers : ∀ j, w.table (pid j) ≠ none

/-! How many replies are still to come. -/

variable {good : (i : ι) → (server i).State → Request P M → Prop}
    {promised : (i : ι) → (op : (server i).Op) → (server i).Reply op → Prop}
  {w after : World server} {left : ι → Nat} {i : ι} {src : P} {msg : M}

def Control.owing {server : Protocol ι P M U} (control : Control server) (left id : Nat) : Nat :=
  match control with
  | .waiting _ => 0
  | .handling r _ _ => if r.id = id then left else 0

/-- A program that is still to reply so many times. -/
def Control.Owes {server : Protocol ι P M U} (promised : (op : server.Op) → server.Reply op → Prop)
    (control : Control server) (left : Nat) : Prop :=
  ∀ r calling program, control = .handling r calling program → program.Replies server.target promised r.src left

/-- The replies to a request that a server is still to make. -/
def World.due (w : World server) (left : ι → Nat) (id : Nat) (i : ι) : Nat :=
  (w.mbox i).countP (fun r => r.id = id) + (w.control i).owing (left i) id

variable [Fintype ι]

/-- Each request that has been made has one reply, in the past or in the future. -/
structure Balanced (promised : (i : ι) → (op : (server i).Op) → (server i).Reply op → Prop) (w : World server)
    (left : ι → Nat) : Prop where
  owes : ∀ i, (w.control i).Owes (promised i) (left i)
  total : ∀ id, w.answered.count id + ∑ i, w.due left id i = if id < w.issued then 1 else 0

omit [DecidableEq P] in
/-- What happens at one server. -/
theorem Balanced.change (balanced : Balanced promised w left) (i : ι) (n : Nat)
    (same : ∀ j, j ≠ i → after.mbox j = w.mbox j ∧ after.control j = w.control j)
    (owes : (after.control i).Owes (promised i) n)
    (moves : ∀ id, after.answered.count id + ((after.mbox i).countP
    (fun r => r.id = id) + (after.control i).owing n id) + (if id < w.issued then 1 else 0) =
      w.answered.count id + w.due left id i + if id < after.issued then 1 else 0) :
    Balanced promised after (Function.update left i n) := by
  constructor
  · intro j
    by_cases here : j = i
    · subst here
      rw [Function.update_self]
      exact owes
    · rw [Function.update_of_ne here, (same j here).2]
      exact balanced.owes j
  · intro id
    have others : ∀ j, j ≠ i → after.due (Function.update left i n) id j = w.due left id j := by
      intro j other
      simp only [World.due, (same j other).1, (same j other).2, Function.update_of_ne other]
    have here : after.due (Function.update left i n) id i = (after.mbox i).countP
        (fun r => r.id = id) + (after.control i).owing n id := by
      rw [World.due, Function.update_self]
    have sums := sum_change others
    have total := balanced.total id
    have moved := moves id
    rw [here] at sums
    omega

omit [DecidableEq P] [DecidableEq ι] in
theorem Balanced.count_le (balanced : Balanced promised w left) (i : ι) (id : Nat) :
    w.answered.count id + w.due left id i ≤ 1 := by
  have total := balanced.total id
  have one : w.due left id i ≤ ∑ j, w.due left id j :=
    Finset.single_le_sum (fun _ _ => Nat.zero_le _) (Finset.mem_univ i)
  split_ifs at total <;> omega

theorem Balanced.issue (balanced : Balanced promised w left) (src : P) (i : ι) (msg : M) :
    ∃ left, Balanced promised (w.issue src i msg) left := by
  refine ⟨_, balanced.change i (left i)
    (fun j other => ⟨Function.update_of_ne other .., rfl⟩) (balanced.owes i) fun id => ?_⟩
  have last : (if id < (w.issue src i msg).issued then 1 else 0) =
      (if id < w.issued then 1 else 0) + if w.issued = id then 1 else 0 := by
    have next : (w.issue src i msg).issued = w.issued + 1 := rfl
    split_ifs <;> omega
  rw [last]
  simp only [World.issue, World.due, Function.update_self, List.countP_append, List.countP_singleton, decide_eq_true_eq]
  omega

omit [DecidableEq P] in
/-- The server goes on with the request, and owes as many replies as before. -/
theorem Balanced.goOn (balanced : Balanced promised w left) {control : Control (server i)}
    (owes : control.Owes (promised i) (left i))
    (same : ∀ id, control.owing (left i) id = (w.control i).owing (left i) id) :
    ∃ left, Balanced promised (w.setControl i control) left := by
  refine ⟨_, balanced.change i (left i) (fun j other => ⟨rfl, Function.update_of_ne other ..⟩) ?_ fun id => ?_⟩
  · simp only [World.setControl, Function.update_self]
    exact owes
  · simp only [World.setControl, World.due, Function.update_self, same]
    rfl

omit [DecidableEq P] in
theorem Balanced.receive (balanced : Balanced promised w left) {state : (server i).State} {r : Request P M}
    {rest : List (Request P M)}
    (waiting : w.control i = .waiting state) (queued : w.mbox i = r :: rest)
    {program : Effect (server i).Reply (server i).Stop (server i).State}
    (once : program.Replies (server i).target (promised i) r.src 1) :
    ∃ left, Balanced promised ({ w with mbox := Function.update w.mbox i rest }.setControl i
        (.handling r false program)) left := by
  refine ⟨_, balanced.change i 1 (fun j other => ⟨Function.update_of_ne other .., Function.update_of_ne other ..⟩) ?_
    fun id => ?_⟩
  · simp only [World.setControl, Function.update_self]
    intro _ _ _ place
    cases place
    exact once
  · refine congrArg (fun n => n + if id < w.issued then 1 else 0) ?_
    simp only [World.setControl, World.due, Function.update_self, waiting, queued, List.countP_cons,
      Control.owing, decide_eq_true_eq]
    omega

/-- What the kernel knows of the processes. -/
structure Clients (pid : ι → P) (w : World server) : Prop where
  waits : ∀ i r, w.Open i r → w.waits r.src = some (i, r.id) ∨ w.table r.src = none
  alive : ∀ src, w.table src = none → w.waits src = none
  servers : ∀ j, w.table (pid j) ≠ none
  own : ∀ pair ∈ w.returned, pair.1 = pair.2

omit [DecidableEq P] [DecidableEq ι] [Fintype ι] in
/-- Nothing becomes open. -/
theorem Clients.keep (clients : Clients pid w) (open_ : ∀ i r, after.Open i r → w.Open i r)
    (table : after.table = w.table)
    (waits : after.waits = w.waits) (returned : after.returned = w.returned) : Clients pid after := by
  constructor
  · intro i r still
    rw [table, waits]
    exact clients.waits i r (open_ i r still)
  · rw [table, waits]
    exact clients.alive
  · rw [table]
    exact clients.servers
  · rw [returned]
    exact clients.own

omit [Fintype ι] in
/-- Only the new request is new. -/
theorem World.held_issue {j : ι} {r : Request P M} (later : (w.issue src i msg).Held j r) :
    w.Held j r ∨ j = i ∧ r = { id := w.issued, src, msg } := by
  rcases later with queued | handled
  · by_cases here : j = i
    · subst here
      simp only [World.issue, Function.update_self, List.mem_append, List.mem_singleton] at queued
      exact queued.imp .inl fun new => ⟨rfl, new⟩
    · simp only [World.issue, Function.update_of_ne here] at queued
      exact .inl (.inl queued)
  · exact .inl (.inr handled)

omit [Fintype ι] in
theorem Clients.issue (clients : Clients pid w) (there : w.table src ≠ none) (free : w.waits src = none)
    (i : ι) (msg : M) :
    Clients pid (w.issue src i msg) := by
  refine ⟨fun j r still => ?_, fun other gone => ?_, clients.servers, clients.own⟩
  · obtain ⟨place, unanswered⟩ := still
    have cases : w.Open j r ∨ j = i ∧ r = { id := w.issued, src, msg } :=
      (World.held_issue place).imp_left fun before => ⟨before, unanswered⟩
    rcases cases with before | ⟨rfl, rfl⟩
    · by_cases same : r.src = src
      · rcases clients.waits j r before with waiting | gone
        · rw [same, free] at waiting
          cases waiting
        · exact absurd (same ▸ gone) there
      · simp only [World.issue, Function.update_of_ne same]
        exact clients.waits j r before
    · exact .inl (Function.update_self ..)
  · have apart : other ≠ src := fun same => there (same ▸ gone)
    exact (Function.update_of_ne apart ..).trans (clients.alive other gone)

omit [Fintype ι] in
/-- What a reply leaves as it is. -/
theorem World.deliver_keeps (w : World server) (i : ι) (dst : P) (id : Nat) : (w.deliver i dst id).mbox = w.mbox ∧
    (w.deliver i dst id).control = w.control ∧ (w.deliver i dst id).table = w.table ∧
      (w.deliver i dst id).issued = w.issued ∧
      (w.deliver i dst id).answered = w.answered ++ [id] := by
  unfold deliver
  cases w.waits dst with
  | none => exact ⟨rfl, rfl, rfl, rfl, rfl⟩
  | some waiting =>
    dsimp only
    split_ifs <;> exact ⟨rfl, rfl, rfl, rfl, rfl⟩

omit [Fintype ι] in
/-- A reply is returned to a process that waits for the server, and otherwise it is dropped. -/
theorem World.deliver_cases (w : World server) (i : ι) (dst : P) (id : Nat) :
    (∃ own, w.waits dst = some (i, own) ∧ (w.deliver i dst id).waits = Function.update w.waits dst none ∧
      (w.deliver i dst id).returned = w.returned ++ [(own, id)]) ∨
    (w.deliver i dst id).waits = w.waits ∧ (w.deliver i dst id).returned = w.returned := by
  unfold deliver
  cases waiting : w.waits dst with
  | none => exact .inr ⟨rfl, rfl⟩
  | some waits =>
    obtain ⟨j, own⟩ := waits
    dsimp only
    by_cases here : j = i
    · rw [if_pos here]
      exact .inl ⟨own, by rw [here], rfl, rfl⟩
    · rw [if_neg here]
      exact .inr ⟨rfl, rfl⟩

omit [Fintype ι] in
/-- The process that gets a reply made for an open request is the one that waits with this request. -/
theorem Clients.deliver (clients : Clients pid w) {r : Request P M} (still : w.Open i r) :
    Clients pid (w.deliver i r.src r.id) := by
  have own {j : ι} {id : Nat} (waiting : w.waits r.src = some (j, id)) : id = r.id := by
    rcases clients.waits i r still with same | gone
    · rw [waiting] at same
      cases same
      rfl
    · rw [clients.alive _ gone] at waiting
      cases waiting
  obtain ⟨mbox, control, table, -, answered⟩ := w.deliver_keeps i r.src r.id
  have before {j : ι} {q : Request P M} (later : (w.deliver i r.src r.id).Open j q) : w.Open j q ∧ q.id ≠ r.id := by
    obtain ⟨place, unanswered⟩ := later
    rw [World.Held, mbox, control] at place
    rw [answered, List.mem_append, List.mem_singleton, not_or] at unanswered
    exact ⟨⟨place, unanswered.1⟩, unanswered.2⟩
  rcases w.deliver_cases i r.src r.id with ⟨id, waiting, waits, returned⟩ | ⟨waits, returned⟩
  · constructor
    · intro j q later
      obtain ⟨earlier, other⟩ := before later
      rw [waits, table]
      by_cases same : q.src = r.src
      · refine .inr ((clients.waits j q earlier).resolve_left fun own_waits => other ?_)
        rw [same] at own_waits
        exact own own_waits
      · rw [Function.update_of_ne same]
        exact clients.waits j q earlier
    · intro other gone
      rw [table] at gone
      rw [waits]
      by_cases same : other = r.src
      · rw [same, Function.update_self]
      · rw [Function.update_of_ne same]
        exact clients.alive other gone
    · rw [table]
      exact clients.servers
    · intro pair member
      rw [returned, List.mem_append, List.mem_singleton] at member
      rcases member with member | rfl
      · exact clients.own pair member
      · exact own waiting
  · constructor
    · intro j q later
      rw [waits, table]
      exact clients.waits j q (before later).1
    · rw [waits, table]
      exact clients.alive
    · rw [table]
      exact clients.servers
    · rw [returned]
      exact clients.own

omit [DecidableEq ι] [Fintype ι] in
theorem Clients.die (clients : Clients pid w) (client : ∀ j, pid j ≠ src) :
    Clients pid { w with table := Function.update w.table src none, waits := Function.update w.waits src none } := by
  refine ⟨fun j r still => ?_, fun other gone => ?_, fun j => ?_, clients.own⟩
  · by_cases same : r.src = src
    · exact .inr (same ▸ Function.update_self ..)
    · dsimp only
      rw [Function.update_of_ne same, Function.update_of_ne same]
      exact clients.waits j r still
  · by_cases same : other = src
    · exact same ▸ Function.update_self ..
    · dsimp only at gone ⊢
      rw [Function.update_of_ne same] at gone ⊢
      exact clients.alive other gone
  · dsimp only
    rw [Function.update_of_ne (client j)]
    exact clients.servers j

omit [DecidableEq ι] [Fintype ι] in
theorem Clients.create (clients : Clients pid w) (none : w.table src = none)
    (unused : ∀ i r, w.Open i r → r.src ≠ src) (user : U) :
    Clients pid { w with table := Function.update w.table src (some user) } := by
  refine ⟨fun j r still => ?_, fun other gone => ?_, fun j => ?_, clients.own⟩
  · dsimp only
    rw [Function.update_of_ne (unused j r still)]
    exact clients.waits j r still
  · by_cases same : other = src
    · rw [same] at gone
      dsimp only at gone
      rw [Function.update_self] at gone
      cases gone
    · dsimp only at gone
      rw [Function.update_of_ne same] at gone
      exact clients.alive other gone
  · dsimp only
    have apart : pid j ≠ src := fun same => clients.servers j (same.symm ▸ none)
    rw [Function.update_of_ne apart]
    exact clients.servers j

omit [DecidableEq P] [Fintype ι] in
/-- The server goes on with its request or drops it. -/
theorem World.held_set {control : Control (server i)}
    (same : ∀ r calling program, control = .handling r calling program →
    ∃ calling program, w.control i = .handling r calling program)
    {j : ι} {q : Request P M} (later : (w.setControl i control).Held j q) : w.Held j q := by
  refine later.imp_right fun handled => ?_
  obtain ⟨calling, program, place⟩ := handled
  by_cases here : j = i
  · subst here
    simp only [World.setControl, Function.update_self] at place
    exact same _ _ _ place
  · simp only [World.setControl, Function.update_of_ne here] at place
    exact ⟨calling, program, place⟩

omit [DecidableEq P] [Fintype ι] in
/-- A request goes from the mailbox to the server. -/
theorem World.held_receive {r : Request P M} {rest : List (Request P M)} (queued : w.mbox i = r :: rest)
    {calling : Bool}
    {program : Effect (server i).Reply (server i).Stop (server i).State} {j : ι} {q : Request P M}
    (later : ({ w with mbox := Function.update w.mbox i rest }.setControl i (.handling r calling program)).Held j q) :
    w.Held j q := by
  unfold World.Held at later ⊢
  by_cases here : j = i
  · subst here
    simp only [World.setControl, Function.update_self] at later
    rw [queued]
    rcases later with queued | ⟨_, _, place⟩
    · exact .inl (List.mem_cons_of_mem _ queued)
    · cases place
      exact .inl List.mem_cons_self
  · simp only [World.setControl, Function.update_of_ne here] at later
    exact later

omit [DecidableEq P] [Fintype ι] in
theorem Clients.control (clients : Clients pid w) {control : Control (server i)}
    (same : ∀ r calling program, control = .handling r calling program →
    ∃ calling program, w.control i = .handling r calling program) :
    Clients pid (w.setControl i control) :=
  clients.keep (fun _ _ still => ⟨World.held_set same still.1, still.2⟩) rfl rfl rfl

omit [DecidableEq P] [Fintype ι] in
theorem Clients.receive (clients : Clients pid w) {r : Request P M} {rest : List (Request P M)}
    (queued : w.mbox i = r :: rest)
    (calling : Bool) (program : Effect (server i).Reply (server i).Stop (server i).State) :
    Clients pid ({ w with mbox := Function.update w.mbox i rest }.setControl i (.handling r calling program)) :=
  clients.keep (fun _ _ still => ⟨World.held_receive queued still.1, still.2⟩) rfl rfl rfl

/-- The server sends a reply, and owes one less. -/
theorem Balanced.reply (balanced : Balanced promised w left) {r : Request P M} {calling : Bool}
    {program next : Effect (server i).Reply (server i).Stop (server i).State}
    (handling : w.control i = .handling r calling program) {rest : Nat} (one : left i = rest + 1)
    (owes : next.Replies (server i).target (promised i) r.src rest) (dst : P) :
    ∃ left, Balanced promised ((w.deliver i dst r.id).setControl i (.handling r false next)) left := by
  obtain ⟨mbox, control, -, issued, answered⟩ := w.deliver_keeps i dst r.id
  refine ⟨_, balanced.change i rest (fun j other => ⟨?_, ?_⟩) ?_ fun id => ?_⟩
  · simp only [World.setControl, mbox]
  · simp only [World.setControl, Function.update_of_ne other, control]
  · simp only [World.setControl, Function.update_self]
    intro _ _ _ place
    cases place
    exact owes
  · simp only [World.setControl, World.due, Function.update_self, mbox, issued, answered, handling, one,
      Control.owing, List.count_append,
      List.count_singleton, beq_iff_eq]
    split_ifs <;> omega

/-! Runs. -/

/-- The invariant. -/
structure Sound (pid : ι → P) (promised : (i : ι) → (op : (server i).Op) → (server i).Reply op → Prop)
    (w : World server) : Prop where
  balanced : ∃ left, Balanced promised w left
  clients : Clients pid w

omit [DecidableEq P] [DecidableEq ι] in
theorem Sound.matched (sound : Sound pid promised w) : w.Matched := by
  obtain ⟨left, balanced⟩ := sound.balanced
  refine ⟨fun id handled => ?_, fun id => ?_, sound.clients.own⟩
  · obtain ⟨issued, nowhere⟩ := handled
    have none : ∀ i, w.due left id i = 0 := by
      intro i
      obtain ⟨queued, control⟩ := nowhere i
      have empty : (w.mbox i).countP (fun r => r.id = id) = 0 :=
        List.countP_eq_zero.mpr fun r member => by simpa using queued r member
      rw [World.due, empty, Nat.zero_add]
      cases place : w.control i with
      | waiting state => rfl
      | handling r calling program => exact if_neg (control r calling program place)
    have total := balanced.total id
    rw [if_pos issued, Finset.sum_eq_zero fun i _ => none i] at total
    exact total
  · have total := balanced.total id
    split_ifs at total <;> omega

/-- Handlers of good requests reply once. -/
def Answering (good : (i : ι) → (server i).State → Request P M → Prop)
    (promised : (i : ι) → (op : (server i).Op) → (server i).Reply op → Prop) : Prop :=
  ∀ i state r, good i state r → ((server i).serve state r.msg r.src).Replies (server i).target (promised i) r.src 1

theorem Sound.step (answering : Answering good promised) (sound : Sound pid promised w) {event : Event server}
    (step : Guarded (Proper good promised) (Step pid) w event after) : Sound pid promised after := by
  obtain ⟨proper, step⟩ := step
  obtain ⟨⟨left, balanced⟩, clients⟩ := sound
  cases step with
  | request quiet client there free =>
      exact ⟨balanced.issue .., clients.issue (Option.isSome_iff_ne_none.mp there) free ..⟩
  | die quiet client => exact ⟨⟨left, balanced.owes, balanced.total⟩, clients.die client⟩
  | create quiet none => exact ⟨⟨left, balanced.owes, balanced.total⟩, clients.create none proper _⟩
  | receive quiet waiting queued =>
    exact ⟨balanced.receive waiting queued (answering _ _ _ (proper _ _ _ waiting queued)), clients.receive queued ..⟩
  | finish handling =>
    have none := balanced.owes _ _ _ _ handling
    refine ⟨balanced.goOn nofun fun id => ?_, clients.control nofun⟩
    rw [handling, none]
    exact (ite_self 0).symm
  | @reply i r op next dst value handling sends =>
    have owes := balanced.owes _ _ _ _ handling
    simp only [Effect.Replies, sends] at owes
    obtain ⟨rfl, rest, one, owes⟩ := owes
    have still : w.Open i r := by
      refine ⟨.inr ⟨_, _, handling⟩, fun answered => ?_⟩
      have most := balanced.count_le i r.id
      have before := List.count_pos_iff.mpr answered
      simp only [World.due, handling, Control.owing, if_pos] at most
      omega
    refine ⟨balanced.reply handling one (owes value) _, (clients.deliver still).control fun _ _ _ place => ?_⟩
    cases place
    rw [(w.deliver_keeps i r.src r.id).2.1]
    exact ⟨_, _, handling⟩
  | call handling calls =>
    refine ⟨balanced.goOn (fun _ _ _ place => ?_) fun id => ?_, clients.control fun _ _ _ place => ?_⟩
    · cases place
      exact balanced.owes _ _ _ _ handling
    · rw [handling]
      rfl
    · cases place
      exact ⟨_, _, handling⟩
  | @issue i r op next j msg handling calls free =>
    obtain ⟨later, balanced⟩ := balanced.issue (pid i) j msg
    have same : (w.issue (pid i) j msg).control i = .handling r false (.call op next) := handling
    refine ⟨balanced.goOn (fun _ _ _ place => ?_) fun id => ?_,
      (clients.issue (clients.servers i) free j msg).control fun _ _ _ place => ?_⟩
    · cases place
      exact balanced.owes _ _ _ _ same
    · rw [same]
      rfl
    · cases place
      exact ⟨_, _, same⟩
  | proceed quiet handling silent calling free returns =>
    have owes := balanced.owes _ _ _ _ handling
    simp only [Effect.Replies, silent] at owes
    refine ⟨balanced.goOn (fun _ _ _ place => ?_) fun id => ?_, clients.control fun _ _ _ place => ?_⟩
    · cases place
      exact owes _ proper
    · rw [handling]
      rfl
    · cases place
      exact ⟨_, _, handling⟩

omit [DecidableEq P] [DecidableEq ι] in
theorem World.Initial.sound (initial : w.Initial pid) : Sound pid promised w := by
  have waiting (i : ι) : ∀ r calling program, w.control i ≠ .handling r calling program := by
    intro r calling program handling
    obtain ⟨state, place⟩ := initial.control i
    rw [place] at handling
    cases handling
  constructor
  · refine ⟨fun _ => 0, fun i r calling program handling => absurd handling (waiting i _ _ _), fun id => ?_⟩
    have none (i : ι) : w.due (fun _ => 0) id i = 0 := by
      obtain ⟨state, place⟩ := initial.control i
      rw [World.due, initial.mbox i, place]
      rfl
    rw [initial.answered, initial.issued, Finset.sum_eq_zero fun i _ => none i]
    rfl
  · refine ⟨fun i r still => ?_, fun src _ => initial.waits src, initial.servers, fun pair member => ?_⟩
    · rcases still.1 with queued | ⟨calling, program, handling⟩
      · rw [initial.mbox i] at queued
        cases queued
      · exact absurd handling (waiting i _ _ _)
    · rw [initial.returned] at member
      cases member

theorem matched (answering : Answering good promised) (initial : w.Initial pid) {events : List (Event server)}
    (run : Run (Guarded (Proper good promised) (Step pid)) w events after) : after.Matched :=
  (run.invariant (fun _ _ _ sound step => Sound.step answering sound step)
    (initial.sound : Sound pid promised w)).matched

end Rpc
end Egos.Library
