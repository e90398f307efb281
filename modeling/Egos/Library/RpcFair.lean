import Egos.Library.RpcProgress

/-! Infinite runs of servers. Where no server that can go on is passed over for ever, every
request is answered, however many other requests are made meanwhile: mailboxes are queues, and
each program ends. -/

namespace Egos.Library.Rpc

variable {ι P M U : Type} [DecidableEq ι] [DecidableEq P] {server : ι → Protocol ι P M U} {pid : ι → P}

/-- A server that can take a step again and again takes one. -/
def Fair (pid : ι → P) (good : ι → M → Prop) (promised : (i : ι) → (op : (server i).Op) → (server i).Reply op → Prop)
    (states : Nat → World server) (events : Nat → Event server) : Prop :=
  ∀ i, (∀ n, ∃ m, n ≤ m ∧ Able pid good promised (states m) i) → ∀ n, ∃ m, n ≤ m ∧ (events m).actor = some i

section
variable [Fintype ι] {good : ι → M → Prop}
    {promised : (i : ι) → (op : (server i).Op) → (server i).Reply op → Prop} {rank : ι → Nat}
  {states : Nat → World server} {events : Nat → Event server} {i : ι} {r : Request P M} {n : Nat}

/-- A server that has the CPU gives it up, or goes on with its program. -/
theorem runs_on (serving : Serving pid good promised rank)
    (endless : Endless (Guarded (Steady good promised) (Step pid)) states events)
    (live : ∀ n, Live pid good promised rank (states n))
    {program : Effect (server i).Reply (server i).Stop (server i).State}
    (handling : (states n).control i = .handling r false program) : (∀ j, ((states (n + 1)).control j).yields = true) ∨
      ∃ op next value, program = .call op next ∧ (states (n + 1)).control i = .handling r false (next value) := by
  have others : ∀ j, j ≠ i → ((states n).control j).yields = true := fun j other =>
    ((live n).manned.turns j i other).resolve_right fun yields => by rw [handling] at yields; cases yields
  have step := (endless n).2
  have own := step.holder others handling
  have quiet {control : Control (server i)} (place : (states (n + 1)).control i = control)
    (yields : control.yields = true) :
      ∀ j, ((states (n + 1)).control j).yields = true := fun j => by
    by_cases here : j = i
    · rw [here, place]
      exact yields
    · have apart : (events n).actor ≠ some j := by
        rw [own]
        exact fun same => here (Option.some.inj same).symm
      rw [(step.frame serving.apart apart).1]
      exact others j here
  obtain ⟨-, ⟨state, -, place, -⟩ | ⟨op, next, same, ⟨value, place⟩ | ⟨-, place⟩⟩⟩ := step.own own handling
  · exact .inl (quiet place rfl)
  · exact .inr ⟨op, next, value, same, place⟩
  · exact .inl (quiet place rfl)

/-- The CPU becomes free again. -/
theorem frees (serving : Serving pid good promised rank)
    (endless : Endless (Guarded (Steady good promised) (Step pid)) states events)
    (live : ∀ n, Live pid good promised rank (states n)) (n : Nat) :
    ∃ m, n ≤ m ∧ ∀ j, ((states m).control j).yields = true := by
  have running {i : ι} {r : Request P M} (program : Effect (server i).Reply (server i).Stop (server i).State) (n : Nat)
      (handling : (states n).control i = .handling r false program) :
      ∃ m, n ≤ m ∧ ∀ j, ((states m).control j).yields = true := by
    induction program generalizing n with
    | pure state =>
      rcases runs_on serving endless live handling with free | ⟨op, next, value, same, -⟩
      · exact ⟨n + 1, Nat.le_succ n, free⟩
      · cases same
    | halt reason =>
      rcases runs_on serving endless live handling with free | ⟨op, next, value, same, -⟩
      · exact ⟨n + 1, Nat.le_succ n, free⟩
      · cases same
    | call op next ih =>
      rcases runs_on serving endless live handling with free | ⟨_, _, value, same, place⟩
      · exact ⟨n + 1, Nat.le_succ n, free⟩
      · cases same
        obtain ⟨m, later, free⟩ := ih value (n + 1) place
        exact ⟨m, Nat.le_of_succ_le later, free⟩
  by_cases quiet : ∀ j, ((states n).control j).yields = true
  · exact ⟨n, Nat.le_refl n, quiet⟩
  · obtain ⟨j, busy⟩ := not_forall.mp quiet
    cases place : (states n).control j with
    | waiting state => exact absurd (by rw [place]; rfl) busy
    | handling q calling program =>
      cases calling with
      | true => exact absurd (by rw [place]; rfl) busy
      | false => exact running program n place

/-- The open requests at servers of lower rank are answered. -/
def Below (rank : ι → Nat) (states : Nat → World server) (i : ι) : Prop :=
  ∀ j, rank j < rank i → ∀ n r, (states n).Open j r → ∃ m, n ≤ m ∧ r.id ∈ (states m).answered

omit [Fintype ι] in
/-- What the steps of others keep, while a server takes none. -/
theorem stays (endless : Endless (Guarded (Steady good promised) (Step pid)) states events)
    {holds : World server → Prop}
    (kept : ∀ before event after, holds before → event.actor ≠ some i → Step pid before event after → holds after)
    (never : ∀ m, n ≤ m → (events m).actor ≠ some i) (start : holds (states n)) {m : Nat} (later : n ≤ m) :
    holds (states m) := by
  induction later with
  | refl => exact start
  | @step m later ih => exact kept _ _ _ ih (never m later) (endless m).2

/-- A server that waits for another one gets its reply. -/
theorem unblocks (serving : Serving pid good promised rank)
    (endless : Endless (Guarded (Steady good promised) (Step pid)) states events)
    (live : ∀ n, Live pid good promised rank (states n)) (below : Below rank states i)
    (never : ∀ m, n ≤ m → (events m).actor ≠ some i) :
    ∃ m, n ≤ m ∧ (states m).waits (pid i) = none := by
  cases waits : (states n).waits (pid i) with
  | none => exact ⟨n, Nat.le_refl n, waits⟩
  | some request =>
    obtain ⟨j, id⟩ := request
    obtain ⟨q, same, -, opened⟩ := (live n).waiting.unanswered _ j id waits
    obtain ⟨m, later, answered⟩ := below j ((live n).waiting.order i j id waits) n q opened
    have kept : ∀ (before : World server) event after,
      (before.waits (pid i) = some (j, id) ∨ before.waits (pid i) = none) → event.actor ≠ some i →
        Step pid before event after → after.waits (pid i) = some (j, id) ∨ after.waits (pid i) = none := by
      intro before event after holds other step
      rcases (step.frame serving.apart other).2.2 with kept | none
      · rwa [kept]
      · exact .inr none
    refine ⟨m, later, (stays endless kept never (.inl waits) later).resolve_left fun still => ?_⟩
    obtain ⟨q', same', -, -, unanswered⟩ := (live m).waiting.unanswered _ j id still
    exact unanswered (by rwa [same', ← same])

/-- A server with a request that takes no steps can take one again and again. -/
theorem able_again (serving : Serving pid good promised rank)
    (endless : Endless (Guarded (Steady good promised) (Step pid)) states events)
    (live : ∀ n, Live pid good promised rank (states n)) (below : Below rank states i)
    (never : ∀ m, n ≤ m → (events m).actor ≠ some i)
    (busy : ∀ m, n ≤ m → ∃ r, (states m).Held i r) (k : Nat) : ∃ m, k ≤ m ∧ Able pid good promised (states m) i := by
  have later : ∀ m, max n k ≤ m → n ≤ m := fun m => Nat.le_trans (Nat.le_max_left n k)
  obtain ⟨m, beyond, free⟩ := unblocks serving endless live below fun m after => never m (later m after)
  obtain ⟨l, after, quiet⟩ := frees serving endless live m
  have kept : ∀ (before : World server) event after, before.waits (pid i) = none → event.actor ≠ some i →
      Step pid before event after → after.waits (pid i) = none := by
    intro before event after holds other step
    rcases (step.frame serving.apart other).2.2 with kept | none
    · rwa [kept]
    · exact none
  have free := stays endless kept (fun o start => never o (later o (Nat.le_trans beyond start))) free after
  obtain ⟨r, held⟩ := busy l (later l (Nat.le_trans beyond after))
  exact ⟨l, Nat.le_trans (Nat.le_max_right n k) (Nat.le_trans beyond after),
    (live l).able_of_free serving quiet held free⟩

/-- A server with a request takes its next step, and finds its request and its mailbox as they were,
but for new requests. -/
theorem next_step (serving : Serving pid good promised rank)
    (endless : Endless (Guarded (Steady good promised) (Step pid)) states events)
    (live : ∀ n, Live pid good promised rank (states n)) (fair : Fair pid good promised states events)
    (below : Below rank states i)
    {control : Control (server i)} {queue : List (Request P M)} (place : (states n).control i = control)
    (queued : queue <+: (states n).mbox i)
    (busy : queue ≠ [] ∨ ∃ r calling program, control = .handling r calling program) :
    ∃ m, n ≤ m ∧ ((states m).control i = control ∧ queue <+: (states m).mbox i) ∧ (events m).actor = some i := by
  have kept : ∀ (before : World server) event after, before.control i = control ∧ queue <+: before.mbox i →
    ¬ event.actor = some i →
      Guarded (Steady good promised) (Step pid) before event after → after.control i = control ∧
          queue <+: after.mbox i := by
    intro before event after holds other step
    obtain ⟨same, grows, -⟩ := step.2.frame serving.apart other
    exact ⟨same.trans holds.1, holds.2.trans grows⟩
  rcases endless.holds_until kept ⟨place, queued⟩ with moves | still
  · exact moves
  -- it would never take a step again, although it can
  · have held : ∀ m, n ≤ m → ∃ r, (states m).Held i r := by
      intro m later
      obtain ⟨place, queued⟩ := (still m later).1
      rcases busy with some | ⟨r, calling, program, rfl⟩
      · obtain ⟨r, rest, rfl⟩ := List.exists_cons_of_ne_nil some
        exact ⟨r, .inl (queued.subset List.mem_cons_self)⟩
      · exact ⟨r, .inr ⟨calling, program, place⟩⟩
    obtain ⟨m, later, moved⟩ := fair i (able_again serving endless live below (fun m later => (still m later).2) held) n
    exact absurd moved (still m later).2

/-- A server comes to the end of its program, and back to its loop. -/
theorem finishes (serving : Serving pid good promised rank)
    (endless : Endless (Guarded (Steady good promised) (Step pid)) states events)
    (live : ∀ n, Live pid good promised rank (states n)) (fair : Fair pid good promised states events)
    (below : Below rank states i)
    {calling : Bool} {program : Effect (server i).Reply (server i).Stop (server i).State} {queue : List (Request P M)}
    (handling : (states n).control i = .handling r calling program) (queued : queue <+: (states n).mbox i) :
    ∃ m, n ≤ m ∧ r.id ∈ (states m).answered ∧ (∃ state, (states m).control i = .waiting state) ∧
        queue <+: (states m).mbox i := by
  -- one step of the server, from a later time on
  have moves {calling : Bool} {program : Effect (server i).Reply (server i).Stop (server i).State} {n : Nat}
      (handling : (states n).control i = .handling r calling program) (queued : queue <+: (states n).mbox i) :
      ∃ m, n ≤ m ∧ (states m).control i = .handling r calling program ∧ queue <+: (states (m + 1)).mbox i ∧
        ((∃ state, program = .pure state ∧ (states (m + 1)).control i = .waiting state ∧
          (states (m + 1)).answered = (states m).answered) ∨
          ∃ op next, program = .call op next ∧ ((∃ value, (states (m + 1)).control i = .handling r false (next value)) ∨
            calling = false ∧ (states (m + 1)).control i = .handling r true program)) := by
    obtain ⟨m, later, ⟨place, queued⟩, own⟩ :=
      next_step serving endless live fair below handling queued (.inr ⟨r, calling, program, rfl⟩)
    obtain ⟨grows, cases⟩ := (endless m).2.own own place
    exact ⟨m, later, place, queued.trans grows, cases⟩
  induction program generalizing n calling with
  | pure state =>
    obtain ⟨m, later, place, queued, ⟨state, -, idle, answered⟩ | ⟨op, next, same, -⟩⟩ := moves handling queued
    · exact ⟨m + 1, Nat.le_succ_of_le later, answered ▸ (live m).finished place, ⟨state, idle⟩, queued⟩
    · cases same
  | halt reason =>
    obtain ⟨m, -, -, -, ⟨state, same, -⟩ | ⟨op, next, same, -⟩⟩ := moves handling queued
    · cases same
    · cases same
  | call op next ih =>
    -- in the call, and before it
    have called {n : Nat} (handling : (states n).control i = .handling r true (.call op next))
      (queued : queue <+: (states n).mbox i) :
        ∃ m, n ≤ m ∧ r.id ∈ (states m).answered ∧ (∃ state, (states m).control i = .waiting state) ∧
            queue <+: (states m).mbox i := by
      obtain ⟨m, later, -, queued, ⟨state, same, -⟩ | ⟨_, _, same, ⟨value, place⟩ | ⟨no, -⟩⟩⟩ := moves handling queued
      · cases same
      · cases same
        obtain ⟨l, beyond, rest⟩ := ih value place queued
        exact ⟨l, Nat.le_trans (Nat.le_succ_of_le later) beyond, rest⟩
      · cases no
    obtain ⟨m, later, -, queued, ⟨state, same, -⟩ | ⟨_, _, same, ⟨value, place⟩ | ⟨-, place⟩⟩⟩ := moves handling queued
    · cases same
    · cases same
      obtain ⟨l, beyond, rest⟩ := ih value place queued
      exact ⟨l, Nat.le_trans (Nat.le_succ_of_le later) beyond, rest⟩
    · obtain ⟨l, beyond, rest⟩ := called place queued
      exact ⟨l, Nat.le_trans (Nat.le_succ_of_le later) beyond, rest⟩

/-- A server comes back to its loop, and receives the first request in its mailbox. -/
theorem receives (serving : Serving pid good promised rank)
    (endless : Endless (Guarded (Steady good promised) (Step pid)) states events)
    (live : ∀ n, Live pid good promised rank (states n)) (fair : Fair pid good promised states events)
    (below : Below rank states i)
    {queue : List (Request P M)} (queued : r :: queue <+: (states n).mbox i) :
    ∃ m program, n ≤ m ∧ (states m).control i = .handling r false program ∧ queue <+: (states m).mbox i := by
  have idles : ∃ m, n ≤ m ∧ (∃ state, (states m).control i = .waiting state) ∧ r :: queue <+: (states m).mbox i := by
    cases place : (states n).control i with
    | waiting state => exact ⟨n, Nat.le_refl n, ⟨state, place⟩, queued⟩
    | handling q calling program =>
      obtain ⟨m, later, -, idle, queued⟩ := finishes serving endless live fair below place queued
      exact ⟨m, later, idle, queued⟩
  obtain ⟨m, later, ⟨state, idle⟩, queued⟩ := idles
  obtain ⟨l, beyond, ⟨idle, queued⟩, own⟩ :=
    next_step serving endless live fair below idle queued (.inl (List.cons_ne_nil _ _))
  obtain ⟨q, rest, program, mbox, left, handling⟩ := (endless l).2.receives own idle
  rw [mbox, List.cons_prefix_cons] at queued
  obtain ⟨rfl, queued⟩ := queued
  exact ⟨l + 1, program, Nat.le_succ_of_le (Nat.le_trans later beyond), handling, left ▸ queued⟩

/-- A request in the mailbox is answered, after those in front of it. -/
theorem queue_answered (serving : Serving pid good promised rank)
    (endless : Endless (Guarded (Steady good promised) (Step pid)) states events)
    (live : ∀ n, Live pid good promised rank (states n)) (fair : Fair pid good promised states events)
    (below : Below rank states i)
    {front : List (Request P M)} (queued : front ++ [r] <+: (states n).mbox i) :
    ∃ m, n ≤ m ∧ r.id ∈ (states m).answered := by
  induction front generalizing n with
  | nil =>
    obtain ⟨m, program, later, handling, -⟩ := receives serving endless live fair below queued
    obtain ⟨l, beyond, answered, -⟩ := finishes serving endless live fair below handling List.nil_prefix
    exact ⟨l, Nat.le_trans later beyond, answered⟩
  | cons q front ih =>
    obtain ⟨m, program, later, -, queued⟩ := receives serving endless live fair below queued
    obtain ⟨l, beyond, answered⟩ := ih queued
    exact ⟨l, Nat.le_trans later beyond, answered⟩

theorem open_answered (serving : Serving pid good promised rank)
    (endless : Endless (Guarded (Steady good promised) (Step pid)) states events)
    (live : ∀ n, Live pid good promised rank (states n)) (fair : Fair pid good promised states events)
    (held : (states n).Held i r) :
    ∃ m, n ≤ m ∧ r.id ∈ (states m).answered := by
  induction size : rank i using Nat.strong_induction_on generalizing i r n with
  | _ size ih =>
    have below : Below rank states i := fun j lower n q opened => ih (rank j) (size ▸ lower) opened.1 rfl
    rcases held with queued | ⟨calling, program, handling⟩
    · obtain ⟨front, back, whole⟩ := List.append_of_mem queued
      have queued : front ++ [r] <+: (states n).mbox i :=
        ⟨back, by rw [whole, List.append_assoc, List.singleton_append]⟩
      exact queue_answered serving endless live fair below queued
    · obtain ⟨m, later, answered, -⟩ := finishes serving endless live fair below handling List.nil_prefix
      exact ⟨m, later, answered⟩

/-- In a run in which the servers go on, each request is answered, and it is so exactly once. -/
theorem served (serving : Serving pid good promised rank) (initial : (states 0).Initial pid)
    (endless : Endless (Guarded (Steady good promised) (Step pid)) states events)
    (fair : Fair pid good promised states events)
    {id : Nat} (issued : id < (states n).issued) : ∃ m, n ≤ m ∧ ∀ l, m ≤ l → (states l).answered.count id = 1 := by
  have live : ∀ n, Live pid good promised rank (states n) := fun n =>
    endless.invariant (fun _ _ _ live step => live.step serving step) initial.live (Nat.zero_le n)
  have some : ∃ m, n ≤ m ∧ id ∈ (states m).answered := by
    by_cases answered : id ∈ (states n).answered
    · exact ⟨n, Nat.le_refl n, answered⟩
    · obtain ⟨i, r, rfl, held, -⟩ := (live n).open_of_issued issued answered
      exact open_answered serving endless live fair held
  obtain ⟨m, later, answered⟩ := some
  refine ⟨m, later, fun l beyond => ?_⟩
  have still : id ∈ (states l).answered := by
    have kept : ∀ (before : World server) event after, id ∈ before.answered →
      Guarded (Steady good promised) (Step pid) before event after →
        id ∈ after.answered := fun _ _ _ before step => step.2.answered.subset before
    exact endless.invariant kept answered beyond
  have most := (live l).sound.matched.most id
  have one := List.count_pos_iff.mpr still
  omega

end

end Egos.Library.Rpc
