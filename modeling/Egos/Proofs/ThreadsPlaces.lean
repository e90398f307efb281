import Egos.Proofs.ThreadsSema

/-! Where the threads of mt.c are. The queues alone, without the contexts and states of the
threads, make the same moves. -/

namespace Egos.Threads
open Library Library.Prog

variable {ι : Type}

inductive Place (ι : Type) where
  | current
  | ready
  | waiting (sema : ι)
  | exited

structure Places (ι : Type) where
  current : ThreadId
  ready : List ThreadId
  waiting : ι → List ThreadId
  exited : List ThreadId
  created : Nat

def State.places (s : State ι) : Places ι :=
  { current := s.current, ready := s.ready, waiting := fun x => (s.sema x).queueWait, exited := s.exited,
    created := s.created }

namespace Places
variable {p q : Places ι} {t u : ThreadId} {rest : List ThreadId}

def count (p : Places ι) (t : ThreadId) : Place ι → Nat
  | .current => if t = p.current then 1 else 0
  | .ready => p.ready.count t
  | .waiting x => (p.waiting x).count t
  | .exited => p.exited.count t

def OnePlace (p : Places ι) (t : ThreadId) : Prop :=
  ∃ place, p.count t place = 1 ∧ ∀ other, other ≠ place → p.count t other = 0

def Nowhere (p : Places ι) (t : ThreadId) : Prop := ∀ place, p.count t place = 0

def active (p : Places ι) (t : ThreadId) : Nat := (if t = p.current then 1 else 0) + p.ready.count t

/-- The thread is where it was, except that having the CPU and being ready are not told apart. -/
structure Same (p q : Places ι) (t : ThreadId) : Prop where
  active : q.active t = p.active t
  exited : q.exited.count t = p.exited.count t
  waiting : ∀ x, (q.waiting x).count t = (p.waiting x).count t

theorem onePlace_active (active : p.active t = 1) (exited : p.exited.count t = 0)
    (waiting : ∀ x, (p.waiting x).count t = 0) :
    p.OnePlace t := by
  unfold Places.active at active
  by_cases here : t = p.current
  · rw [if_pos here] at active
    refine ⟨.current, if_pos here, fun other apart => ?_⟩
    cases other with
    | current => exact absurd rfl apart
    | ready => exact Nat.add_left_cancel active
    | waiting x => exact waiting x
    | exited => exact exited
  · rw [if_neg here, Nat.zero_add] at active
    refine ⟨.ready, active, fun other apart => ?_⟩
    cases other with
    | current => exact if_neg here
    | ready => exact absurd rfl apart
    | waiting x => exact waiting x
    | exited => exact exited

theorem onePlace_exited (active : p.active t = 0) (exited : p.exited.count t = 1)
    (waiting : ∀ x, (p.waiting x).count t = 0) :
    p.OnePlace t := by
  obtain ⟨current, ready⟩ := Nat.add_eq_zero_iff.mp active
  refine ⟨.exited, exited, fun other apart => ?_⟩
  cases other with
  | current => exact current
  | ready => exact ready
  | waiting x => exact waiting x
  | exited => exact absurd rfl apart

theorem onePlace_waiting {x : ι} (active : p.active t = 0) (exited : p.exited.count t = 0)
    (here : (p.waiting x).count t = 1)
    (waiting : ∀ y, y ≠ x → (p.waiting y).count t = 0) : p.OnePlace t := by
  obtain ⟨current, ready⟩ := Nat.add_eq_zero_iff.mp active
  refine ⟨.waiting x, here, fun other apart => ?_⟩
  cases other with
  | current => exact current
  | ready => exact ready
  | waiting y => exact waiting y fun same => apart (congrArg Place.waiting same)
  | exited => exact exited

/-- A thread in one place has the CPU or is ready, has exited, or waits for one semaphore. -/
theorem OnePlace.cases (one : p.OnePlace t) :
    (p.active t = 1 ∧ p.exited.count t = 0 ∧ ∀ x, (p.waiting x).count t = 0) ∨
    (p.active t = 0 ∧ p.exited.count t = 1 ∧ ∀ x, (p.waiting x).count t = 0) ∨
    p.active t = 0 ∧ p.exited.count t = 0 ∧ ∃ x, (p.waiting x).count t = 1 ∧ ∀ y, y ≠ x →
        (p.waiting y).count t = 0 := by
  obtain ⟨place, here, others⟩ := one
  cases place with
  | current =>
    refine .inl ⟨?_, others .exited nofun, fun x => others (.waiting x) nofun⟩
    exact congrArg₂ (· + ·) here (others .ready nofun)
  | ready =>
    refine .inl ⟨?_, others .exited nofun, fun x => others (.waiting x) nofun⟩
    exact congrArg₂ (· + ·) (others .current nofun) here
  | exited =>
    refine .inr (.inl ⟨?_, here, fun x => others (.waiting x) nofun⟩)
    exact congrArg₂ (· + ·) (others .current nofun) (others .ready nofun)
  | waiting x =>
    refine .inr (.inr ⟨?_, others .exited nofun, x, here, fun y apart => others (.waiting y)
      fun same => apart (Place.waiting.inj same)⟩)
    exact congrArg₂ (· + ·) (others .current nofun) (others .ready nofun)

theorem Nowhere.active (nowhere : p.Nowhere t) : p.active t = 0 := congrArg₂ (· + ·) (nowhere .current) (nowhere .ready)

theorem nowhere_of (active : p.active t = 0) (exited : p.exited.count t = 0)
    (waiting : ∀ x, (p.waiting x).count t = 0) :
    p.Nowhere t := by
  obtain ⟨current, ready⟩ := Nat.add_eq_zero_iff.mp active
  intro place
  cases place with
  | current => exact current
  | ready => exact ready
  | waiting x => exact waiting x
  | exited => exact exited

theorem Same.onePlace (same : Same p q t) (one : p.OnePlace t) : q.OnePlace t := by
  rcases one.cases with ⟨active, exited, waiting⟩ | ⟨active, exited, waiting⟩ | ⟨active, exited, x, here, waiting⟩
  · exact onePlace_active (same.active.trans active) (same.exited.trans exited)
      fun x => (same.waiting x).trans (waiting x)
  · exact onePlace_exited (same.active.trans active) (same.exited.trans exited)
      fun x => (same.waiting x).trans (waiting x)
  · exact onePlace_waiting (same.active.trans active) (same.exited.trans exited) ((same.waiting x).trans here)
      fun y apart => (same.waiting y).trans (waiting y apart)

theorem Same.nowhere (same : Same p q t) (nowhere : p.Nowhere t) : q.Nowhere t :=
  nowhere_of (same.active.trans nowhere.active) (same.exited.trans (nowhere .exited)) fun x =>
    (same.waiting x).trans (nowhere (.waiting x))

def hand (p : Places ι) (t : ThreadId) (rest : List ThreadId) (requeues : Bool) : Places ι :=
  { p with current := t, ready := rest ++ if requeues then [p.current] else [] }

theorem count_cons_add (t u : ThreadId) (rest : List ThreadId) :
    (t :: rest).count u = (if u = t then 1 else 0) + rest.count u := by
  rw [List.count_cons, Nat.add_comm]
  simp only [beq_iff_eq, @eq_comm _ t u]

theorem active_hand (queue : p.ready = t :: rest) : (p.hand t rest true).active u = p.active u := by
  unfold active hand
  rw [queue]
  simp only [if_true, List.count_append, count_cons_add, List.count_nil]
  omega

theorem active_dropped (queue : p.ready = t :: rest) :
    (p.hand t rest false).active u + (if u = p.current then 1 else 0) = p.active u := by
  unfold active hand
  rw [queue]
  simp only [Bool.false_eq_true, if_false, List.append_nil, count_cons_add]
  omega

end Places

/-- What the calls of the current thread do to the queues. `new` says that a thread that
cannot go on makes room for one that has not run yet. -/
inductive Move [DecidableEq ι] : Places ι → Call ι → Bool → Places ι → Prop where
  | idle {p call} (stays : call ≠ .exit) : Move p call false p
  | yield {p t rest} (queue : p.ready = t :: rest) :
      Move p .threadYield false ({ p with exited := [] }.hand t rest true)
  | create {p t rest} (queue : p.ready ++ [p.created + 1] = t :: rest) :
      Move p .threadCreate false ({ p with created := p.created + 1 }.hand t rest true)
  | wake {p x t rest} (queue : p.waiting x = t :: rest) :
      Move p (.semaInc x) false { p with waiting := Function.update p.waiting x rest, ready := p.ready ++ [t] }
  | block {p x t rest new} (queue : p.ready = t :: rest) :
      Move p (.semaDec x) new ({ p with waiting := Function.update p.waiting x (p.waiting x ++ [p.current]) }.hand
        t rest new)
  | exit {p t rest new} (queue : p.ready = t :: rest) :
      Move p .exit new ({ p with exited := p.exited ++ [p.current] }.hand t rest new)

/-- The queues, with the threads that have been freed and those that have called thread_exit. -/
structure Record (ι : Type) where
  places : Places ι
  freed : List ThreadId
  finished : List ThreadId

/-- Every thread is in one place until it is freed, and one that has exited is not scheduled. -/
structure InPlace (r : Record ι) : Prop where
  once : ∀ t ≤ r.places.created, t ∉ r.freed → r.places.OnePlace t
  gone : ∀ t ∈ r.freed, r.places.Nowhere t
  finished : ∀ t ∈ r.finished, t ≠ r.places.current ∧ t ∉ r.places.ready

/-- The record after a call: the threads that the exited queue no longer has are freed. -/
def Record.after (r : Record ι) (call : Call ι) (places : Places ι) : Record ι where
  places := places
  freed := r.freed ++ r.places.exited.filter fun t => t ∉ places.exited
  finished := match call with
    | .exit => r.places.current :: r.finished
    | _ => r.finished

/-- The invariant: no place is left for a thread that has not been created, and a thread that
has exited is in the exited queue until it is freed. -/
structure Kept (r : Record ι) : Prop where
  once : ∀ t ≤ r.places.created, t ∉ r.freed → r.places.OnePlace t
  gone : ∀ t ∈ r.freed, r.places.Nowhere t
  unknown : ∀ t, r.places.created < t → r.places.Nowhere t
  known : ∀ t ∈ r.freed, t ≤ r.places.created
  finished : ∀ t ∈ r.finished, t ∈ r.places.exited ∨ t ∈ r.freed

namespace Kept
variable {r : Record ι} {p : Places ι} {call : Call ι} {t u : ThreadId} {rest : List ThreadId}

theorem exited_apart (kept : Kept r) (member : t ∈ r.places.exited) :
    r.places.active t = 0 ∧ (r.places.exited).count t = 1 ∧ (∀ x, (r.places.waiting x).count t = 0) ∧
        t ≤ r.places.created ∧ t ∉ r.freed := by
  have positive := List.count_pos_iff.mpr member
  have known : t ≤ r.places.created := by
    by_contra unknown
    have nowhere := kept.unknown t (Nat.lt_of_not_le unknown) .exited
    exact Nat.ne_of_gt positive nowhere
  have present : t ∉ r.freed := fun freed => Nat.ne_of_gt positive (kept.gone t freed .exited)
  rcases (kept.once t known present).cases with ⟨_, exited, _⟩ | ⟨active, exited, waiting⟩ | ⟨_, exited, _⟩
  · exact absurd exited (Nat.ne_of_gt positive)
  · exact ⟨active, exited, waiting, known, present⟩
  · exact absurd exited (Nat.ne_of_gt positive)

theorem inPlace (kept : Kept r) : InPlace r where
  once := kept.once
  gone := kept.gone
  finished := by
    intro t done
    have inactive : r.places.active t = 0 := by
      rcases kept.finished t done with exited | freed
      · exact (kept.exited_apart exited).1
      · exact (kept.gone t freed).active
    obtain ⟨current, ready⟩ := Nat.add_eq_zero_iff.mp inactive
    refine ⟨fun same => ?_, List.count_eq_zero.mp ready⟩
    rw [if_pos same] at current
    cases current

theorem current_active (kept : Kept r) :
    r.places.active r.places.current = 1 ∧ r.places.exited.count r.places.current = 0 ∧
    (∀ x, (r.places.waiting x).count r.places.current = 0) ∧ r.places.current ≤ r.places.created ∧
        r.places.current ∉ r.freed := by
  have here : r.places.count r.places.current .current = 1 := if_pos rfl
  have known : r.places.current ≤ r.places.created := by
    by_contra unknown
    exact nomatch here.symm.trans (kept.unknown _ (Nat.lt_of_not_le unknown) .current)
  have present : r.places.current ∉ r.freed := fun freed => nomatch here.symm.trans (kept.gone _ freed .current)
  have positive : 0 < r.places.active r.places.current := Nat.add_pos_left (Nat.lt_of_lt_of_eq Nat.one_pos here.symm) _
  rcases (kept.once _ known present).cases with ⟨active, exited, waiting⟩ | ⟨active, _⟩ | ⟨active, _⟩
  · exact ⟨active, exited, waiting, known, present⟩
  · exact absurd active (Nat.ne_of_gt positive)
  · exact absurd active (Nat.ne_of_gt positive)

/-- Nothing is freed. -/
theorem after_freed (exited : ∀ t ∈ r.places.exited, t ∈ p.exited) : (r.after call p).freed = r.freed := by
  have none : r.places.exited.filter (fun t => t ∉ p.exited) = [] :=
    List.filter_eq_nil_iff.mpr fun t member => by simp [exited t member]
  unfold Record.after
  rw [none, List.append_nil]

/-- At most one thread changes its place. -/
theorem moved (kept : Kept r) (others : ∀ t, t ≠ u → Places.Same r.places p t) (one : p.OnePlace u)
    (present : u ∉ r.freed)
    (grows : p.created = r.places.created ∨ p.created = r.places.created + 1 ∧ u = r.places.created + 1)
    (inside : u ≤ p.created) (exited : ∀ t ∈ r.places.exited, t ∈ p.exited)
    (finished : ∀ t ∈ (r.after call p).finished, t ∈ r.finished ∨ t ∈ p.exited) : Kept (r.after call p) := by
  have same := @after_freed ι r p call exited
  have older : ∀ t ≤ p.created, t ≠ u → t ≤ r.places.created := by
    intro t known apart
    rcases grows with same | ⟨grown, new⟩
    · exact same ▸ known
    · rw [grown] at known
      rw [new] at apart
      exact Nat.le_of_lt_succ (Nat.lt_of_le_of_ne known apart)
  have newer : r.places.created ≤ p.created := by rcases grows with same | ⟨grown, _⟩ <;> omega
  constructor
  · rw [same]
    intro t known kind
    by_cases here : t = u
    · exact here ▸ one
    · exact (others t here).onePlace (kept.once t (older t known here) kind)
  · rw [same]
    intro t gone
    refine (others t ?_).nowhere (kept.gone t gone)
    rintro rfl
    exact present gone
  · intro t unknown
    have apart : t ≠ u := fun same => Nat.not_le_of_lt unknown (same ▸ inside)
    exact (others t apart).nowhere (kept.unknown t (Nat.lt_of_le_of_lt newer unknown))
  · rw [same]
    exact fun t gone => (kept.known t gone).trans newer
  · rw [same]
    intro t done
    rcases finished t done with before | out
    · exact (kept.finished t before).imp_left (exited t)
    · exact .inl out

/-- The exited queue is emptied. -/
theorem cleared (kept : Kept r) (queue : r.places.ready = t :: rest) :
    Kept (r.after .threadYield ({ r.places with exited := [] }.hand t rest true)) := by
  have freed : (r.after .threadYield ({ r.places with exited := [] }.hand t rest true)).freed =
      r.freed ++ r.places.exited := by
    simp [Record.after, Places.hand]
  have same : ∀ u, r.places.exited.count u = 0 →
      Places.Same r.places ({ r.places with exited := [] }.hand t rest true) u :=
    fun u none => ⟨Places.active_hand (p := { r.places with exited := [] }) queue, none.symm, fun _ => rfl⟩
  constructor
  · rw [freed]
    intro u known present
    have absent : u ∉ r.places.exited := fun out => present (List.mem_append_right _ out)
    exact (same u (List.count_eq_zero.mpr absent)).onePlace (kept.once u known
      fun gone => present (List.mem_append_left _ gone))
  · rw [freed]
    intro u gone
    rcases List.mem_append.mp gone with gone | out
    · exact (same u (kept.gone u gone .exited)).nowhere (kept.gone u gone)
    · obtain ⟨active, -, waiting, -⟩ := kept.exited_apart out
      exact Places.nowhere_of ((Places.active_hand (p := { r.places with exited := [] }) queue).trans active)
        rfl waiting
  · exact fun u unknown => (same u (kept.unknown u unknown .exited)).nowhere (kept.unknown u unknown)
  · rw [freed]
    intro u gone
    rcases List.mem_append.mp gone with gone | out
    · exact kept.known u gone
    · exact (kept.exited_apart out).2.2.2.1
  · rw [freed]
    exact fun u done => .inr (List.mem_append.mpr (kept.finished u done).symm)

end Kept

section Moves
variable [DecidableEq ι] {r : Record ι} {p : Places ι} {call : Call ι} {t : ThreadId} {rest : List ThreadId} {x : ι}

theorem waiting_update (p : Places ι) (x : ι) (queue : List ThreadId) (t : ThreadId) (y : ι) :
    (Function.update p.waiting x queue y).count t = if y = x then queue.count t else (p.waiting y).count t := by
  rw [Function.update_apply]
  split <;> rfl

omit [DecidableEq ι] in
private theorem kept_create (kept : Kept r) (queue : r.places.ready ++ [r.places.created + 1] = t :: rest) :
    Kept (r.after .threadCreate ({ r.places with created := r.places.created + 1 }.hand t rest true)) := by
  have added : ({ r.places with created := r.places.created + 1, ready := r.places.ready ++ [r.places.created + 1] } : Places ι).ready =
      t :: rest := queue
  have active : ∀ u, ({ r.places with created := r.places.created + 1 }.hand t rest true).active u =
      r.places.active u + if u = r.places.created + 1 then 1 else 0 := by
    intro u
    refine (Places.active_hand added).trans ?_
    unfold Places.active
    simp only [List.count_append, Places.count_cons_add, List.count_nil]
    omega
  have nowhere := kept.unknown (r.places.created + 1) (Nat.lt_succ_self _)
  refine kept.moved (u := r.places.created + 1)
    (fun u apart => ⟨?_, rfl, fun _ => rfl⟩) ?_ ?_ (.inr ⟨rfl, rfl⟩) (Nat.le_refl _)
    (fun _ => id) fun _ => .inl
  · rw [active, if_neg apart, Nat.add_zero]
  · refine Places.onePlace_active ?_ (nowhere .exited) fun x => nowhere (.waiting x)
    rw [active, if_pos rfl, nowhere.active]
  · exact fun gone => Nat.not_succ_le_self _ (kept.known _ gone)

private theorem kept_wake (kept : Kept r) (queue : r.places.waiting x = t :: rest) :
    Kept (r.after (.semaInc x) { r.places with waiting := Function.update r.places.waiting x rest, ready := r.places.ready ++ [t] }) := by
  have waited : 0 < (r.places.waiting x).count t := by
    rw [queue, Places.count_cons_add, if_pos rfl]
    omega
  have known : t ≤ r.places.created := by
    by_contra unknown
    exact Nat.ne_of_gt waited (kept.unknown t (Nat.lt_of_not_le unknown) (.waiting x))
  have present : t ∉ r.freed := fun gone => Nat.ne_of_gt waited (kept.gone t gone (.waiting x))
  have active : ∀ u, ({ r.places with waiting := Function.update r.places.waiting x rest, ready := r.places.ready ++ [t] } : Places ι).active u =
      r.places.active u + if u = t then 1 else 0 := by
    intro u
    unfold Places.active
    simp only [List.count_append, Places.count_cons_add, List.count_nil]
    omega
  have waiting : ∀ u, (r.places.waiting x).count u = (if u = t then 1 else 0) + rest.count u := fun u => by
    rw [queue, Places.count_cons_add]
  refine kept.moved (u := t) (fun u apart => ⟨?_, rfl, fun y => ?_⟩) ?_ present (.inl rfl) known
    (fun _ => id) fun _ => .inl
  · rw [active, if_neg apart, Nat.add_zero]
  · rw [waiting_update]
    split
    case isTrue same => rw [same, waiting, if_neg apart, Nat.zero_add]
    case isFalse => rfl
  · rcases (kept.once t known present).cases with ⟨_, _, none⟩ | ⟨_, _, none⟩ | ⟨inactive, exited, y, here, others⟩
    · exact absurd (none x) (Nat.ne_of_gt waited)
    · exact absurd (none x) (Nat.ne_of_gt waited)
    · have same : x = y := by
        by_contra apart
        exact Nat.ne_of_gt waited (others x apart)
      subst same
      refine Places.onePlace_active ?_ exited fun y => ?_
      · rw [active, inactive, if_pos rfl]
      · rw [waiting_update]
        split
        case isTrue same =>
          have once := waiting t
          rw [if_pos rfl, here] at once
          omega
        case isFalse apart => exact others y apart

/-- A thread that leaves the CPU for a queue is in this queue only. -/
private theorem kept_block (kept : Kept r) (queue : r.places.ready = t :: rest) :
    Kept (r.after (.semaDec x) ({ r.places with
      waiting := Function.update r.places.waiting x (r.places.waiting x ++ [r.places.current]) }.hand t rest
          false)) := by
  obtain ⟨active, exited, waiting, known, present⟩ := kept.current_active
  have dropped : ∀ u, ({ r.places with
      waiting := Function.update r.places.waiting x (r.places.waiting x ++ [r.places.current]) }.hand t rest
        false).active u +
      (if u = r.places.current then 1 else 0) = r.places.active u := fun u => Places.active_dropped queue
  have joined : ∀ u y, (Function.update r.places.waiting x (r.places.waiting x ++ [r.places.current]) y).count u =
      (r.places.waiting y).count u + if y = x ∧ u = r.places.current then 1 else 0 := by
    intro u y
    rw [waiting_update]
    split
    case isTrue same => simp [same, Places.count_cons_add]
    case isFalse apart => simp [apart]
  refine kept.moved (u := r.places.current) (fun u apart => ⟨?_, rfl, fun y => ?_⟩) ?_ present (.inl rfl) known
    (fun _ => id) fun _ => .inl
  · have same := dropped u
    rwa [if_neg apart, Nat.add_zero] at same
  · exact (joined u y).trans (by rw [if_neg fun both => apart both.2, Nat.add_zero])
  · refine @Places.onePlace_waiting _ _ _ x ?_ exited ?_ fun y apart => ?_
    · have same := dropped r.places.current
      rw [if_pos rfl, active] at same
      exact Nat.succ.inj same
    · exact (joined _ x).trans (by rw [waiting, if_pos ⟨rfl, rfl⟩])
    · exact (joined _ y).trans (by rw [waiting, if_neg fun both => apart both.1])

omit [DecidableEq ι] in
private theorem kept_exit (kept : Kept r) (queue : r.places.ready = t :: rest) :
    Kept (r.after .exit ({ r.places with exited := r.places.exited ++ [r.places.current] }.hand t rest false)) := by
  obtain ⟨active, exited, waiting, known, present⟩ := kept.current_active
  have dropped : ∀ u, ({ r.places with exited := r.places.exited ++ [r.places.current] }.hand t rest false).active u +
      (if u = r.places.current then 1 else 0) = r.places.active u := fun u => Places.active_dropped queue
  have joined : ∀ u, (r.places.exited ++ [r.places.current]).count u =
      r.places.exited.count u + if u = r.places.current then 1 else 0 := fun u => by
    rw [List.count_append, Places.count_cons_add, List.count_nil, Nat.add_zero]
  refine kept.moved (u := r.places.current) (fun u apart => ⟨?_, ?_, fun y => rfl⟩) ?_ present (.inl rfl) known
    (fun _ => List.mem_append_left _) fun u done => ?_
  · have same := dropped u
    rwa [if_neg apart, Nat.add_zero] at same
  · exact (joined u).trans (by rw [if_neg apart, Nat.add_zero])
  · refine Places.onePlace_exited ?_ ?_ waiting
    · have same := dropped r.places.current
      rw [if_pos rfl, active] at same
      exact Nat.succ.inj same
    · exact (joined _).trans (by rw [exited, if_pos rfl])
  · rcases List.mem_cons.mp done with rfl | before
    · exact .inr (List.mem_append_right _ List.mem_cons_self)
    · exact .inl before

omit [DecidableEq ι] in
private theorem kept_idle (kept : Kept r) (stays : call ≠ .exit) : Kept (r.after call r.places) := by
  obtain ⟨_, _, _, known, present⟩ := kept.current_active
  refine kept.moved (u := r.places.current)
    (fun _ _ => ⟨rfl, rfl, fun _ => rfl⟩) (kept.once _ known present) present (.inl rfl) known
    (fun _ => id) fun u done => .inl ?_
  cases call with
  | exit => exact absurd rfl stays
  | threadYield | threadCreate | semaInc | semaDec => exact done

/-- What one call preserves. -/
theorem Move.kept (kept : Kept r) {new : Bool} (move : Move r.places call new p) (prudent : new = false) :
    Kept (r.after call p) := by
  cases move with
  | idle stays => exact kept_idle kept stays
  | yield queue => exact kept.cleared queue
  | create queue => exact kept_create kept queue
  | wake queue => exact kept_wake kept queue
  | block queue => exact prudent ▸ kept_block kept queue
  | exit queue => exact prudent ▸ kept_exit kept queue

/-- A thread that cannot go on is put on the ready queue. -/
theorem Move.misplaced (kept : Kept r) {new : Bool} (move : Move r.places call new p) (rash : new = true) :
    ¬InPlace (r.after call p) := by
  obtain ⟨active, exited, waiting, known, present⟩ := kept.current_active
  intro inPlace
  cases move with
  | idle | yield | create | wake => cases rash
  | @block x t rest _ queue =>
    subst rash
    have freed := @Kept.after_freed ι r ({ r.places with
      waiting := Function.update r.places.waiting x (r.places.waiting x ++ [r.places.current]) }.hand t rest true)
        (.semaDec x) fun _ => id
    have one := inPlace.once r.places.current known (freed ▸ present)
    have busy : ({ r.places with
        waiting := Function.update r.places.waiting x (r.places.waiting x ++ [r.places.current]) }.hand t rest
          true).active
        r.places.current = 1 := (Places.active_hand queue).trans active
    rcases one.cases with ⟨_, _, none⟩ | ⟨idle, _⟩ | ⟨idle, _⟩
    · have none := (waiting_update r.places x _ _ x).symm.trans (none x)
      simp at none
    · exact nomatch busy.symm.trans idle
    · exact nomatch busy.symm.trans idle
  | @exit t rest _ queue =>
    subst rash
    have freed := @Kept.after_freed ι r ({ r.places with exited := r.places.exited ++ [r.places.current] }.hand
      t rest true) .exit
      fun _ => List.mem_append_left _
    have one := inPlace.once r.places.current known (freed ▸ present)
    have busy : ({ r.places with exited := r.places.exited ++ [r.places.current] }.hand t rest true).active
        r.places.current = 1 :=
      (Places.active_hand queue).trans active
    rcases one.cases with ⟨_, none, _⟩ | ⟨idle, _⟩ | ⟨idle, _⟩
    · exact List.count_eq_zero.mp none (List.mem_append_right _ List.mem_cons_self)
    · exact nomatch busy.symm.trans idle
    · exact nomatch busy.symm.trans idle

end Moves

/-- The current thread can go on, or it is the only one and its state was never written. -/
def Going (s : State ι) : Prop := runnable (s.thread s.current).state = true ∨ s.created = 0

abbrev Does (program : Package ι (Control ι)) (s : State ι) (holds : Places ι → Prop) : Prop :=
  Ensures (fun _ => True) program s fun _ after => holds after.places ∧
    runnable (after.thread after.current).state = true

section Package
variable {s : State ι} {t : ThreadId} {rest : List ThreadId} {call : Call ι}

/-- A stopped thread comes back from the call it was in. -/
private theorem switch_does {saved : Call ι} (apart : s.current ≠ t) (base : (s.thread t).base = .inside saved)
    {between : State ι} (kept : (between.thread t).base = (s.thread t).base)
    (now : between.current = t) (running : (between.thread t).state = .running) :
    Does (ctxSwitch call s.current t) between (· = between.places) := by
  have context : (between.setBase s.current (.inside call)).thread t = between.thread t :=
    Function.update_of_ne apart.symm _ _
  unfold ctxSwitch
  apply Ensures.modify
  apply Ensures.get
  rw [context, kept, base]
  refine Ensures.returns rfl ⟨rfl, ?_⟩
  change runnable ((between.setBase s.current (.inside call)).thread between.current).state = true
  rw [now, context, running]
  rfl

/-- The head of the ready queue gets the CPU. A new thread puts the old one on the ready queue
whatever its state is. -/
theorem schedule_does (sound : Sound (some call) s) (queue : s.ready = t :: rest) :
    Does (threadSchedule call) s
      (· = s.places.hand t rest (decide ((s.thread t).state = .ready) || runnable (s.thread s.current).state)) := by
  have apart := sound.current_ne queue
  have found : findRunnable s = .done t { s with ready := rest } := by
    unfold findRunnable
    rw [bind_done (get_run s)]
    simp only [queue]
    rfl
  unfold threadSchedule
  apply Ensures.get
  apply Ensures.bind_returns found
  apply Ensures.modify
  apply Ensures.get
  simp only [decide_eq_false apart]
  rcases sound.parked t (head_ready queue) with ⟨new, top⟩ | ⟨stopped, saved, returns, base⟩
  · simp only [new]
    refine Ensures.returns rfl ⟨rfl, ?_⟩
    simp [State.setState, State.queueAdd, runnable]
  · simp only [stopped]
    cases run : runnable (s.thread s.current).state with
    | true =>
      apply Ensures.modify
      apply Ensures.modify
      apply Ensures.modify
      apply Ensures.modify
      refine switch_does apart base ?_ rfl ?_
      · simp [State.setState, State.queueAdd, apart.symm]
      · simp [State.setState]
    | false =>
      apply Ensures.modify
      apply Ensures.modify
      refine (switch_does apart base ?_ rfl ?_).weaken fun _ after does => ⟨does.1.trans ?_, does.2⟩
      · simp [State.setState]
      · simp [State.setState]
      · simp [State.places, Places.hand, State.setState]

/-- A thread that blocks or exits leaves the CPU. -/
theorem leave_does (sound : Sound (some call) s) (sleeps : runnable (s.thread s.current).state = false) :
    Ensures (fun _ => True) (threadYield call) s fun _ after =>
      (∃ t rest, s.ready = t :: rest ∧ after.places = s.places.hand t rest (decide ((s.thread t).state = .ready))) ∧
          Going after := by
  unfold threadYield
  apply Ensures.get
  cases queue : s.ready with
  | nil =>
    simp only [sleeps]
    exact trivial
  | cons t rest =>
    simp only [sleeps]
    refine (schedule_does sound queue).weaken fun _ after does => ⟨⟨t, rest, rfl, ?_⟩, .inl does.2⟩
    rw [does.1, sleeps, Bool.or_false]

theorem parked_stopped {thread : Thread ι} (parked : Parked thread) :
    decide (thread.state = .ready) = false ↔ thread.state = .stopped := by
  rcases parked with ⟨new, _⟩ | ⟨stopped, _⟩
  · simp [new]
  · simp [stopped]

variable [DecidableEq ι]

/-- A thread that can go on yields. -/
theorem yield_does (sound : Sound none s) (going : Going s) :
    Ensures (fun _ => True) (threadYield .threadYield) s fun _ after => Move s.places .threadYield false after.places ∧
        Going after := by
  unfold threadYield
  apply Ensures.get
  cases queue : s.ready with
  | nil =>
    cases run : runnable (s.thread s.current).state with
    | false => exact trivial
    | true => exact ⟨.idle nofun, going⟩
  | cons t rest =>
    have run : runnable (s.thread s.current).state = true := by
      refine going.resolve_right fun alone => ?_
      have known := sound.readyKnown t (head_ready queue)
      have current := sound.currentKnown
      rw [alone] at known current
      exact sound.current_ne queue ((Nat.le_zero.mp current).trans (Nat.le_zero.mp known).symm)
    have quiet : Sound (some .threadYield) { s with exited := [] } :=
      (sound.settle sound.awake).keep rfl rfl rfl (fun _ => rfl) rfl
    simp only [run]
    apply Ensures.modify
    refine (schedule_does quiet queue).weaken fun _ after does => ⟨?_, .inl does.2⟩
    rw [does.1, show runnable (({ s with exited := [] } : State ι).thread s.current).state = true from run,
      Bool.or_true]
    exact .yield (p := s.places) queue

theorem create_does (sound : Sound none s) (going : Going s) :
    Ensures (fun _ => True) threadCreate s fun _ after => Move s.places .threadCreate false after.places ∧
        Going after := by
  have grown := sound.create s.exited
  unfold threadCreate
  apply Ensures.modify
  apply Ensures.modify
  apply Ensures.modify
  obtain ⟨t, rest, queue⟩ : ∃ t rest, s.ready ++ [s.created + 1] = t :: rest :=
    List.exists_cons_of_ne_nil (List.append_ne_nil_of_right_ne_nil _ (List.cons_ne_nil _ _))
  refine (schedule_does grown queue).weaken fun _ after does => ⟨?_, .inl does.2⟩
  -- the first thread, whose state may be garbage, makes room for the only other one
  have requeued : (decide ((Function.update s.thread (s.created + 1) { base := .top, state := .ready } t).state =
    .ready) ||
      runnable (Function.update s.thread (s.created + 1) { base := .top, state := .ready } s.current).state) =
          true := by
    have known : s.current ≠ s.created + 1 := Nat.ne_of_lt (Nat.lt_succ_of_le sound.currentKnown)
    rcases going with run | alone
    · rw [Function.update_of_ne known, run, Bool.or_true]
    · have empty : s.ready = [] := by
        refine List.eq_nil_iff_forall_not_mem.mpr fun u member => ?_
        have other := sound.readyKnown u member
        have current := sound.currentKnown
        rw [alone] at other current
        exact sound.running ((Nat.le_zero.mp current).trans (Nat.le_zero.mp other).symm ▸ member)
      rw [empty, List.nil_append] at queue
      obtain ⟨rfl, -⟩ := List.cons.inj queue
      rw [Function.update_self]
      rfl
  have same := does.1
  dsimp only at same
  rw [requeued] at same
  rw [same]
  exact .create (p := s.places) queue

theorem places_setSema (s : State ι) (x : ι) (value : Sema) :
    (s.setSema x value).places = { s.places with waiting := Function.update s.places.waiting x value.queueWait } := by
  have waiting : (fun y => ((s.setSema x value).sema y).queueWait) =
      Function.update s.places.waiting x value.queueWait := by
    funext y
    simp only [State.setSema, Function.update_apply]
    split <;> rfl
  exact congrArg (fun waiting => ({ s.places with waiting } : Places ι)) waiting

/-- A count is changed. -/
theorem places_setCount (s : State ι) (x : ι) (count : UInt32) :
    (s.setSema x { s.sema x with count }).places = s.places := by
  rw [places_setSema]
  exact congrArg (fun waiting => ({ s.places with waiting } : Places ι)) (Function.update_eq_self x s.places.waiting)

theorem inc_does (sound : Sound none s) (going : Going s) (x : ι) :
    Ensures (fun _ => True) (semaInc x) s fun _ after => Move s.places (.semaInc x) false after.places ∧
        Going after := by
  unfold semaInc
  apply Ensures.get
  cases queue : (s.sema x).queueWait with
  | cons t rest =>
    apply Ensures.modify
    apply Ensures.modify
    apply Ensures.modify
    have waits : t ∈ (s.sema x).queueWait := by
      rw [queue]
      exact List.mem_cons_self
    have apart : s.current ≠ t := by
      rintro rfl
      exact sound.awake x waits
    refine ⟨?_, ?_⟩
    · have places := places_setSema s x { s.sema x with queueWait := rest }
      change Move s.places _ false { (s.setSema x { s.sema x with queueWait := rest }).places with ready := s.ready ++ [t] }
      rw [places]
      exact .wake (p := s.places) queue
    · refine going.imp (fun run => ?_) id
      change runnable (Function.update s.thread t _ s.current).state = true
      rw [Function.update_of_ne apart, run]
  | nil =>
    apply Ensures.modify
    refine ⟨?_, going⟩
    rw [places_setCount]
    exact .idle nofun

theorem dec_does (sound : Sound none s) (going : Going s) (x : ι) :
    Ensures (fun _ => True) (semaDec x) s fun control after =>
      (∃ new, Move s.places (.semaDec x) new after.places ∧
        (new = false ↔ Prudent s ⟨s.current, .semaDec x, control⟩)) ∧ Going after := by
  unfold semaDec
  apply Ensures.get
  cases zero : decide ((s.sema x).count = 0) with
  | true =>
    apply Ensures.modify
    apply Ensures.modify
    have kept := (sound.setState .blocked).block x
    have sleeps : runnable ((s.setState s.current .blocked).thread s.current).state = false := by
      rw [setState_state]
      rfl
    refine (leave_does kept sleeps).weaken fun control after does => ⟨?_, does.2⟩
    obtain ⟨t, rest, queue, places⟩ := does.1
    have ready : s.ready = t :: rest := queue
    have apart : t ≠ s.current := (sound.current_ne ready).symm
    have state : ((s.setState s.current .blocked).thread t).state = (s.thread t).state := by
      simp only [State.setState, Function.update_of_ne apart]
    refine ⟨decide ((s.thread t).state = .ready), ?_, ?_⟩
    · rw [places, places_setSema]
      change Move s.places _ _ (Places.hand _ t rest
        (decide (((s.setState s.current .blocked).thread t).state = .ready)))
      rw [state]
      exact .block (p := s.places) ready
    · refine (parked_stopped (sound.parked t (head_ready ready))).trans ?_
      unfold Prudent
      rw [ready]
      exact ⟨fun stopped _ u head => Option.some.inj head ▸
        stopped, fun prudent => prudent (of_decide_eq_true zero) t rfl⟩
  | false =>
    apply Ensures.modify
    refine ⟨⟨false, ?_, iff_of_true rfl fun empty => absurd empty (of_decide_eq_false zero)⟩, going⟩
    rw [places_setCount]
    exact .idle (by simp)

theorem exit_does (sound : Sound none s) :
    Ensures (fun _ => True) threadExit s fun control after =>
      (∃ new, Move s.places .exit new after.places ∧ (new = false ↔ Prudent s ⟨s.current, .exit, control⟩)) ∧
          Going after := by
  unfold threadExit
  apply Ensures.modify
  apply Ensures.modify
  have exits : Sound (some .exit) (s.setState s.current .terminated) := (sound.setState .terminated).settle sound.awake
  have kept : Sound (some .exit) { s.setState s.current .terminated with exited := s.exited ++ [s.current] } :=
    exits.keep rfl rfl rfl (fun _ => rfl) rfl
  have sleeps : runnable ((s.setState s.current .terminated).thread s.current).state = false := by
    rw [setState_state]
    rfl
  refine (leave_does kept sleeps).weaken fun control after does => ⟨?_, does.2⟩
  obtain ⟨t, rest, queue, places⟩ := does.1
  have ready : s.ready = t :: rest := queue
  have apart : t ≠ s.current := (sound.current_ne ready).symm
  have state : ((s.setState s.current .terminated).thread t).state = (s.thread t).state := by
    simp only [State.setState, Function.update_of_ne apart]
  refine ⟨decide ((s.thread t).state = .ready), ?_, ?_⟩
  · rw [places]
    change Move s.places _ _ (Places.hand _ t rest
      (decide (((s.setState s.current .terminated).thread t).state = .ready)))
    rw [state]
    exact .exit (p := s.places) ready
  · refine (parked_stopped (sound.parked t (head_ready ready))).trans ?_
    unfold Prudent
    rw [ready]
    exact ⟨fun stopped u head => Option.some.inj head ▸ stopped, fun prudent => prudent t rfl⟩

/-- What one turn does to the queues. -/
theorem turn_moves (sound : Sound none s) (going : Going s) {turn : Turn ι} {after : State ι}
    (step : Step s turn after) :
    turn.thread = s.current ∧ (∃ new, Move s.places turn.call new after.places ∧ (new = false ↔ Prudent s turn)) ∧
        Going after := by
  obtain ⟨thread, call, control⟩ := turn
  unfold Step State.turn at step
  cases ran : perform call s with
  | halted reason stopped =>
    rw [ran] at step
    cases step
  | done control reached =>
    rw [ran] at step
    simp only [Option.ite_none_right_eq_some, Option.some.injEq] at step
    obtain ⟨⟨rfl, rfl, _⟩, rfl⟩ := step
    refine ⟨rfl, ?_⟩
    cases call with
    | threadYield =>
      obtain ⟨move, going⟩ := (yield_does sound going).done ran
      exact ⟨⟨false, move, iff_of_true rfl trivial⟩, going⟩
    | threadCreate =>
      obtain ⟨move, going⟩ := (create_does sound going).done ran
      exact ⟨⟨false, move, iff_of_true rfl trivial⟩, going⟩
    | semaInc x =>
      obtain ⟨move, going⟩ := (inc_does sound going x).done ran
      exact ⟨⟨false, move, iff_of_true rfl trivial⟩, going⟩
    | semaDec x => exact (dec_does sound going x).done ran
    | exit => exact (exit_does sound).done ran

end Package

structure Tracked (ι : Type) where
  state : State ι
  freed : List ThreadId
  finished : List ThreadId

namespace Tracked

def record (w : Tracked ι) : Record ι := { places := w.state.places, freed := w.freed, finished := w.finished }

def boot (count : ι → UInt32) (state : Status) : Tracked ι :=
  { state := Threads.boot count state, freed := [], finished := [] }

variable [DecidableEq ι]

def turn (w : Tracked ι) (turn : Turn ι) : Option (Tracked ι) :=
  (w.state.turn turn).map fun state =>
    { state, freed := (w.record.after turn.call state.places).freed,
      finished := (w.record.after turn.call state.places).finished }

def Orderly : Tracked ι → List (Turn ι) → Prop
  | w, [] => InPlace w.record
  | w, turn :: turns => InPlace w.record ∧ ∀ after, w.turn turn = some after → Orderly after turns

def AllPrudent : Tracked ι → List (Turn ι) → Prop
  | _, [] => True
  | w, turn :: turns => ∀ after, w.turn turn = some after → Prudent w.state turn ∧ AllPrudent after turns

theorem Orderly.here {w : Tracked ι} {turns : List (Turn ι)} (orderly : w.Orderly turns) : InPlace w.record := by
  cases turns with
  | nil => exact orderly
  | cons turn turns => exact orderly.1

/-- The last state of a run that can be made. -/
theorem Orderly.last {w after : Tracked ι} {turns : List (Turn ι)} (orderly : w.Orderly turns)
    (ran : turns.foldlM turn w = some after) :
    InPlace after.record := by
  induction turns generalizing w with
  | nil =>
    cases ran
    exact orderly
  | cons first turns ih =>
    obtain ⟨middle, moved, rest⟩ := Option.bind_eq_some_iff.mp ran
    exact ih (orderly.2 middle moved) rest

theorem orderly_iff {w : Tracked ι} (kept : Kept w.record) (sound : Sound none w.state) (going : Going w.state)
    (turns : List (Turn ι)) :
    w.Orderly turns ↔ w.AllPrudent turns := by
  induction turns generalizing w with
  | nil => exact iff_of_true kept.inPlace trivial
  | cons first turns ih =>
    refine (and_iff_right kept.inPlace).trans (forall₂_congr fun after moved => ?_)
    obtain ⟨state, step, rfl⟩ := Option.map_eq_some_iff.mp moved
    obtain ⟨_, ⟨new, move, prudent⟩, goes⟩ := turn_moves sound going step
    cases new with
    | false =>
      have wise : Prudent w.state first := prudent.mp rfl
      refine Iff.trans (ih ?_ (step_credit sound wise step).1 goes) (and_iff_right wise).symm
      exact move.kept kept rfl
    | true =>
      refine iff_of_false (fun orderly => move.misplaced kept rfl orderly.here) fun both => ?_
      exact nomatch prudent.mpr both.1

omit [DecidableEq ι] in
theorem boot_kept (count : ι → UInt32) (state : Status) : Kept (boot count state).record where
  once t known _ := by
    obtain rfl : t = 0 := Nat.le_zero.mp known
    exact Places.onePlace_active rfl rfl fun _ => rfl
  gone := nofun
  unknown t unknown := Places.nowhere_of (congrArg (· + 0) (if_neg (Nat.ne_of_gt unknown))) rfl fun _ => rfl
  known := nofun
  finished := nofun

end Tracked
end Egos.Threads
