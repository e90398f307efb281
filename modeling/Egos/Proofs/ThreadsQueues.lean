import Egos.Apps.Threads
import Egos.Library.Ensures
import Mathlib.Data.List.Nodup

/-! Who is in the queues of mt.c, as long as the thread that gives up the CPU in sema_dec
or exit never makes room for one that has not run yet. -/

namespace Egos.Threads
open Library Library.Prog

variable {ι : Type}

/-- A thread that may get the CPU: it is new, or stopped in a call that can return. -/
def Parked (thread : Thread ι) : Prop :=
  (thread.state = .ready ∧ thread.base = .top) ∨
    thread.state = .stopped ∧ ∃ call, call ≠ .exit ∧ thread.base = .inside call

/-- `call` is the call in which the current thread is giving up the CPU. -/
structure Sound (call : Option (Call ι)) (s : State ι) : Prop where
  distinct : s.ready.Nodup
  running : s.current ∉ s.ready
  parked : ∀ t ∈ s.ready, Parked (s.thread t)
  waiting : ∀ x, ∀ t ∈ (s.sema x).queueWait, t ∉ s.ready
  lined : ∀ x, (s.sema x).queueWait.Nodup
  inside : ∀ x, ∀ t ∈ (s.sema x).queueWait, t ≠ s.current → (s.thread t).base = .inside (.semaDec x)
  leaving : ∀ x, s.current ∈ (s.sema x).queueWait → call = some (.semaDec x)
  currentKnown : s.current ≤ s.created
  readyKnown : ∀ t ∈ s.ready, t ≤ s.created
  waitingKnown : ∀ x, ∀ t ∈ (s.sema x).queueWait, t ≤ s.created

def Thread.released [DecidableEq ι] (thread : Thread ι) (x : ι) : Bool :=
  match thread.base with
  | .inside (.semaDec y) => decide (y = x)
  | _ => false

/-- The calls of sema_dec that may still return without a further sema_inc. -/
def credit [DecidableEq ι] (x : ι) (s : State ι) : Nat :=
  (s.sema x).count.toNat + s.ready.countP fun t => (s.thread t).released x

def gain [DecidableEq ι] (x : ι) (control : Control ι) : Nat := if control = .returns (.semaDec x) then 1 else 0

namespace Sound
variable {call : Option (Call ι)} {s after : State ι}

/-- The current thread waits for no semaphore. -/
theorem settle (sound : Sound call s) (awake : ∀ x, s.current ∉ (s.sema x).queueWait) {other : Option (Call ι)} :
    Sound other s :=
  { sound with leaving := fun x member => absurd member (awake x) }

theorem awake (sound : Sound none s) (x : ι) :
    s.current ∉ (s.sema x).queueWait := fun member => nomatch sound.leaving x member

/-- Neither the queues nor a thread in one of them are different. -/
theorem keep (sound : Sound call s) (threads : after.thread = s.thread) (current : after.current = s.current)
    (ready : after.ready = s.ready) (waits : ∀ x, (after.sema x).queueWait = (s.sema x).queueWait)
    (created : after.created = s.created) : Sound call after := by
  constructor <;> simp only [threads, current, ready, waits, created]
  · exact sound.distinct
  · exact sound.running
  · exact sound.parked
  · exact sound.waiting
  · exact sound.lined
  · exact sound.inside
  · exact sound.leaving
  · exact sound.currentKnown
  · exact sound.readyKnown
  · exact sound.waitingKnown

theorem setState (sound : Sound call s) (state : Status) : Sound call (s.setState s.current state) := by
  refine { sound with parked := fun t member => ?_, inside := fun x t member other => ?_ }
  · have apart : t ≠ s.current := by
      rintro rfl
      exact sound.running member
    simp only [State.setState, Function.update_of_ne apart]
    exact sound.parked t member
  · have apart : t ≠ s.current := other
    simp only [State.setState, Function.update_of_ne apart]
    exact sound.inside x t member apart

/-- The new thread is in no queue yet. -/
theorem create (sound : Sound none s) (exited : List ThreadId) : Sound (some .threadCreate)
    { s with
      exited
      created := s.created + 1
      thread := Function.update s.thread (s.created + 1) { base := .top, state := .ready }
      ready := s.ready ++ [s.created + 1] } := by
  have fresh : s.created + 1 ∉ s.ready := fun member => Nat.not_succ_le_self _ (sound.readyKnown _ member)
  have kept : ∀ t, t ≤ s.created → Function.update s.thread (s.created + 1) { base := .top, state := .ready } t =
      s.thread t :=
    fun t known => Function.update_of_ne (Nat.ne_of_lt (Nat.lt_succ_of_le known)) _ _
  have members : ∀ t, t ∈ s.ready ++ [s.created + 1] ↔ t ∈ s.ready ∨ t = s.created + 1 := by
    intro t
    rw [List.mem_append, List.mem_singleton]
  refine ⟨?_, ?_, ?_, ?_, sound.lined, ?_, ?_, ?_, ?_, ?_⟩
  · exact List.nodup_append.mpr ⟨sound.distinct, List.nodup_singleton _, fun a inside b last same =>
      fresh (List.mem_singleton.mp last ▸ same ▸ inside)⟩
  · intro member
    rcases (members _).mp member with inside | same
    · exact sound.running inside
    · exact Nat.not_succ_le_self s.created (same.symm.trans_le sound.currentKnown)
  · intro t member
    rcases (members t).mp member with inside | rfl
    · dsimp only
      rw [kept t (sound.readyKnown t inside)]
      exact sound.parked t inside
    · simp only [Function.update_self]
      exact .inl ⟨rfl, rfl⟩
  · intro x t waits member
    rcases (members t).mp member with inside | rfl
    · exact sound.waiting x t waits inside
    · exact Nat.not_succ_le_self _ (sound.waitingKnown x _ waits)
  · intro x t waits other
    dsimp only
    rw [kept t (sound.waitingKnown x t waits)]
    exact sound.inside x t waits other
  · exact fun x member => absurd member (sound.awake x)
  · exact Nat.le_succ_of_le sound.currentKnown
  · intro t member
    rcases (members t).mp member with inside | rfl
    · exact Nat.le_succ_of_le (sound.readyKnown t inside)
    · exact Nat.le_refl _
  · exact fun x t waits => Nat.le_succ_of_le (sound.waitingKnown x t waits)

variable [DecidableEq ι]

private theorem queueWait_setSema (s : State ι) (x y : ι) (value : Sema) :
    ((s.setSema x value).sema y).queueWait = if y = x then value.queueWait else (s.sema y).queueWait := by
  simp only [State.setSema, Function.update_apply]
  split <;> rfl

/-- The current thread joins the queue of a semaphore. -/
theorem block (sound : Sound none s) (x : ι) :
    Sound (some (.semaDec x)) (s.setSema x { s.sema x with queueWait := (s.sema x).queueWait ++ [s.current] }) := by
  have members : ∀ y t, t ∈ ((s.setSema x { s.sema x with queueWait := (s.sema x).queueWait ++ [s.current] }).sema
    y).queueWait →
      t ∈ (s.sema y).queueWait ∨ t = s.current ∧ y = x := by
    intro y t member
    rw [queueWait_setSema] at member
    split at member
    · rename_i same
      rcases List.mem_append.mp member with inside | last
      · exact .inl (same ▸ inside)
      · exact .inr ⟨List.mem_singleton.mp last, same⟩
    · exact .inl member
  refine { sound with waiting := ?_, lined := ?_, inside := ?_, leaving := ?_, waitingKnown := ?_ }
  · intro y t member
    rcases members y t member with old | ⟨rfl, _⟩
    · exact sound.waiting y t old
    · exact sound.running
  · intro y
    rw [queueWait_setSema]
    split
    · exact List.nodup_append.mpr ⟨sound.lined x, List.nodup_singleton _, fun a inside b last same =>
        sound.awake x (List.mem_singleton.mp last ▸ same ▸ inside)⟩
    · exact sound.lined y
  · intro y t member other
    rcases members y t member with old | ⟨same, _⟩
    · exact sound.inside y t old other
    · exact absurd same other
  · intro y member
    rcases members y s.current member with old | ⟨_, rfl⟩
    · exact absurd old (sound.awake y)
    · rfl
  · intro y t member
    rcases members y t member with old | ⟨rfl, _⟩
    · exact sound.waitingKnown y t old
    · exact sound.currentKnown

/-- The first thread in the queue of a semaphore becomes ready. -/
theorem release (sound : Sound none s) {x : ι} {t : ThreadId} {rest : List ThreadId}
    (queue : (s.sema x).queueWait = t :: rest) :
    Sound none (((s.setSema x { s.sema x with queueWait := rest }).setState t .stopped).queueAdd t) := by
  have distinct := sound.lined x
  rw [queue] at distinct
  obtain ⟨fresh, restDistinct⟩ := List.nodup_cons.mp distinct
  have waits : t ∈ (s.sema x).queueWait := by
    rw [queue]
    exact List.mem_cons_self
  have apart : t ≠ s.current := by
    rintro rfl
    exact sound.awake x waits
  have base := sound.inside x t waits apart
  have members : ∀ y u, u ∈ ((s.setSema x { s.sema x with queueWait := rest }).sema y).queueWait →
      u ∈ (s.sema y).queueWait ∧ u ≠ t := by
    intro y u member
    rw [queueWait_setSema] at member
    split at member
    · rename_i same
      subst same
      rw [queue]
      exact ⟨List.mem_cons_of_mem t member, fun same => fresh (same ▸ member)⟩
    · rename_i other
      refine ⟨member, ?_⟩
      rintro rfl
      have both := sound.inside y u member apart
      rw [base] at both
      cases both
      exact other rfl
  have kept : ∀ u, u ≠ t →
      (((s.setSema x { s.sema x with queueWait := rest }).setState t .stopped).queueAdd t).thread u = s.thread u :=
    fun u other => Function.update_of_ne other _ _
  refine ⟨?_, ?_, ?_, ?_, ?_, ?_, ?_, ?_, ?_, ?_⟩
  · exact List.nodup_append.mpr ⟨sound.distinct, List.nodup_singleton _, fun a inside b last same =>
      sound.waiting x t waits (List.mem_singleton.mp last ▸ same ▸ inside)⟩
  · intro member
    rcases List.mem_append.mp member with inside | last
    · exact sound.running inside
    · exact apart (List.mem_singleton.mp last).symm
  · intro u member
    by_cases same : u = t
    · subst same
      refine .inr ⟨?_, .semaDec x, nofun, ?_⟩
      · simp [State.queueAdd, State.setState]
      · simpa [State.queueAdd, State.setState, State.setSema] using base
    · rw [kept u same]
      rcases List.mem_append.mp member with inside | last
      · exact sound.parked u inside
      · exact absurd (List.mem_singleton.mp last) same
  · intro y u member ready
    obtain ⟨old, other⟩ := members y u member
    rcases List.mem_append.mp ready with inside | last
    · exact sound.waiting y u old inside
    · exact other (List.mem_singleton.mp last)
  · intro y
    change ((s.setSema x { s.sema x with queueWait := rest }).sema y).queueWait.Nodup
    rw [queueWait_setSema]
    split
    · exact restDistinct
    · exact sound.lined y
  · intro y u member away
    obtain ⟨old, other⟩ := members y u member
    rw [kept u other]
    exact sound.inside y u old away
  · intro y member
    exact absurd (members y _ member).1 (sound.awake y)
  · exact sound.currentKnown
  · intro u member
    rcases List.mem_append.mp member with inside | last
    · exact sound.readyKnown u inside
    · rw [List.mem_singleton.mp last]
      exact sound.waitingKnown x t waits
  · exact fun y u member => sound.waitingKnown y u (members y u member).1

end Sound

section Head
variable {call : Option (Call ι)} {t : ThreadId} {rest : List ThreadId} {s : State ι}

private theorem rest_ready (queue : s.ready = t :: rest) {other : ThreadId} (member : other ∈ rest) :
    other ∈ s.ready := by
  rw [queue]
  exact List.mem_cons_of_mem t member

theorem head_ready (queue : s.ready = t :: rest) : t ∈ s.ready := by
  rw [queue]
  exact List.mem_cons_self

theorem Sound.current_ne (sound : Sound call s) (queue : s.ready = t :: rest) : s.current ≠ t := by
  intro same
  apply sound.running
  rw [same]
  exact head_ready queue

theorem Sound.head_free (sound : Sound call s) (queue : s.ready = t :: rest) {x : ι} : t ∉ (s.sema x).queueWait :=
  fun member => sound.waiting x t member (head_ready queue)

end Head

structure Handed (call : Call ι) (t : ThreadId) (rest : List ThreadId) (before after : State ι) : Prop where
  ready : after.ready = rest ∨ after.ready = rest ++ [before.current] ∧ (after.thread before.current).state = .stopped ∧
    call ≠ .exit ∧ ∀ x, call ≠ .semaDec x
  current : after.current = t
  threads : ∀ other, other ≠ before.current → other ≠ t → after.thread other = before.thread other
  base : (after.thread before.current).base = .inside call
  sema : after.sema = before.sema
  created : after.created = before.created

namespace Handed
variable {call : Call ι} {t : ThreadId} {rest : List ThreadId} {before after : State ι}

private theorem mem_ready (handed : Handed call t rest before after) {other : ThreadId} (member : other ∈ after.ready) :
    other ∈ rest ∨ other = before.current ∧ after.ready = rest ++ [before.current] := by
  rcases handed.ready with same | ⟨added, _⟩
  · exact .inl (same ▸ member)
  · rw [added] at member
    rcases List.mem_append.mp member with inside | last
    · exact .inl inside
    · exact .inr ⟨List.mem_singleton.mp last, added⟩

/-- A requeued thread is in no queue of a semaphore. -/
private theorem requeued (handed : Handed call t rest before after) (sound : Sound (some call) before) {x : ι}
    (added : after.ready = rest ++ [before.current]) : before.current ∉ (before.sema x).queueWait := by
  intro member
  have called := Option.some.inj (sound.leaving x member)
  rcases handed.ready with same | ⟨_, _, _, other⟩
  · have lengths := congrArg List.length (same.symm.trans added)
    simp at lengths
  · exact other x called

variable (handed : Handed call t rest before after) (sound : Sound (some call) before)
    (queue : before.ready = t :: rest)
include handed sound queue

private theorem rest_thread {other : ThreadId} (member : other ∈ rest) : after.thread other = before.thread other := by
  apply handed.threads
  · rintro rfl
    exact sound.running (rest_ready queue member)
  · rintro rfl
    have distinct := sound.distinct
    rw [queue] at distinct
    exact (List.nodup_cons.mp distinct).1 member

theorem sound_after : Sound none after := by
  have distinct := sound.distinct
  rw [queue] at distinct
  obtain ⟨fresh, restDistinct⟩ := List.nodup_cons.mp distinct
  have noLoss : before.current ∉ rest := fun member => sound.running (rest_ready queue member)
  refine ⟨?_, ?_, ?_, ?_, ?_, ?_, ?_, ?_, ?_, ?_⟩
  · rcases handed.ready with same | ⟨added, _⟩
    · rw [same]
      exact restDistinct
    · rw [added]
      exact List.nodup_append.mpr ⟨restDistinct, List.nodup_singleton _, fun a inside b last same =>
        noLoss (List.mem_singleton.mp last ▸ same ▸ inside)⟩
  · rw [handed.current]
    intro member
    rcases mem_ready handed member with inside | ⟨same, _⟩
    · exact fresh inside
    · exact sound.current_ne queue same.symm
  · intro other member
    rcases mem_ready handed member with inside | ⟨rfl, added⟩
    · rw [rest_thread handed sound queue inside]
      exact sound.parked other (rest_ready queue inside)
    · rcases handed.ready with same | ⟨_, stopped, returns, _⟩
      · rw [same] at member
        exact absurd member noLoss
      · exact .inr ⟨stopped, call, returns, handed.base⟩
  · intro x other waits member
    rw [handed.sema] at waits
    rcases mem_ready handed member with inside | ⟨rfl, added⟩
    · exact sound.waiting x other waits (rest_ready queue inside)
    · exact requeued handed sound added waits
  · rw [handed.sema]
    exact sound.lined
  · intro x other waits _
    rw [handed.sema] at waits
    by_cases same : other = before.current
    · rw [same, handed.base, Option.some.inj (sound.leaving x (same ▸ waits))]
    · rw [handed.threads other same]
      · exact sound.inside x other waits same
      · rintro rfl
        exact sound.head_free queue waits
  · intro x waits
    rw [handed.sema, handed.current] at waits
    exact (sound.head_free queue waits).elim
  · rw [handed.current, handed.created]
    exact sound.readyKnown t (head_ready queue)
  · intro other member
    rw [handed.created]
    rcases mem_ready handed member with inside | ⟨rfl, _⟩
    · exact sound.readyKnown other (rest_ready queue inside)
    · exact sound.currentKnown
  · intro x other waits
    rw [handed.sema] at waits
    rw [handed.created]
    exact sound.waitingKnown x other waits

/-- What the ready queue owes is what it owed without the thread that has the CPU now. -/
theorem credit_after [DecidableEq ι] (x : ι) :
    credit x after + (if (before.thread t).released x then 1 else 0) = credit x before := by
  have kept : rest.countP (fun other => (after.thread other).released x) = rest.countP
      fun other => (before.thread other).released x :=
    List.countP_congr fun other member => by rw [rest_thread handed sound queue member]
  unfold credit
  rw [queue, List.countP_cons, handed.sema]
  rcases handed.ready with same | ⟨added, _, _, other⟩
  · rw [same, kept]
    omega
  · have free : (after.thread before.current).released x = false := by
      unfold Thread.released
      rw [handed.base]
      cases call with
      | semaDec y => exact absurd rfl (other y)
      | threadYield => rfl
      | threadCreate => rfl
      | semaInc y => rfl
      | exit => rfl
    rw [added, List.countP_append, kept, List.countP_singleton, free]
    simp only [Bool.false_eq_true, ite_false]
    omega

end Handed

end Egos.Threads
