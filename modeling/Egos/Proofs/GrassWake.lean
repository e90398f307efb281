import Egos.Library.Ensures
import Egos.Proofs.GrassMail

/-! Messages and wake-ups keep the kernel sound. Each function that wakes a process
is run to the state it leaves, and the invariant is proved of that state. -/

namespace Egos.Grass
open Library Library.Prog

/-- `gone` is the pid of a server that is dying: its clients still wait for it. -/
structure Sound (off : Set Slot) (gone : Option Pid) (k : Kernel) : Prop where
  queues : Queues off k
  aside : k.procCurrent ∈ off
  blocked : ∀ p, p ∈ off → (k.procSet p).state = .waiting → p = k.procCurrent
  consistent : ∀ p, Consistent (k.procSet p)
  served : ∀ p, (k.procSet p).state = .waiting → ((k.procSet p).mboxes .reply).waiting = true →
    gone = some (k.procSet p).server ∨ ∃ s, (k.procSet s).state.live = true ∧ (k.procSet s).pid = (k.procSet p).server
  alive : k.current.state ≠ .free

/-- What may happen to the processes while one of them has the kernel. -/
structure Evolves (allowed : ProcState → ProcState → Prop) (before after : Kernel) : Prop where
  current : after.procCurrent = before.procCurrent
  pid : ∀ p, (after.procSet p).pid = (before.procSet p).pid
  call : ∀ p, (after.procSet p).call = (before.procSet p).call
  state : ∀ p, allowed (before.procSet p).state (after.procSet p).state

def Wakes (before after : ProcState) : Prop :=
  after = before ∨ before = .waiting ∧ after = .runnable

def Fates (before after : ProcState) : Prop :=
  Wakes before after ∨ after = .zombie ∨ after = .free

theorem Wakes.live {before after : ProcState} (wakes : Wakes before after) : after.live = before.live := by
  rcases wakes with rfl | ⟨rfl, rfl⟩
  · rfl
  · rfl

theorem Wakes.runnable {before after : ProcState} (wakes : Wakes before after) (runs : before = .runnable) :
    after = .runnable := by
  rcases wakes with rfl | ⟨rfl, rfl⟩
  · exact runs
  · rfl

/-- The ghost record decides nothing. -/
theorem Sound.record {off : Set Slot} {gone : Option Pid} {k : Kernel} (sound : Sound off gone k) (life : Life) :
    Sound off gone (k.record life) :=
  ⟨{ sound.queues with }, sound.aside, sound.blocked, sound.consistent, sound.served, sound.alive⟩

namespace Evolves
variable {first middle last : Kernel}

theorem record {allowed : ProcState → ProcState → Prop} (evolves : Evolves allowed first last) (life : Life) :
    Evolves allowed first (last.record life) := ⟨evolves.current, evolves.pid, evolves.call, evolves.state⟩

theorem refl {allowed : ProcState → ProcState → Prop} (same : ∀ s, allowed s s) (k : Kernel) : Evolves allowed k k :=
  ⟨rfl, fun _ => rfl, fun _ => rfl, fun _ => same _⟩

theorem trans {allowed : ProcState → ProcState → Prop} (compose : ∀ a b c, allowed a b → allowed b c → allowed a c)
    (left : Evolves allowed first middle) (right : Evolves allowed middle last) : Evolves allowed first last :=
  ⟨right.current.trans left.current, fun p => (right.pid p).trans (left.pid p),
    fun p => (right.call p).trans (left.call p), fun p => compose _ _ _ (left.state p) (right.state p)⟩

theorem mono {allowed more : ProcState → ProcState → Prop} (implies : ∀ a b, allowed a b → more a b)
    (evolves : Evolves allowed first last) : Evolves more first last :=
  ⟨evolves.current, evolves.pid, evolves.call, fun p => implies _ _ (evolves.state p)⟩

theorem wakes_refl (k : Kernel) : Evolves Wakes k k := refl (fun _ => .inl rfl) k

theorem wakes_trans (left : Evolves Wakes first middle) (right : Evolves Wakes middle last) :
    Evolves Wakes first last := by
  apply trans _ left right
  rintro a b c (rfl | ⟨rfl, rfl⟩) again
  · exact again
  · exact .inr ⟨rfl, again.runnable rfl⟩

theorem fates_refl (k : Kernel) : Evolves Fates k k := refl (fun _ => .inl (.inl rfl)) k

theorem fates_trans (left : Evolves Fates first middle) (right : Evolves Fates middle last) :
    Evolves Fates first last := by
  apply trans _ left right
  rintro a b c (once | dead) (again | later)
  · rcases once with rfl | ⟨rfl, rfl⟩
    · exact .inl again
    · exact .inl (.inr ⟨rfl, again.runnable rfl⟩)
  · exact .inr later
  · rcases dead with rfl | rfl
    · rcases again with rfl | ⟨waiting, _⟩
      · exact .inr (.inl rfl)
      · cases waiting
    · rcases again with rfl | ⟨waiting, _⟩
      · exact .inr (.inr rfl)
      · cases waiting
  · exact .inr later

theorem fates (evolves : Evolves Wakes first last) : Evolves Fates first last :=
  evolves.mono fun _ _ wakes => .inl wakes

end Evolves

def never : Halt → Prop := fun _ => False

theorem ensure_spec {condition : Bool} {function text : String} {k : Kernel} {next : Unit → Kern α}
    {post : α → Kernel → Prop}
    {stops : Halt → Prop} (holds : condition = true) (rest : Ensures stops (next ()) k post) :
    Ensures stops (ensure condition function text >>= next) k post := by
  subst holds
  exact rest

theorem ensure_last {condition : Bool} {function text : String} {k : Kernel} {post : Unit → Kernel → Prop}
    {stops : Halt → Prop} (holds : condition = true) (rest : post () k) :
    Ensures stops (ensure condition function text) k post := by
  subst holds
  exact rest

/-! Loops over the process table. -/

theorem forSlots_spec {stops : Halt → Prop} {body : Slot → Kern Unit} {holds : Kernel → Prop}
    (each : ∀ p k, holds k → Ensures stops (body p) k fun _ after => holds after) (slots : List Slot) {k : Kernel}
    (start : holds k) : Ensures stops (forSlots body slots) k fun _ after => holds after := by
  induction slots generalizing k with
  | nil => exact start
  | cons p rest ih => exact Ensures.bind (each p k start) fun _ _ kept => ih kept

/-- The loop brings about, for every slot, what its body does for one, as long as
the later rounds leave it alone. -/
theorem forSlots_each {stops : Halt → Prop} {body : Slot → Kern Unit} {holds : Kernel → Prop}
    {done : Slot → Kernel → Prop}
    (each : ∀ p k, holds k → Ensures stops (body p) k fun _ after => holds after ∧ done p after ∧
    ∀ q, done q k → done q after)
    (slots : List Slot) {k : Kernel} (start : holds k) :
    Ensures stops (forSlots body slots) k fun _ after =>
      holds after ∧ (∀ p, p ∈ slots → done p after) ∧ ∀ q, done q k → done q after := by
  induction slots generalizing k with
  | nil => exact ⟨start, by simp, fun _ held => held⟩
  | cons p rest ih =>
    apply Ensures.bind (each p k start)
    rintro _ middle ⟨kept, here, stays⟩
    apply (ih kept).weaken
    rintro _ after ⟨last, others, later⟩
    refine ⟨last, ?_, fun q held => later q (stays q held)⟩
    intro q member
    rcases List.mem_cons.mp member with rfl | inside
    · exact later q here
    · exact others q inside

theorem mem_procSlots (p : Slot) : p ∈ procSlots := List.mem_finRange p

namespace Kernel

theorem procFind_some {k : Kernel} {pid : Pid} {p : Slot} (found : k.procFind pid = some p) :
    (k.procSet p).state ≠ .free ∧ (k.procSet p).pid = pid := by
  have passes := List.find?_some found
  simp only [Bool.and_eq_true, decide_eq_true_eq, beq_iff_eq] at passes
  exact passes

/-- `p`, which waited, has the given record and stands on its run queue unless it
is the current process. -/
def woken (k : Kernel) (p : Slot) (record : Process) : Kernel :=
  { k.put p record with
    procNrunnable := k.procNrunnable + 1
    mtlQueue := if p = k.procCurrent then k.mtlQueue else pushed k.mtlQueue record.priority p }

end Kernel

theorem Kernel.record_woken {k : Kernel} {p : Slot} {record : Process} {life : Life} :
    (k.record life).woken p record = (k.woken p record).record life := rfl

private theorem update_eq_pushed (queues : Level → List Slot) (priority : Nat)
    (inside : priority < MAX_PRIORITY) (p : Slot) :
    Function.update queues ⟨priority, inside⟩ (queues ⟨priority, inside⟩ ++ [p]) = pushed queues priority p := by
  funext level
  unfold pushed
  by_cases here : level.val = priority
  · have same : level = ⟨priority, inside⟩ := Fin.ext here
    subst same
    rw [Function.update_self, if_pos rfl]
  · rw [if_neg here, Function.update_of_ne fun same => here (congrArg Fin.val same)]

theorem queueAdd_run {k : Kernel} {p : Slot} (priority : (k.procSet p).priority < MAX_PRIORITY) :
    queueAdd p k = .done () { k with mtlQueue := pushed k.mtlQueue (k.procSet p).priority p } := by
  unfold queueAdd
  rw [dif_pos priority, ← update_eq_pushed _ _ priority]

theorem procToRunqueue_run {k : Kernel} {p : Slot} (runnable : (k.procSet p).state = .runnable)
    (priority : (k.procSet p).priority < MAX_PRIORITY) :
    procToRunqueue p k = .done () { k with mtlQueue := pushed k.mtlQueue (k.procSet p).priority p } := by
  unfold procToRunqueue
  rw [Prog.bind_done (get_run k)]
  simp only [runnable, decide_true, ensure]
  exact queueAdd_run priority

theorem makeRunnable_run {k : Kernel} {p : Slot} :
    makeRunnable p k = .done () { k.put p { k.procSet p with state := .runnable, alarmSet := false } with
    procNrunnable := k.procNrunnable + 1 } := by
  unfold makeRunnable Grass.setProc
  simp only [bind, modify_run, Kernel.setProc, Kernel.put, Function.update_self, Function.update_idem]

theorem wakeReceiver_run {k : Kernel} {dst : Slot} {mtype : MsgType} (waiting : (k.procSet dst).state = .waiting)
    (priority : (k.procSet dst).priority < MAX_PRIORITY) :
    wakeReceiver dst mtype k = .done () (k.woken dst
      ({ k.procSet dst with state := .runnable, alarmSet := false }.setMbox mtype
          fun mq => { mq with waiting := false })) := by
  unfold wakeReceiver
  rw [Prog.bind_done (get_run k)]
  simp only [waiting, decide_true, ensure]
  rw [Prog.bind_done (pure_run () k), Prog.bind_done makeRunnable_run]
  unfold Kernel.woken
  by_cases self : dst = k.procCurrent
  · simp only [self, ne_eq, not_true_eq_false, decide_false, when, if_true]
    rw [Prog.bind_done (pure_run () _)]
    simp only [Grass.setProc, modify_run, Kernel.setProc, Kernel.put, Function.update_self, Function.update_idem]
  · simp only [self, ne_eq, not_false_eq_true, decide_true, when, if_false]
    rw [Prog.bind_done (procToRunqueue_run (by simp) (by simpa using priority))]
    simp only [Grass.setProc, modify_run, Kernel.setProc, Kernel.put, Function.update_self, Function.update_idem]
    rfl

def Process.wokenUp (p : Process) (current : Bool) : Process :=
  { p with
    state := .runnable
    alarmSet := false
    priority := if current then p.priority else improvedPriority p.priority
    mboxes := fun mtype => { p.mboxes mtype with waiting := false } }

theorem improvedPriority_lt {priority : Nat} (inside : priority < MAX_PRIORITY) :
    improvedPriority priority < MAX_PRIORITY := by
  unfold improvedPriority
  split <;> omega

theorem requeue_run {k : Kernel} {p : Slot} (runnable : (k.procSet p).state = .runnable)
    (priority : (k.procSet p).priority < MAX_PRIORITY) : requeue p k = .done () {
      k.put p { k.procSet p with priority := improvedPriority (k.procSet p).priority } with
      mtlQueue := pushed k.mtlQueue (improvedPriority (k.procSet p).priority) p } := by
  unfold requeue Grass.setProc
  rw [Prog.bind_done (modify_run _ k)]
  unfold Kernel.setProc
  rw [procToRunqueue_run]
  · simp only [Kernel.put_self]
    rfl
  · simp only [Kernel.put_self, runnable]
  · simp only [Kernel.put_self]
    exact improvedPriority_lt priority

theorem procWakeup_run {k : Kernel} {p : Slot} (waiting : (k.procSet p).state = .waiting)
    (priority : (k.procSet p).priority < MAX_PRIORITY) :
    procWakeup p k = .done () (k.woken p ((k.procSet p).wokenUp (p = k.procCurrent))) := by
  unfold procWakeup
  rw [Prog.bind_done (get_run k)]
  simp only [waiting, decide_true, ensure]
  rw [Prog.bind_done (pure_run () k), Prog.bind_done makeRunnable_run]
  unfold Kernel.woken Process.wokenUp
  by_cases self : p = k.procCurrent
  · simp only [self, ne_eq, not_true_eq_false, decide_false, decide_true, when, if_true]
    rw [Prog.bind_done (pure_run () _)]
    simp only [Grass.setProc, modify_run, Kernel.setProc, Kernel.put, Function.update_self, Function.update_idem]
  · simp only [self, ne_eq, not_false_eq_true, decide_true, decide_false, when, if_false, Bool.false_eq_true]
    rw [Prog.bind_done (requeue_run (by simp) (by simpa using priority))]
    simp only [Grass.setProc, modify_run, Kernel.setProc, Kernel.put, Function.update_self, Function.update_idem]

namespace Sound
variable {off : Set Slot} {gone : Option Pid} {k after : Kernel} {p : Slot} {record : Process}

theorem priority (sound : Sound off gone k) (p : Slot) : (k.procSet p).priority < MAX_PRIORITY :=
  sound.queues.priority p

private theorem queues_woken (sound : Sound off gone k) (waiting : (k.procSet p).state = .waiting)
    (runnable : record.state = .runnable) (priority : record.priority < MAX_PRIORITY) :
    Queues off (k.woken p record) := by
  have aside : Queues (insert p off) k := by
    apply sound.queues.reoff
    intro q ready
    have other : q ≠ p := by
      rintro rfl
      rw [waiting] at ready
      cases ready
    exact Set.mem_insert_iff.trans (or_iff_right other)
  have use : record.state = .free ↔ (k.procSet p).state = .free := by rw [runnable, waiting]; simp
  have counts : k.procNrunnable + 1 = k.procNrunnable - weight isRunnable (k.procSet p) + weight isRunnable record := by
    simp [weight, isRunnable, runnable, waiting]
  by_cases self : p = k.procCurrent
  · have same : insert p off = off := Set.insert_eq_of_mem (self ▸ sound.aside)
    have kept : Queues (insert p off) (k.woken p record) :=
      aside.replace rfl (.inl (Set.mem_insert p off)) priority use (if_pos self) rfl rfl counts
    rw [same] at kept
    exact kept
  · have outside : p ∉ off := fun inside => self (sound.blocked p inside waiting)
    have same : insert p off \ {p} = off := Set.insert_sdiff_self_of_notMem outside
    let middle : Kernel :=
      { k.put p record with procNrunnable := k.procNrunnable + 1 }
    have entry : middle.procSet p = record := Kernel.put_self
    have moved : Queues (insert p off) middle :=
      aside.replace rfl (.inl (Set.mem_insert p off)) priority use rfl rfl rfl counts
    have ready : (middle.procSet p).state.queued = true := by rw [entry, runnable]; rfl
    have last : (k.woken p record).mtlQueue = pushed middle.mtlQueue (middle.procSet p).priority p := by
      rw [entry]
      exact if_neg self
    have kept : Queues (insert p off \ {p}) (k.woken p record) :=
      moved.push (Set.mem_insert p off) ready rfl last rfl rfl rfl
    rw [same] at kept
    exact kept

theorem woken (sound : Sound off gone k) (waiting : (k.procSet p).state = .waiting)
    (runnable : record.state = .runnable)
    (priority : record.priority < MAX_PRIORITY) (consistent : Consistent record)
    (pid : record.pid = (k.procSet p).pid) :
    Sound off gone (k.woken p record) := by
  have here : (k.woken p record).procSet p = record := Kernel.put_self
  have others : ∀ q, q ≠ p → (k.woken p record).procSet q = k.procSet q := fun q other => Kernel.put_of_ne other
  refine ⟨sound.queues_woken waiting runnable priority, sound.aside, ?_, ?_, ?_, ?_⟩
  · intro q inside blocked
    by_cases same : q = p
    · subst same; rw [here, runnable] at blocked; cases blocked
    · rw [others q same] at blocked; exact sound.blocked q inside blocked
  · intro q
    by_cases same : q = p
    · subst same; rw [here]; exact consistent
    · rw [others q same]; exact sound.consistent q
  · intro q blocked waits
    by_cases same : q = p
    · subst same; rw [here, runnable] at blocked; cases blocked
    · rw [others q same] at blocked waits ⊢
      rcases sound.served q blocked waits with dying | ⟨s, live, named⟩
      · exact .inl dying
      · refine .inr ⟨s, ?_⟩
        by_cases server : s = p
        · subst server; rw [here, runnable]; exact ⟨rfl, pid.trans named⟩
        · rw [others s server]; exact ⟨live, named⟩
  · unfold Kernel.current
    by_cases same : k.procCurrent = p
    · rw [show (k.woken p record).procCurrent = p from same, here, runnable]; exact nofun
    · exact (others _ same).symm ▸ sound.alive

end Sound

/-- One record is replaced by one that has the same name and the same call. -/
theorem Evolves.put {allowed : ProcState → ProcState → Prop} {k after : Kernel} {p : Slot} {record : Process}
    (same : ∀ s, allowed s s) (set : after.procSet = (k.put p record).procSet)
    (current : after.procCurrent = k.procCurrent)
    (pid : record.pid = (k.procSet p).pid) (call : record.call = (k.procSet p).call)
    (state : allowed (k.procSet p).state record.state) : Evolves allowed k after := by
  refine ⟨current, ?_, ?_, ?_⟩
  · rw [set]
    exact Kernel.put_cases (fun q entry => entry.pid = (k.procSet q).pid) pid fun _ _ => rfl
  · rw [set]
    exact Kernel.put_cases (fun q entry => entry.call = (k.procSet q).call) call fun _ _ => rfl
  · rw [set]
    exact Kernel.put_cases (fun q entry => allowed (k.procSet q).state entry.state) state fun _ _ => same _

theorem Evolves.woken {k : Kernel} {p : Slot} {record : Process} (waiting : (k.procSet p).state = .waiting)
    (runnable : record.state = .runnable) (pid : record.pid = (k.procSet p).pid)
    (call : record.call = (k.procSet p).call) :
    Evolves Wakes k (k.woken p record) :=
  .put (fun _ => .inl rfl) rfl rfl pid call (.inr ⟨waiting, runnable⟩)

end Egos.Grass
