import Egos.Grass.Spawnsvr

/-! What a new process takes from the buffer of the spawn server. The flag and the executable
are those of its request; the arguments are read later, and another request may have come. -/

namespace Egos.Spawnsvr
open Library Library.Prog
open Grass (Pid Halt)
open SpawnArgs (envSize selfOffset)

def argBlock (own : List UInt8) : Memory := fun i => own.getD (requestSize + i) 0

def ownBytes (own : List UInt8) (self : Pid) : Memory :=
  let size := own.length - requestSize
  if envSize ≤ size then (argBlock own).store32 (size - envSize + selfOffset) self.toNat else argBlock own

def ownStack (own : List UInt8) (self : Pid) : List UInt8 :=
  (List.range (own.length - requestSize)).map (ownBytes own self)

structure User.Own (user : User) : Prop where
  executable : user.executable = executableAt (fun i => user.own.getD i 0) 0
  interruptable : user.interruptable = interruptableAt (fun i => user.own.getD i 0) 0
  stack : ∀ stack, user.stage = .building stack.length stack → stack = ownStack user.own user.self

def OwnStarts (s : System) : Prop := ∀ user ∈ s.users, user.Own

def User.Starting (user : User) : Prop :=
  match user.stage with
  | .reading => True
  | .building size stack => stack.length < size
  | .dead => False

/-- With a block of this size, the store of the process identifier spares the size in the
request and what is not grass_env. Below envSize it is in front of the block. -/
def Clear (size : Nat) : Prop := envSize ≤ size ∨ size ≤ 112 ∨ 120 ≤ size ∧ size ≤ 124

/-- The server writes to its buffer only while no process is starting, and the process
identifier is stored where it does no harm. -/
def Undisturbed (before : Outcome System Halt Unit) : Event → Prop
  | .receive .. | .terminate _ => ∀ user ∈ before.state.users, ¬ user.Starting
  | .header i _ => ∀ user ∈ before.state.users[i]?, Clear (user.own.length - requestSize)
  | _ => True

/-! The invariant. -/

/-- What is left of the start of a process is in the buffer. -/
def Prepared (m : Memory) (user : User) : Prop :=
  match user.stage with
  | .reading => sizeAt m req = user.own.length - requestSize ∧
      ∀ j < user.own.length - requestSize, m (req + requestSize + j) = argBlock user.own j
  | .building size stack => size = user.own.length - requestSize ∧
      stack = (List.range stack.length).map (ownBytes user.own user.self) ∧
      (stack.length < size → ∀ j < size, m (req + requestSize + j) = ownBytes user.own user.self j)
  | .dead => True

structure Fine (m : Memory) (user : User) : Prop where
  executable : user.executable = executableAt (fun i => user.own.getD i 0) 0
  interruptable : user.interruptable = interruptableAt (fun i => user.own.getD i 0) 0
  prepared : Prepared m user

structure Good (s : System) : Prop where
  fine : ∀ (i : Nat) user, s.users[i]? = some user → Fine s.memory user
  one : ∀ (i j : Nat) first second, s.users[i]? = some first → s.users[j]? = some second → first.Starting →
    second.Starting → i = j

variable {s : System} {m other : Memory} {user : User} {i size : Nat} {message : List UInt8}

theorem Fine.own (fine : Fine m user) : user.Own := by
  refine ⟨fine.executable, fine.interruptable, fun stack built => ?_⟩
  have prepared := fine.prepared
  simp only [Prepared, built] at prepared
  obtain ⟨size, bytes, -⟩ := prepared
  rw [ownStack, ← size]
  exact bytes

/-- The buffer may change once the arguments have been copied. -/
theorem Fine.keep (fine : Fine m user) (done : ¬ user.Starting) : Fine other user := by
  refine ⟨fine.executable, fine.interruptable, ?_⟩
  have prepared := fine.prepared
  unfold Prepared at prepared ⊢
  unfold User.Starting at done
  cases stage : user.stage with
  | reading => simp [stage] at done
  | building size stack =>
    simp only [stage] at prepared done ⊢
    exact ⟨prepared.1, prepared.2.1, fun left => absurd left done⟩
  | dead => trivial

/-- One process goes on, and no other process that is starting can see what changes. -/
theorem Good.set (good : Good s) {next : User} (there : s.users[i]? = some user) (fine : Fine other next)
    (starting : next.Starting → user.Starting) (unseen : other = s.memory ∨ user.Starting) :
    Good { s with memory := other, users := s.users.set i next } := by
  have inside : i < s.users.length := (List.getElem?_eq_some_iff.mp there).1
  have same {j : Nat} {found : User} (found_at : (s.users.set i next)[j]? = some found) :
      (j = i ∧ found = next) ∨ (j ≠ i ∧ s.users[j]? = some found) := by
    by_cases here : i = j
    · subst here
      rw [List.getElem?_set_self inside] at found_at
      exact .inl ⟨rfl, (Option.some.inj found_at).symm⟩
    · rw [List.getElem?_set_ne here] at found_at
      exact .inr ⟨Ne.symm here, found_at⟩
  constructor
  · intro j found found_at
    rcases same found_at with ⟨-, rfl⟩ | ⟨apart, found_at⟩
    · exact fine
    · have before := good.fine j found found_at
      rcases unseen with rfl | here
      · exact before
      · exact before.keep fun both => apart (good.one j i found user found_at there both here)
  · intro j k first second first_at second_at first_starting second_starting
    rcases same first_at with ⟨rfl, rfl⟩ | ⟨-, first_before⟩
    · rcases same second_at with ⟨rfl, rfl⟩ | ⟨-, second_before⟩
      · rfl
      · exact good.one _ _ _ _ there second_before (starting first_starting) second_starting
    · rcases same second_at with ⟨rfl, rfl⟩ | ⟨-, second_before⟩
      · exact good.one _ _ _ _ first_before there first_starting (starting second_starting)
      · exact good.one _ _ _ _ first_before second_before first_starting second_starting

/-! The server. -/

theorem Good.idle (good : Good s) (idle : ∀ user ∈ s.users, ¬ user.Starting) (other : Memory) (server : ServerAt) :
    Good { memory := other, server, users := s.users } :=
  ⟨fun i user there => (good.fine i user there).keep (idle user (List.mem_of_getElem? there)), good.one⟩

/-- A message in the buffer, word by word. -/
theorem load_message (m : Memory) {a : Nat} (inside : a + 4 ≤ message.length) :
    (m.storeBytes req message).load32 (req + a) = Memory.load32 (fun i => message.getD i 0) a := by
  have shown (i : Nat) (below : i < message.length) : m.storeBytes req message (req + i) = message.getD i 0 :=
    Memory.storeBytes_inside below
  simp only [Memory.load32, Nat.add_assoc, shown a (by omega), shown (a + 1) (by omega),
    shown (a + 2) (by omega), shown (a + 3) (by omega)]

theorem startUser_fine (m : Memory) (self : Pid) (long : requestSize ≤ message.length)
    (sized : sizeAt (m.storeBytes req message) req = message.length - requestSize) :
    Fine (m.storeBytes req message) (startUser message self (m.storeBytes req message)) := by
  unfold requestSize at long
  constructor
  · simp only [startUser, executableAt]
    rw [load_message m (by omega), load_message m (by omega)]
  · simp only [startUser, interruptableAt]
    rw [load_message m (by omega)]
  · refine ⟨sized, fun j below => ?_⟩
    have below : j < message.length - requestSize := below
    unfold requestSize at below ⊢
    rw [Nat.add_assoc]
    exact Memory.storeBytes_inside (by omega)

/-- A process is created while no other one is starting. -/
theorem Good.create (good : Good s) (idle : ∀ user ∈ s.users, ¬ user.Starting) (fine : Fine s.memory user)
    (server : ServerAt) :
    Good { s with server, users := s.users ++ [user] } := by
  have before {i : Nat} {found : User} (there : (s.users ++ [user])[i]? = some found) (starting : found.Starting) : i =
      s.users.length := by
    by_cases inside : i < s.users.length
    · rw [List.getElem?_append_left inside] at there
      exact absurd starting (idle found (List.mem_of_getElem? there))
    · have bound := (List.getElem?_eq_some_iff.mp there).1
      rw [List.length_append, List.length_singleton] at bound
      omega
  constructor
  · intro i found there
    by_cases inside : i < s.users.length
    · rw [List.getElem?_append_left inside] at there
      exact good.fine i found there
    · rw [List.getElem?_append_right (by omega)] at there
      exact List.mem_singleton.mp (List.mem_of_getElem? there) ▸ fine
  · intro i j first second first_at second_at first_starting second_starting
    rw [before first_at first_starting, before second_at second_starting]

theorem spawnProc_good (good : Good s) (idle : ∀ user ∈ s.users, ¬ user.Starting) (contents : List UInt8)
    (created : Option Pid) :
    Good (spawnProc contents created s).state := by
  have stored := good.idle idle (s.memory.storeBytes req (contents.take receiveSize)) s.server
  simp only [spawnProc]
  generalize contents.take receiveSize = message at stored
  rw [bind_done (modify_run _ s), bind_done (get_run _)]
  by_cases short : message.length < requestSize
  · rw [if_pos short]
    exact stored
  rw [if_neg short]
  by_cases exec : typeAt (s.memory.storeBytes req message) req = SPAWN_EXEC
  · rw [if_pos exec, spawnDoExec, bind_done (get_run _)]
    by_cases sized : sizeAt (s.memory.storeBytes req message) req = message.length - requestSize
    · rw [decide_eq_true sized]
      cases created with
      | none => exact stored
      | some self => exact stored.create idle (startUser_fine s.memory self (Nat.not_lt.mp short) sized) .creating
    · rw [decide_eq_false sized]
      exact stored
  · rw [if_neg exec]
    by_cases known : typeAt (s.memory.storeBytes req message) req = SPAWN_KILL ∨
      typeAt (s.memory.storeBytes req message) req = SPAWN_GETUID
    · rw [if_pos known]
      exact stored
    · rw [if_neg known]
      exact stored

/-! The processes. -/

/-- The process identifier is stored in front of the block's end, as far as grass_env is long. -/
theorem place_eq (size : Nat) : req + requestSize + size - envSize + selfOffset = size := by
  simp only [req, requestSize, envSize, selfOffset]
  omega

/-- The store of the process identifier makes the process's own bytes out of the block. -/
theorem identified {own : List UInt8} (self : Pid) (clear : Clear (own.length - requestSize))
    (block : ∀ j < own.length - requestSize, m (req + requestSize + j) = argBlock own j) :
    ∀ j < own.length - requestSize, m.store32 (own.length - requestSize) self.toNat (req + requestSize + j) =
        ownBytes own self j := by
  intro j inside
  have same := block j inside
  unfold ownBytes
  generalize own.length - requestSize = size at clear inside ⊢
  by_cases long : envSize ≤ size
  · have place : size = req + requestSize + (size - envSize + selfOffset) := by
      rw [← place_eq size]
      simp only [req, requestSize, envSize, selfOffset] at long ⊢
      omega
    rw [if_pos long]
    nth_rewrite 1 [place]
    rw [Memory.store32_offset]
    simp only [Memory.store32, same]
  · have outside : req + requestSize + j < size ∨ size + 4 ≤ req + requestSize + j := by
      simp only [Clear, req, requestSize, envSize] at clear long ⊢
      omega
    rw [if_neg long, Memory.store32_outside outside, same]

theorem headerRead_good (good : Good s) (there : s.users[i]? = some user) (reading : user.stage = .reading)
    (clear : Clear (user.own.length - requestSize)) (result : Option Nat) :
    Good (headerRead i user result s).state := by
  cases result with
  | none => exact good
  | some read =>
    simp only [headerRead]
    by_cases wrong : read ≠ headerSize
    · rw [if_pos wrong]
      exact good
    rw [if_neg wrong]
    have fine := good.fine i user there
    have prepared := fine.prepared
    simp only [Prepared, reading] at prepared
    obtain ⟨sized, block⟩ := prepared
    have place : req + requestSize + sizeAt s.memory req - envSize + selfOffset = user.own.length - requestSize := by
      rw [place_eq, sized]
    have kept : sizeAt (s.memory.store32 (user.own.length - requestSize) user.self.toNat) req =
        user.own.length - requestSize := by
      refine (Memory.load32_store32_apart ?_).trans sized
      unfold Clear at clear
      simp only [req, requestSize, envSize] at clear ⊢
      omega
    have starting : user.Starting := by simp only [User.Starting, reading]
    rw [bind_done (modify_run _ s), modify_run, place]
    refine good.set there ⟨fine.executable, fine.interruptable, ?_⟩ (fun _ => starting) (.inr starting)
    exact ⟨kept, rfl, fun _ j inside => identified user.self clear block j (Nat.lt_of_lt_of_eq inside kept)⟩

theorem copyByte_good {stack : List UInt8} (good : Good s) (there : s.users[i]? = some user)
    (building : user.stage = .building size stack)
    (more : stack.length < size) : Good (copyByte i user size stack s).state := by
  have fine := good.fine i user there
  have prepared := fine.prepared
  simp only [Prepared, building] at prepared
  obtain ⟨sized, copied, block⟩ := prepared
  have starting : user.Starting := by simpa only [User.Starting, building] using more
  refine good.set there ⟨fine.executable, fine.interruptable, ?_⟩ (fun _ => starting) (.inl rfl)
  refine ⟨sized, ?_, fun _ => block more⟩
  have next := block more stack.length more
  rw [next, List.length_append, List.length_singleton, List.range_succ, List.map_append, ← copied]
  rfl

theorem Step.good {before after : Outcome System Halt Unit} {event : Event} (good : Good before.state)
    (step : Guarded Undisturbed Step before event after) : Good after.state := by
  obtain ⟨undisturbed, step⟩ := step
  cases step with
  | receive receiving => exact spawnProc_good good undisturbed _ _
  | resume creating => exact ⟨good.fine, good.one⟩
  | terminate receiving => exact good.idle undisturbed _ _
  | header there reading => exact headerRead_good good there reading (undisturbed _ there) _
  | copy there building more => exact copyByte_good good there building more
  | die there =>
    exact good.set there ⟨(good.fine _ _ there).executable, (good.fine _ _ there).interruptable,
      trivial⟩ False.elim (.inl rfl)

theorem own_starts {memory : Memory} {events : List Event} {after : Outcome System Halt Unit}
    (run : Run (Guarded Undisturbed Step) (started memory) events after) : OwnStarts after.state := by
  have none : Good (started memory).state :=
    ⟨fun i user there => by simp [started, Outcome.state] at there, fun i j first second there => by
    simp [started, Outcome.state] at there⟩
  have good : Good after.state := run.invariant (fun _ _ _ good step => Step.good good step) none
  intro user member
  obtain ⟨i, there⟩ := List.mem_iff_getElem?.mp member
  exact (good.fine i user there).own

/-! Runs that can be computed. -/

instance (user : User) : Decidable user.Starting := by
  unfold User.Starting
  cases user.stage <;> infer_instance

instance (size : Nat) : Decidable (Clear size) := inferInstanceAs (Decidable (_ ∨ _))

instance (before : Outcome System Halt Unit) (event : Event) : Decidable (Undisturbed before event) := by
  cases event <;> unfold Undisturbed <;> infer_instance

def System.take (s : System) : Event → Option (Outcome System Halt Unit)
  | .receive contents created =>
    match s.server with
    | .receiving => some (spawnProc contents created s)
    | _ => none
  | .resume =>
    match s.server with
    | .creating => some (.done () { s with server := .receiving })
    | _ => none
  | .terminate freed =>
    match s.server with
    | .receiving => some (.done () { s with memory := freed, server := .terminated })
    | _ => none
  | .header i result => do
    let user ← s.users[i]?
    match user.stage with
    | .reading => some (headerRead i user result s)
    | _ => none
  | .copy i => do
    let user ← s.users[i]?
    match user.stage with
    | .building size stack => if stack.length < size then some (copyByte i user size stack s) else none
    | _ => none
  | .die i => do
    let user ← s.users[i]?
    some (.done () (s.setStage i user .dead))

def next (before : Outcome System Halt Unit) (event : Event) : Option (Outcome System Halt Unit) :=
  match before with
  | .done () s => s.take event
  | .halted .. => none

def nextUndisturbed (before : Outcome System Halt Unit) (event : Event) : Option (Outcome System Halt Unit) :=
  if Undisturbed before event then next before event else none

theorem System.take_step {event : Event} {after : Outcome System Halt Unit} (taken : s.take event = some after) :
    Step (.done () s) event after := by
  cases event with
  | receive contents created =>
    cases server : s.server <;> simp only [System.take, server] at taken <;> cases taken
    exact .receive server
  | resume =>
    cases server : s.server <;> simp only [System.take, server] at taken <;> cases taken
    exact .resume server
  | terminate freed =>
    cases server : s.server <;> simp only [System.take, server] at taken <;> cases taken
    exact .terminate server
  | header i result =>
    obtain ⟨user, there, taken⟩ := Option.bind_eq_some_iff.mp taken
    cases stage : user.stage <;> simp only [stage] at taken <;> cases taken
    exact .header there stage
  | copy i =>
    obtain ⟨user, there, taken⟩ := Option.bind_eq_some_iff.mp taken
    cases stage : user.stage <;> simp only [stage] at taken
    case building size stack =>
      obtain ⟨more, taken⟩ := Option.ite_none_right_eq_some.mp taken
      cases taken
      exact .copy there stage more
    all_goals cases taken
  | die i =>
    obtain ⟨user, there, taken⟩ := Option.bind_eq_some_iff.mp taken
    cases taken
    exact .die there

theorem next_step {before after : Outcome System Halt Unit} {event : Event} (taken : next before event = some after) :
    Step before event after := by
  cases before with
  | done _ s => exact System.take_step taken
  | halted reason s => cases taken

theorem nextUndisturbed_step {before after : Outcome System Halt Unit} {event : Event}
    (taken : nextUndisturbed before event = some after) :
    Guarded Undisturbed Step before event after := by
  obtain ⟨undisturbed, taken⟩ := Option.ite_none_right_eq_some.mp taken
  exact ⟨undisturbed, next_step taken⟩

/-- The last byte on the stack of a process that has started. -/
def lastByte (outcome : Outcome System Halt Unit) (i : Nat) : Option UInt8 := do
  match (← outcome.state.users[i]?).stage with
  | .building size stack => if stack.length = size then stack.getLast? else none
  | _ => none

def ownLastByte (outcome : Outcome System Halt Unit) (i : Nat) : Option UInt8 := do
  let user ← outcome.state.users[i]?
  (ownStack user.own user.self).getLast?

theorem OwnStarts.last {outcome : Outcome System Halt Unit} {byte : UInt8} (starts : OwnStarts outcome.state)
    (last : lastByte outcome i = some byte) : ownLastByte outcome i = some byte := by
  obtain ⟨user, there, last⟩ := Option.bind_eq_some_iff.mp last
  cases stage : user.stage <;> simp only [stage] at last
  case building size stack =>
    obtain ⟨built, last⟩ := Option.ite_none_right_eq_some.mp last
    have same := (starts user (List.mem_of_getElem? there)).stack stack (built.symm ▸ stage)
    rw [ownLastByte, there, ← last, same]
    rfl
  all_goals cases last

/-- A request to execute inode `ino` of process 4 in the foreground, with an argument block of one byte repeated. -/
def execRequest (ino byte : UInt8) : List UInt8 :=
  [1, 0, 0, 0, 4, 0, 0, 0, ino, 0, 0, 0, 128, 0, 0, 0, 1, 0, 0, 0, 0, 0, 0, 0] ++ List.replicate 128 byte

def copies (i : Nat) : List Event := List.replicate 128 (.copy i)

def inTurn : List Event := [.receive (execRequest 5 1) (some 10), .resume, .header 0 (some headerSize)] ++ copies 0 ++
  [.receive (execRequest 6 2) (some 11), .header 1 (some headerSize)] ++ copies 1 ++ [.resume]

theorem own_starts_inTurn :
    ∃ after, Run (Guarded Undisturbed Step) (started fun _ => 0) inTurn after ∧ OwnStarts after.state ∧
    lastByte after 0 = some 1 ∧ lastByte after 1 = some 2 := by
  have bytes : (inTurn.foldlM nextUndisturbed (started fun _ => 0)).any
      (fun after => lastByte after 0 = some 1 ∧ lastByte after 1 = some 2) = true := by decide +kernel
  obtain ⟨after, ran, shown⟩ := (Option.any_eq_true ..).mp bytes
  have run : Run (Guarded Undisturbed Step) (started fun _ => 0) inTurn after := .of_foldlM nextUndisturbed_step ran
  exact ⟨after, run, own_starts run, of_decide_eq_true shown⟩

/-- The next request comes while the process reads the header of its executable. -/
def overtaken : List Event :=
  [.receive (execRequest 5 1) (some 10), .resume, .receive (execRequest 6 2) (some 11),
    .header 0 (some headerSize)] ++ copies 0

/-- The first process finds the arguments of the second one. -/
theorem later_arguments : ∃ after, Run Step (started fun _ => 0) overtaken after ∧ ¬ OwnStarts after.state := by
  have bytes : (overtaken.foldlM next (started fun _ => 0)).any
      (fun after => lastByte after 0 = some 2 ∧ ownLastByte after 0 = some 1) = true := by decide +kernel
  obtain ⟨after, ran, shown⟩ := (Option.any_eq_true ..).mp bytes
  obtain ⟨last, own⟩ := of_decide_eq_true shown
  refine ⟨after, .of_foldlM next_step ran, fun starts => ?_⟩
  rw [starts.last last] at own
  exact absurd own (by decide)

end Egos.Spawnsvr
