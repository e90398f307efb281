import Egos.Grass.Ttysvr
import Egos.Library.Leaves
import Egos.Proofs.GrassKill
import Egos.Proofs.GrassRuns

/-! What becomes of the bytes that are typed. The lines that have been completed are either
with their readers or still buffered, unless a reply goes to a process that does not wait
for it or the interrupt handler is cut off in the middle. -/

namespace Egos.Tty
open Library Library.Prog
open Grass (Pid Time Kernel Halt Turn Settled settle Evolves Wakes Awaits Survives never procSend procSend_reply
  procKill_returns)

/-- What has been typed, by the rules of the terminal: the bytes of the completed lines,
and the line that is being typed. -/
structure Lines where
  done : List UInt8
  line : List UInt8
  deriving DecidableEq

namespace Lines

def press (l : Lines) : Key → Lines
  | .interrupt | .dump | .quit => l
  | .endOfFile => { done := l.done ++ l.line, line := [] }
  | .erase => { l with line := l.line.dropLast }
  | .char c =>
    if c = newline then { done := l.done ++ (l.line ++ [c]), line := [] }
    else { l with line := l.line ++ [c] }

def type (l : Lines) (b : UInt8) : Lines := l.press (key b)

def typeAll (l : Lines) (bytes : List UInt8) : Lines := bytes.foldl type l

theorem ext {l other : Lines} (done : l.done = other.done) (line : l.line = other.line) : l = other := by
  cases l
  cases other
  cases done
  cases line
  rfl

end Lines

/-- The bytes that readers have been given, followed by those that are buffered. -/
def TtyState.lines (ts : TtyState) : Lines :=
  { done := ts.handed.flatMap Handed.data ++ ts.inputs.flatten, line := ts.buf }

/-- No byte of a completed line is lost, and none is handed out twice or out of order. -/
structure Accounted (start s : System) : Prop where
  bytes : s.tty.lines.typeAll (s.chunk.getD []) = start.tty.lines.typeAll s.typed
  alive : ∀ given ∈ s.tty.handed, given.alive = true
  intact : s.machine.mode ≠ .stopped (.outOfBounds "ts->buf->data")

/-- If bytes are handed out now, their reader waits for them. -/
def HandsOver (k : Kernel) (ts : TtyState) : Prop :=
  match ts.inputs, ts.requests with
  | buf :: _, tr :: _ => tr.takes buf = 0 ∨ Awaits k ts.pid tr.src
  | _, _ => True

/-- The handler of this byte goes on, or nothing of importance follows in the chunk. -/
def GoesOn (s : System) (b : UInt8) (rest : List UInt8) : Prop :=
  match key b with
  | .interrupt => Survives s.machine.kernel s.tty.pid ∨ s.tty.lines.typeAll rest = s.tty.lines
  | .char _ => s.tty.buf.length + 1 < 2 ^ 32
  | .endOfFile | .erase | .dump | .quit => True

def Meets (s : System) : Event → Prop
  | .kernel _ | .arrive _ => True
  | .char _ =>
    match s.chunk with
    | some (b :: rest) => GoesOn s b rest
    | some [] | none => True
  | .serve => HandsOver s.machine.kernel s.tty
  | .read req src => req.ino = 0 →
    HandsOver s.machine.kernel { s.tty with requests := s.tty.requests ++ [{ src, size := req.size }] }

/-! One byte. -/

private theorem endInput_lines {ts : TtyState} :
    ts.endInput.lines = { done := ts.lines.done ++ ts.lines.line, line := [] } := by
  unfold TtyState.lines TtyState.endInput
  simp only [List.flatten_append, List.flatten_singleton, List.append_assoc]

private theorem addChar_lines {c : UInt8} {t : Terminal} : Leaves (addChar c) t
    (fun _ after => after.kernel = t.kernel ∧ after.tty.handed = t.tty.handed ∧ t.tty.buf.length + 1 < 2 ^ 32 ∧
      after.tty.lines = if c = newline then { done := t.tty.lines.done ++ (t.tty.lines.line ++ [c]), line := [] }
        else { t.tty.lines with line := t.tty.lines.line ++ [c] })
    fun reason _ => reason = .outOfBounds "ts->buf->data" ∧ ¬ t.tty.buf.length + 1 < 2 ^ 32 := by
  unfold addChar
  apply Leaves.get
  by_cases room : t.tty.buf.length + 1 < 2 ^ 32
  · rw [decide_eq_true room]
    apply Leaves.modify
    by_cases ends : c = newline
    · rw [decide_eq_true ends, if_pos ends]
      exact ⟨rfl, rfl, room, endInput_lines⟩
    · rw [decide_eq_false ends, if_neg ends]
      exact ⟨rfl, rfl, room, rfl⟩
  · rw [decide_eq_false room]
    exact ⟨rfl, room⟩

/-- What one byte does. Only proc_kill may not return. -/
structure Typed (b : UInt8) (t : Terminal) (turn : Turn) (after : Terminal) : Prop where
  settled : Settled after.kernel
  lines : after.tty.lines = t.tty.lines.type b
  handed : after.tty.handed = t.tty.handed
  room : ∀ c, key b = .char c → t.tty.buf.length + 1 < 2 ^ 32
  returns : turn = .running ↔ (key b = .interrupt → Survives t.kernel t.tty.pid)

/-- A byte that kills nobody. -/
private theorem Typed.goes_on {b : UInt8} {t after : Terminal} {pressed : Key} (same : key b = pressed)
    (settled : Settled after.kernel)
    (lines : after.tty.lines = t.tty.lines.press pressed) (handed : after.tty.handed = t.tty.handed)
    (other : pressed ≠ .interrupt)
    (room : ∀ c, pressed = .char c → t.tty.buf.length + 1 < 2 ^ 32) : Typed b t .running after := by
  subst same
  exact ⟨settled, lines, handed, room, fun _ kills => absurd kills other, fun _ => rfl⟩

theorem ttyChar_typed {t : Terminal} (settled : Settled t.kernel) (now : Time) (b : UInt8) :
    Leaves (ttyChar now b) t (Typed b t) fun reason _ =>
      reason = .outOfBounds "ts->buf->data" ∧ (∃ c, key b = .char c) ∧ ¬ t.tty.buf.length + 1 < 2 ^ 32 := by
  unfold ttyChar
  cases pressed : key b with
  | interrupt =>
    apply Leaves.get
    apply Leaves.focus
    apply (Leaves.of_ensures (procKill_returns settled t.tty.pid Grass.STAT_INTR)).weaken
    · rintro turn k ⟨kept, returns⟩
      refine ⟨kept, ?_, rfl, ?_, returns.trans ⟨fun survives _ => survives, fun survives => survives pressed⟩⟩
      · unfold Lines.type
        rw [pressed]
        rfl
      · intro c other
        cases pressed.symm.trans other
    · exact fun _ _ => False.elim
  | endOfFile =>
    apply Leaves.modify
    exact .goes_on pressed settled endInput_lines rfl nofun nofun
  | erase =>
    apply Leaves.modify
    exact .goes_on pressed settled rfl rfl nofun nofun
  | dump => exact .goes_on pressed settled rfl rfl nofun nofun
  | quit =>
    have shuts : Settled { t.kernel with procShuttingDown := true, procCurfew := now + 3000 } :=
      ⟨{ settled.queues with }, settled.aside, settled.blocked, settled.consistent, settled.served, settled.alive⟩
    exact .goes_on pressed shuts rfl rfl nofun nofun
  | char c =>
    apply Leaves.bind addChar_lines
    · rintro _ after ⟨kernel, handed, room, lines⟩
      exact .goes_on pressed (kernel ▸ settled) lines handed nofun fun _ _ => room
    · rintro reason _ ⟨rfl, full⟩
      exact ⟨rfl, ⟨c, rfl⟩, full⟩

/-! Handing out a line. -/

private theorem isAlive_of_awaits {k : Kernel} {server client : Pid} (awaits : Awaits k server client) :
    isAlive k client = true := by
  obtain ⟨p, found, waiting, _⟩ := awaits
  unfold isAlive
  rw [found]
  simp [waiting]

/-- What serving a request leaves: the lines are the same if and only if the bytes arrive. -/
structure Served (arrives : Prop) (t after : Terminal) : Prop where
  settled : Settled after.kernel
  evolves : Evolves Wakes t.kernel after.kernel
  line : after.tty.lines.line = t.tty.lines.line
  lines : after.tty.lines = t.tty.lines ↔ arrives
  alive : (∀ given ∈ t.tty.handed, given.alive = true) → ∀ given ∈ after.tty.handed, given.alive = true

private theorem ttyHandle_run (t : Terminal) (tr : TtyRequest) (buf : List UInt8) (settled : Settled t.kernel) :
    Ensures never (ttyHandle tr buf) t fun _ after => (Settled after.kernel ∧ Evolves Wakes t.kernel after.kernel) ∧
      ∃ sent : Bool, (sent = true ↔ Awaits t.kernel t.tty.pid tr.src) ∧
        after.tty.handed = t.tty.handed ++ (if sent then
          [⟨tr.src, isAlive t.kernel tr.src, buf.take (tr.takes buf)⟩] else []) ∧
        after.tty.inputs = (if tr.takes buf < buf.length then buf.drop
          (tr.takes buf) :: t.tty.inputs else t.tty.inputs) ∧
        after.tty.buf = t.tty.buf := by
  have sends := procSend_reply settled t.tty.pid tr.src (replyBytes .ok 0 (buf.take (tr.takes buf)))
  obtain ⟨sent, k, ran, kept, arrives⟩ := sends.total
  have here : inKernel (procSend t.tty.pid tr.src .reply (replyBytes .ok 0 (buf.take (tr.takes buf)))) t =
      .done sent { t with kernel := k } := by
    unfold inKernel Prog.focus
    rw [ran]
  unfold ttyHandle
  apply Ensures.get
  apply Ensures.bind_returns here
  apply Ensures.modify
  by_cases more : tr.takes buf < buf.length
  · rw [decide_eq_true more]
    exact ⟨kept, sent, arrives, rfl, (if_pos more).symm, rfl⟩
  · rw [decide_eq_false more]
    exact ⟨kept, sent, arrives, rfl, (if_neg more).symm, rfl⟩

/-- What a reader has no room for goes back to the head of the queue. -/
private theorem flatten_rest (buf : List UInt8) (n : Nat) (inputs : List (List UInt8)) :
    (if n < buf.length then buf.drop n :: inputs else inputs).flatten = buf.drop n ++ inputs.flatten := by
  by_cases more : n < buf.length
  · rw [if_pos more, List.flatten_cons]
  · rw [if_neg more, List.drop_eq_nil_of_le (Nat.le_of_not_lt more), List.nil_append]

private theorem handed_lines {ts after : TtyState} {given : List Handed} {buf : List UInt8} {n : Nat}
    {rest : List (List UInt8)}
    (inputs : ts.inputs = buf :: rest) (handed : after.handed = ts.handed ++ given) (line : after.buf = ts.buf)
    (left : after.inputs = if n < buf.length then buf.drop n :: rest else rest) :
    after.lines = ts.lines ↔ given.flatMap Handed.data = buf.take n := by
  have before : ts.lines.done = ts.handed.flatMap Handed.data ++ (buf.take n ++ (buf.drop n ++ rest.flatten)) := by
    unfold TtyState.lines
    rw [inputs, List.flatten_cons, ← List.append_assoc (buf.take n), List.take_append_drop]
  have now : after.lines.done = ts.handed.flatMap Handed.data ++
      (given.flatMap Handed.data ++ (buf.drop n ++ rest.flatten)) := by
    unfold TtyState.lines
    rw [handed, left, flatten_rest, List.flatMap_append, List.append_assoc]
  constructor
  · intro same
    have bytes := now.symm.trans ((congrArg Lines.done same).trans before)
    exact List.append_cancel_right (List.append_cancel_left bytes)
  · intro same
    rw [same, ← before] at now
    exact Lines.ext now line

private theorem ttyServe_served {t : Terminal} (settled : Settled t.kernel) :
    Ensures never ttyServe t fun _ after => Served (HandsOver t.kernel t.tty) t after := by
  have nothing : Served True t t := ⟨settled, .wakes_refl _, rfl, iff_of_true rfl trivial, id⟩
  unfold ttyServe HandsOver
  apply Ensures.get
  cases inputs : t.tty.inputs with
  | nil => exact nothing
  | cons buf rest =>
    cases requests : t.tty.requests with
    | nil => exact nothing
    | cons tr others =>
      apply Ensures.modify
      apply (ttyHandle_run { t with tty := { t.tty with inputs := rest, requests := others } } tr buf settled).weaken
      rintro _ after ⟨⟨kept, evolves⟩, sent, arrives, handed, left, line⟩
      refine ⟨kept, evolves, line, ?_, ?_⟩
      · rw [handed_lines inputs handed line left]
        cases sent with
        | true => exact iff_of_true (List.append_nil _) (.inr (arrives.mp rfl))
        | false =>
          have waits : ¬ Awaits t.kernel t.tty.pid tr.src := fun waits => nomatch arrives.mpr waits
          refine .trans ?_ (or_iff_left waits).symm
          constructor
          · intro none
            have size := congrArg List.length none
            rw [List.length_take] at size
            have fits : tr.takes buf ≤ buf.length := Nat.min_le_left ..
            rw [Nat.min_eq_left fits] at size
            exact size.symm
          · intro none
            rw [none]
            rfl
      · intro alive given member
        rw [handed] at member
        rcases List.mem_append.mp member with old | new
        · exact alive given old
        · cases sent with
          | true =>
            rw [List.mem_singleton.mp new]
            exact isAlive_of_awaits (arrives.mp rfl)
          | false => cases new

private theorem ttyRespond_served {t : Terminal} (settled : Settled t.kernel) (src : Pid) (status : Files.Status) :
    Ensures never (ttyRespond src status) t fun _ after => Served True t after := by
  obtain ⟨sent, k, ran, ⟨kept, evolves⟩, _⟩ := (procSend_reply settled t.tty.pid src (replyBytes status 0 [])).total
  have here : inKernel (procSend t.tty.pid src .reply (replyBytes status 0 [])) t =
      .done sent { t with kernel := k } := by
    unfold inKernel Prog.focus
    rw [ran]
  unfold ttyRespond
  apply Ensures.get
  exact Ensures.bind_returns here ⟨kept, evolves, rfl, iff_of_true rfl trivial, id⟩

private theorem ttyRead_served {t : Terminal} (settled : Settled t.kernel) (req : Files.FileRequest) (src : Pid) :
    Ensures never (ttyRead req src) t fun _ after => Served (req.ino = 0 →
      HandsOver t.kernel { t.tty with requests := t.tty.requests ++ [{ src, size := req.size }] }) t after := by
  unfold ttyRead
  by_cases stdin : req.ino = 0
  · rw [decide_eq_true stdin]
    let queued : Terminal := { t with tty := { t.tty with requests := t.tty.requests ++ [{ src, size := req.size }] } }
    have keeps : Settled queued.kernel := settled
    apply Ensures.modify
    apply (ttyServe_served keeps).weaken
    intro _ after served
    exact ⟨served.settled, served.evolves, served.line,
      served.lines.trans ⟨fun meets _ => meets, fun meets => meets stdin⟩, served.alive⟩
  · rw [decide_eq_false stdin]
    apply (ttyRespond_served settled src .error).weaken
    intro _ after served
    exact ⟨served.settled, served.evolves, served.line,
      served.lines.trans (iff_of_true trivial fun same => absurd same stdin), served.alive⟩

/-! Whole runs. -/

variable {start before after : System} {event : Event}

private theorem done_of_valid {m : Grass.Machine} (valid : m.Valid) :
    m.mode ≠ .stopped (.outOfBounds "ts->buf->data") := by
  intro stopped
  unfold Grass.Machine.Valid at valid
  rw [stopped] at valid
  rcases valid with exit | assertion
  · cases exit
  · cases assertion

theorem settled_of_valid {m : Grass.Machine} (valid : m.Valid) (yielding : m.mode = .yielding) : Settled m.kernel := by
  unfold Grass.Machine.Valid at valid
  rw [yielding] at valid
  exact valid

theorem running_of_valid {m : Grass.Machine} (valid : m.Valid) (running : m.mode = .running) :
    Grass.Running m.kernel := by
  unfold Grass.Machine.Valid at valid
  rw [running] at valid
  exact valid

/-- Typing goes on where it has stopped. -/
private theorem Accounted.served {arrives : Prop} {t : Terminal} {mode : Grass.Mode}
    (accounted : Accounted start before)
    (idle : before.chunk.getD [] = []) (served : Served arrives before.terminal t)
    (alive : mode = before.machine.mode) :
    Accounted start { before with machine := ⟨t.kernel, mode⟩, tty := t.tty, chunk := none } ↔ arrives := by
  have bytes := accounted.bytes
  rw [idle] at bytes
  rw [← served.lines]
  constructor
  · intro after
    exact after.bytes.trans bytes.symm
  · intro same
    refine ⟨(congrArg (Lines.typeAll · []) same).trans bytes, served.alive accounted.alive, ?_⟩
    rw [alive]
    exact accounted.intact

private theorem Accounted.typed {b : UInt8} {rest : List UInt8} {t : Terminal} {turn : Turn}
    (accounted : Accounted start before)
    (here : before.chunk = some (b :: rest)) (typed : Typed b before.terminal turn t) :
    Accounted start (before.ran (goesOn rest) (.done turn t)) ↔ GoesOn before b rest := by
  have bytes := accounted.bytes
  rw [here] at bytes
  have next : t.tty.lines.typeAll rest = start.tty.lines.typeAll before.typed := by
    rw [typed.lines]
    exact bytes
  have alive : ∀ given ∈ t.tty.handed, given.alive = true := by
    rw [typed.handed]
    exact accounted.alive
  cases turn with
  | running =>
    refine iff_of_true ⟨next, alive, accounted.intact⟩ ?_
    have survives := typed.returns.mp rfl
    have room := typed.room
    unfold GoesOn
    cases pressed : key b with
    | interrupt => exact .inl (survives pressed)
    | char c => exact room c pressed
    | endOfFile => trivial
    | erase => trivial
    | dump => trivial
    | quit => trivial
  | yielding =>
    have pressed : key b = .interrupt := by
      by_contra other
      cases typed.returns.mpr fun same => absurd same other
    have killed : ¬ Survives before.machine.kernel before.tty.pid := by
      intro survives
      cases typed.returns.mpr fun _ => survives
    have same : t.tty.lines = before.tty.lines := by
      rw [typed.lines]
      unfold Lines.type
      rw [pressed]
      rfl
    unfold GoesOn
    rw [pressed]
    refine .trans ?_ (or_iff_right killed).symm
    rw [same] at next
    constructor
    · intro after
      exact next.trans (after.bytes.symm.trans same)
    · intro inert
      exact ⟨same.trans (inert.symm.trans next), alive, accounted.intact⟩

/-- A step harms the account if and only if it does not meet its condition. -/
theorem Step.accounted_iff (step : Step before event after) (valid : before.machine.Valid)
    (accounted : Accounted start before) :
    Accounted start after ↔ Meets before event := by
  cases step with
  | kernel idle step =>
    exact iff_of_true ⟨accounted.bytes, accounted.alive, done_of_valid (step.valid valid)⟩ trivial
  | @arrive chunk yielding idle =>
    refine iff_of_true ⟨?_, accounted.alive, accounted.intact⟩ trivial
    have bytes := accounted.bytes
    rw [idle] at bytes
    unfold Lines.typeAll at bytes ⊢
    rw [List.foldl_append, ← bytes]
    rfl
  | @char now b rest yielding here =>
    have condition : Meets before (.char now) ↔ GoesOn before b rest := by
      unfold Meets
      rw [here]
    have typed := ttyChar_typed (t := before.terminal) (settled_of_valid valid yielding) now b
    unfold Leaves at typed
    rw [condition]
    cases ran : ttyChar now b before.terminal with
    | done turn t =>
      rw [ran] at typed
      exact accounted.typed here typed
    | halted reason t =>
      rw [ran] at typed
      obtain ⟨rfl, ⟨c, pressed⟩, full⟩ := typed
      refine iff_of_false (fun after => after.intact rfl) ?_
      unfold GoesOn
      rw [pressed]
      exact full
  | serve yielding here =>
    obtain ⟨_, t, ran, served⟩ := (ttyServe_served (t := before.terminal) (settled_of_valid valid yielding)).total
    rw [ran]
    exact accounted.served (by rw [here]; rfl) served rfl
  | @read req src running same idle =>
    have runs := running_of_valid valid running
    obtain ⟨_, t, ran, served⟩ := (ttyRead_served (t := before.terminal) runs.settled req src).total
    rw [ran]
    exact accounted.served (by rw [idle]; rfl) served rfl

theorem valid_yielding {m : Grass.Machine} {k : Kernel} (yielding : m.mode = .yielding) (settled : Settled k) :
    ({ kernel := k, mode := m.mode } : Grass.Machine).Valid := by
  unfold Grass.Machine.Valid
  rw [yielding]
  exact settled

/-- Only a line that is too long stops the terminal server. -/
theorem Step.valid_or_full (step : Step before event after) (valid : before.machine.Valid) : after.machine.Valid ∨
    (¬ before.tty.buf.length + 1 < 2 ^ 32 ∧ ∃ c b rest, key b = .char c ∧ before.chunk = some (b :: rest)) ∧
      after.machine.mode = .stopped (.outOfBounds "ts->buf->data") := by
  cases step with
  | kernel idle step => exact .inl (step.valid valid)
  | arrive yielding idle => exact .inl valid
  | @char now b rest yielding here =>
    have typed := ttyChar_typed (t := before.terminal) (settled_of_valid valid yielding) now b
    cases ran : ttyChar now b before.terminal with
    | done turn t => exact .inl (valid_yielding yielding (typed.done ran).settled)
    | halted reason t =>
      obtain ⟨rfl, ⟨c, pressed⟩, full⟩ := typed.halted ran
      exact .inr ⟨⟨full, c, b, rest, pressed, here⟩, rfl⟩
  | serve yielding here =>
    obtain ⟨_, t, ran, served⟩ := (ttyServe_served (t := before.terminal) (settled_of_valid valid yielding)).total
    rw [ran]
    exact .inl (valid_yielding yielding served.settled)
  | @read req src running same idle =>
    have runs := running_of_valid valid running
    obtain ⟨_, t, ran, served⟩ := (ttyRead_served (t := before.terminal) runs.settled req src).total
    rw [ran]
    have goes : Grass.Running t.kernel := runs.wakes served.settled served.evolves
    left
    unfold Grass.Machine.Valid System.ran
    dsimp only
    rw [running]
    exact goes

theorem Step.valid (step : Step before event after) (valid : before.machine.Valid) (meets : Meets before event) :
    after.machine.Valid := by
  rcases step.valid_or_full valid with valid | ⟨⟨full, c, b, rest, pressed, here⟩, _⟩
  · exact valid
  · cases step with
    | char =>
      unfold Meets GoesOn at meets
      rw [here] at meets
      dsimp only at meets
      rw [pressed] at meets
      exact absurd meets full
    | kernel idle => rw [idle] at here; cases here
    | arrive _ idle => rw [idle] at here; cases here
    | serve _ none => rw [none] at here; cases here
    | read _ _ idle => rw [idle] at here; cases here

/-- The handler's steps, one after the other, are tty_deliver. -/
theorem deliver_run {s : System} {chunk : List UInt8} (yielding : s.machine.mode = .yielding)
    (here : s.chunk = some chunk) (now : Time) :
    ∃ events, Run Step s events (s.ran (fun _ => none) (ttyDeliver now chunk s.terminal)) := by
  induction chunk generalizing s with
  | nil =>
    have last : s.ran (fun _ => none) (ttyDeliver now [] s.terminal) = s.ran (fun _ => none) (ttyServe s.terminal) := by
      unfold ttyDeliver
      cases ran : ttyServe s.terminal with
      | done value t => rw [Prog.bind_done ran]; rfl
      | halted reason t => rw [Prog.bind_halted ran]; rfl
    exact ⟨[.serve], .snoc .nil (last ▸ .serve yielding here)⟩
  | cons b rest ih =>
    have first := @Step.char s now b rest yielding here
    cases ran : ttyChar now b s.terminal with
    | halted reason t =>
      have last : ttyDeliver now (b :: rest) s.terminal = .halted reason t := Prog.bind_halted ran
      rw [ran] at first
      rw [last]
      exact ⟨[.char now], .snoc .nil first⟩
    | done turn t =>
      rw [ran] at first
      cases turn with
      | yielding =>
        have last : ttyDeliver now (b :: rest) s.terminal = .done .yielding t := Prog.bind_done ran
        rw [last]
        exact ⟨[.char now], .snoc .nil first⟩
      | running =>
        have last : ttyDeliver now (b :: rest) s.terminal = ttyDeliver now rest t := Prog.bind_done ran
        obtain ⟨events, run⟩ := ih (s := s.ran (goesOn rest) (.done .running t)) yielding rfl
        refine ⟨.char now :: events, .cons first ?_⟩
        change Run Step _ _ (System.ran _ _ (ttyDeliver now rest t)) at run
        rw [last]
        cases delivered : ttyDeliver now rest t with
        | done value final => rw [delivered] at run; exact run
        | halted reason final => rw [delivered] at run; exact run

theorem Starts.accounted (starts : Starts start) : Accounted start start := by
  refine ⟨?_, ?_, done_of_valid (Grass.reachable_valid starts.reachable)⟩
  · rw [starts.idle, starts.typed]
    rfl
  · rw [starts.handed]
    exact nofun

def System.take (s : System) : Event → Option System
  | .kernel event =>
    match s.chunk with
    | none => (s.machine.take event).map fun machine => { s with machine }
    | some _ => none
  | .arrive chunk =>
    match s.machine.mode, s.chunk with
    | .yielding, none => some { s with chunk := some chunk, typed := s.typed ++ chunk }
    | _, _ => none
  | .char now =>
    match s.machine.mode, s.chunk with
    | .yielding, some (b :: rest) => some (s.ran (goesOn rest) (ttyChar now b s.terminal))
    | _, _ => none
  | .serve =>
    match s.machine.mode, s.chunk with
    | .yielding, some [] => some (s.ran (fun _ => none) (ttyServe s.terminal))
    | _, _ => none
  | .read req src =>
    match s.machine.mode, s.chunk with
    | .running, none =>
      if s.machine.kernel.current.pid = s.tty.pid then some (s.ran (fun _ => none) (ttyRead req src s.terminal))
        else none
    | _, _ => none

theorem System.take_step {s after : System} {event : Event} (taken : s.take event = some after) :
    Step s event after := by
  unfold System.take at taken
  cases event with
  | kernel event =>
    cases idle : s.chunk with
    | none =>
      rw [idle] at taken
      obtain ⟨machine, ran, rfl⟩ := Option.map_eq_some_iff.mp taken
      have moved := Step.kernel idle (Grass.Machine.take_step ran)
      rw [idle] at moved
      exact moved
    | some rest => rw [idle] at taken; cases taken
  | arrive chunk =>
    cases mode : s.machine.mode <;> cases idle : s.chunk <;> rw [mode, idle] at taken <;> cases taken
    exact .arrive mode idle
  | char now =>
    cases mode : s.machine.mode <;> rcases here :
      s.chunk with _ | _ | ⟨b, rest⟩ <;> rw [mode, here] at taken <;> cases taken
    exact .char mode here
  | serve =>
    cases mode : s.machine.mode <;> rcases here :
      s.chunk with _ | _ | ⟨b, rest⟩ <;> rw [mode, here] at taken <;> cases taken
    exact .serve mode here
  | read req src =>
    cases mode : s.machine.mode <;> cases idle : s.chunk <;> rw [mode, idle] at taken <;> dsimp only at taken
    · by_cases same : s.machine.kernel.current.pid = s.tty.pid
      · rw [if_pos same] at taken
        cases taken
        exact .read mode same idle
      · rw [if_neg same] at taken
        cases taken
    all_goals cases taken

/-- The main process creates the terminal server, which has pid 2, and a shell with pid 3
that can be interrupted. The shell asks for ten bytes. -/
private def shellReads : List Event := [
  .kernel (.call (.create 1 0 0)), .kernel (.call (.recv .request 0 100 0)), .kernel (.round 0 0),
  .kernel (.call (.create 1 0 0)), .kernel (.call (.setInterruptable true)), .kernel (.call (.rpc 2 [] 100 0)),
    .kernel (.round 0 0),
  .kernel (.call (.recv .request 0 100 0)), .kernel (.round 0 0),
  .read { type := .read, ino := 0, offset := 0, size := 10, uid := 0, mode := 0 } 3,
    .kernel (.call (.recv .request 0 100 0))]

def unused : System :=
  { machine := Grass.booted, tty := { pid := 2, buf := [], requests := [], inputs := [], handed := [] },
    chunk := none, typed := [] }

theorem unused_starts : Starts unused := ⟨⟨[], .nil⟩, rfl, rfl, rfl⟩

private def ls : List UInt8 := ['l', 's', '\n'].map fun c => UInt8.ofNat c.toNat

/-- An interrupt kills the shell, and the next line is given to it all the same. -/
private def interrupted : List Event :=
  shellReads ++ [.arrive (ctrl 'c' :: ls), .char 0, .char 0, .char 0, .char 0, .serve]

/-- A test that is enough for an event to do no harm. -/
private def harmless (s : System) : Event → Bool
  | .kernel _ | .arrive _ => true
  | .char _ =>
    match s.chunk with
    | some (b :: _) =>
      match key b with
      | .interrupt => false
      | .char _ => s.tty.buf.length + 1 < 2 ^ 32
      | .endOfFile | .erase | .dump | .quit => true
    | some [] | none => true
  | .serve => s.tty.requests.all fun tr => (s.machine.kernel.procFind tr.src).any fun p =>
      !(decide ((s.machine.kernel.procSet p).state = .zombie) || Grass.notWaitingForReply
        (s.machine.kernel.procSet p) s.tty.pid)
  | .read _ _ => s.tty.inputs.isEmpty

private theorem harmless_meets {s : System} {event : Event} (passes : harmless s event = true) : Meets s event := by
  unfold harmless at passes
  unfold Meets
  cases event with
  | kernel event => trivial
  | arrive chunk => trivial
  | char now =>
    rcases here : s.chunk with _ | _ | ⟨b, rest⟩
    · trivial
    · trivial
    · rw [here] at passes
      change GoesOn s b rest
      unfold GoesOn
      cases pressed : key b with
      | interrupt => simp only [pressed, Bool.false_eq_true] at passes
      | char c =>
        simp only [pressed, decide_eq_true_eq] at passes
        exact passes
      | endOfFile => trivial
      | erase => trivial
      | dump => trivial
      | quit => trivial
  | serve =>
    unfold HandsOver
    cases s.tty.inputs with
    | nil => trivial
    | cons buf rest =>
      cases requests : s.tty.requests with
      | nil => trivial
      | cons tr others =>
        rw [requests, List.all_cons, Bool.and_eq_true] at passes
        obtain ⟨p, found, waits⟩ := (Option.any_eq_true _ _).mp passes.1
        exact .inr ⟨p, found, Grass.refuses_iff.mp ((Bool.not_eq_true' _).mp waits)⟩
  | read req src =>
    intro _
    unfold HandsOver
    rw [List.isEmpty_iff.mp passes]
    trivial

private def listed : List Event := shellReads ++ [.arrive ls, .char 0, .char 0, .char 0, .serve]

end Egos.Tty
