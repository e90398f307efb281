import Egos.Proofs.TtyLines

/-! The two queues of the terminal server. A request waits only when no line does, except
that tty_deliver answers one request for a chunk, whatever number of lines it completes. -/

namespace Egos.Tty
open Library Library.Prog
open Grass (Pid Uid Time Kernel Kern Turn Survives procKill procSend)

def endings (line : List UInt8) : List UInt8 → List (List UInt8)
  | [] => []
  | b :: rest =>
    match key b with
    | .endOfFile => line :: endings [] rest
    | .erase => endings line.dropLast rest
    | .char c => if c = newline then (line ++ [c]) :: endings [] rest else endings (line ++ [c]) rest
    | .interrupt | .dump | .quit => endings line rest

/-- The first request is enough for these lines, or there is no other one. -/
def Answers : List TtyRequest → List (List UInt8) → Prop
  | tr :: _ :: _, line :: rest => rest = [] ∧ line.length ≤ tr.size.toNat
  | _, _ => True

instance : (requests : List TtyRequest) → (lines : List (List UInt8)) → Decidable (Answers requests lines)
  | _ :: _ :: _, _ :: _ => inferInstanceAs (Decidable (_ ∧ _))
  | [], _ | [_], _ | _ :: _ :: _, [] => inferInstanceAs (Decidable True)

/-- No request waits beside a line. -/
def TtyState.Matched (ts : TtyState) : Prop := ts.inputs = [] ∨ ts.requests = []

/-- An event has been handled, and no request waits beside a line. -/
def Matched (s : System) : Prop := s.chunk = none → (∀ reason, s.machine.mode ≠ .stopped reason) → s.tty.Matched

/-- The handler is cut off by the first <ctrl>C. -/
def CutOff (s : System) (chunk : List UInt8) : Prop :=
  ¬ Survives s.machine.kernel s.tty.pid ∧ ∃ b ∈ chunk, key b = .interrupt

/-- What keeps requests and lines apart: a chunk completes no more than the first request
can take, and the handler is not cut off between a line and its reader. -/
def Spares (s : System) : Event → Prop
  | .arrive chunk => Answers s.tty.requests (s.tty.inputs ++ endings s.tty.buf chunk) ∨ CutOff s chunk
  | .char _ => ∀ b rest, s.chunk = some (b :: rest) → key b = .interrupt → Survives s.machine.kernel s.tty.pid ∨
      s.tty.Matched
  | .kernel _ | .serve | .read _ _ => True

/-! The parts of the handler. -/

variable {t : Terminal} {ts : TtyState}

theorem answers_of_matched (matched : ts.Matched) : Answers ts.requests ts.inputs := by
  unfold Answers
  rcases matched with none | none
  · rw [none]
    cases ts.requests with
    | nil => trivial
    | cons tr rest => cases rest <;> trivial
  · rw [none]
    trivial

/-- One request more is answered at once if there is a line. -/
theorem answers_next (matched : ts.Matched) (tr : TtyRequest) : Answers (ts.requests ++ [tr]) ts.inputs := by
  rcases matched with none | none
  · have queued : ({ ts with requests := ts.requests ++ [tr] } : TtyState).Matched := .inl none
    exact answers_of_matched queued
  · rw [none]
    cases ts.inputs <;> trivial

private theorem inKernel_leaves {α : Type} (program : Kern α) :
    Leaves (inKernel program) t (fun _ after => after.tty = t.tty) fun _ _ => True := by
  apply Leaves.focus
  unfold Leaves
  cases program t.kernel <;> trivial

theorem ttyHandle_queues (tr : TtyRequest) (buf : List UInt8) : Leaves (ttyHandle tr buf) t (fun _ after =>
    after.tty.requests = t.tty.requests ∧
      after.tty.inputs = if tr.takes buf < buf.length then buf.drop (tr.takes buf) :: t.tty.inputs else t.tty.inputs)
          fun _ _ => True := by
  unfold ttyHandle
  apply Leaves.get
  apply Leaves.bind (inKernel_leaves _)
  · intro sent after same
    apply Leaves.modify
    by_cases more : tr.takes buf < buf.length
    · rw [decide_eq_true more, if_pos more, ← same]
      exact ⟨rfl, rfl⟩
    · rw [decide_eq_false more, if_neg more, ← same]
      exact ⟨rfl, rfl⟩
  · exact fun _ _ _ => trivial

/-- At the end of a chunk one request is answered, and one line is used. -/
theorem ttyServe_queues :
    Leaves ttyServe t (fun _ after => after.tty.Matched ↔ Answers t.tty.requests t.tty.inputs) fun _ _ => True := by
  unfold ttyServe
  apply Leaves.get
  cases inputs : t.tty.inputs with
  | nil =>
    have matched : t.tty.Matched := .inl inputs
    exact iff_of_true matched (inputs ▸ answers_of_matched matched)
  | cons buf rest =>
    cases requests : t.tty.requests with
    | nil => exact iff_of_true (.inr requests) trivial
    | cons tr others =>
      apply Leaves.modify
      apply (ttyHandle_queues tr buf).weaken
      · rintro _ after ⟨waiting, lines⟩
        have waiting : after.tty.requests = others := waiting
        have lines : after.tty.inputs = if tr.takes buf < buf.length then buf.drop (tr.takes buf) :: rest else rest :=
          lines
        unfold TtyState.Matched
        rw [waiting, lines]
        cases others with
        | nil => exact iff_of_true (.inr rfl) trivial
        | cons other others =>
          have takes : tr.takes buf < buf.length ↔ ¬ buf.length ≤ tr.size.toNat := by
            unfold TtyRequest.takes
            omega
          simp only [Answers, takes, reduceCtorEq, or_false]
          by_cases fits : buf.length ≤ tr.size.toNat
          · simp [fits]
          · simp [fits]
      · exact fun _ _ _ => trivial

theorem ttyRead_queues (matched : t.tty.Matched) (req : Files.FileRequest) (src : Pid) :
    Leaves (ttyRead req src) t (fun _ after => after.tty.Matched) fun _ _ => True := by
  unfold ttyRead
  cases decide (req.ino = 0) with
  | true =>
    apply Leaves.modify
    apply ttyServe_queues.weaken
    · exact fun _ after served => served.mpr (answers_next matched _)
    · exact fun _ _ _ => trivial
  | false =>
    apply Leaves.get
    apply Leaves.bind (inKernel_leaves _)
    · rintro sent after same
      change after.tty.Matched
      rw [same]
      exact matched
    · exact fun _ _ _ => trivial

/-- What one byte adds to the lines, and that only a <ctrl>C changes who is killed by the next. -/
structure Ended (b : UInt8) (t after : Terminal) : Prop where
  requests : after.tty.requests = t.tty.requests
  inputs : ∀ rest, after.tty.inputs ++ endings after.tty.buf rest = t.tty.inputs ++ endings t.tty.buf (b :: rest)
  survives : key b ≠ .interrupt → (Survives after.kernel after.tty.pid ↔ Survives t.kernel t.tty.pid)

private theorem addChar_queues (c : UInt8) : Leaves (addChar c) t (fun _ after => after.kernel = t.kernel ∧
    after.tty = if c = newline then { t.tty with inputs := t.tty.inputs ++ [t.tty.buf ++ [c]], buf := [] }
      else { t.tty with buf := t.tty.buf ++ [c] })
    fun _ _ => True := by
  unfold addChar
  apply Leaves.get
  cases decide (t.tty.buf.length + 1 < 2 ^ 32) with
  | false => trivial
  | true =>
    apply Leaves.modify
    by_cases ends : c = newline
    · rw [decide_eq_true ends, if_pos ends]
      exact ⟨rfl, rfl⟩
    · rw [decide_eq_false ends, if_neg ends]
      exact ⟨rfl, rfl⟩

theorem ttyChar_queues (now : Time) (b : UInt8) :
    Leaves (ttyChar now b) t (fun _ after => Ended b t after) fun _ _ => True := by
  have next : ∀ rest, endings t.tty.buf (b :: rest) = match key b with
      | .endOfFile => t.tty.buf :: endings [] rest
      | .erase => endings t.tty.buf.dropLast rest
      | .char c => if c = newline then (t.tty.buf ++ [c]) :: endings [] rest else endings (t.tty.buf ++ [c]) rest
      | .interrupt | .dump | .quit => endings t.tty.buf rest := fun rest => by rw [endings]
  unfold ttyChar
  cases pressed : key b with
  | interrupt =>
    rw [pressed] at next
    apply Leaves.get
    apply (inKernel_leaves _).weaken
    · intro _ after same
      refine ⟨congrArg _ same, fun rest => ?_, fun other => absurd pressed other⟩
      rw [same, next]
    · exact fun _ _ _ => trivial
  | endOfFile =>
    rw [pressed] at next
    refine ⟨rfl, fun rest => ?_, fun _ => .rfl⟩
    rw [next]
    exact List.append_assoc t.tty.inputs [t.tty.buf] (endings [] rest)
  | erase =>
    rw [pressed] at next
    refine ⟨rfl, fun rest => ?_, fun _ => .rfl⟩
    exact (congrArg _ (next rest)).symm
  | dump =>
    rw [pressed] at next
    refine ⟨rfl, fun rest => ?_, fun _ => .rfl⟩
    rw [next]
  | quit =>
    rw [pressed] at next
    refine ⟨rfl, fun rest => ?_, fun _ => .rfl⟩
    exact (congrArg _ (next rest)).symm
  | char c =>
    rw [pressed] at next
    apply Leaves.bind (addChar_queues c)
    · rintro _ after ⟨kernel, tty⟩
      refine ⟨?_, fun rest => ?_, fun _ => ?_⟩
      · rw [tty]
        split_ifs <;> rfl
      · rw [tty, next]
        dsimp only
        split_ifs
        · exact List.append_assoc t.tty.inputs [t.tty.buf ++ [c]] (endings [] rest)
        · rfl
      · have pid : after.tty.pid = t.tty.pid := by
          rw [tty]
          split_ifs <;> rfl
        rw [kernel, pid]
    · exact fun _ _ _ => trivial

/-! Whole runs. -/

variable {start before after : System} {event : Event}

/-- What holds between the steps of the handler: the lines that are still to be completed count as well. -/
def Expects (s : System) : Prop :=
  match s.chunk with
  | none => s.tty.Matched
  | some rest => Answers s.tty.requests (s.tty.inputs ++ endings s.tty.buf rest) ∨ CutOff s rest

private theorem kernel_runs {m m' : Grass.Machine} {event : Grass.Event} (step : Grass.Step m event m')
    (reason : Grass.Halt) :
    m.mode ≠ .stopped reason := by
  cases step <;> exact nofun

private theorem Step.runs (step : Step before event after) : ∀ reason, before.machine.mode ≠ .stopped reason := by
  intro reason stopped
  cases step with
  | kernel _ step => exact kernel_runs step reason stopped
  | arrive yielding => rw [yielding] at stopped; cases stopped
  | char yielding => rw [yielding] at stopped; cases stopped
  | serve yielding => rw [yielding] at stopped; cases stopped
  | read running => rw [running] at stopped; cases stopped

private theorem Step.expects (step : Step before event after) (valid : before.machine.Valid) (expects : Expects before)
    (spares : Spares before event) : Expects after ∨ ∃ reason, after.machine.mode = .stopped reason := by
  cases step with
  | kernel idle step =>
    rw [Expects, idle] at expects
    left
    rw [Expects, idle]
    exact expects
  | arrive yielding idle => exact .inl spares
  | @char now b rest yielding here =>
    rw [Expects, here] at expects
    have ended := @ttyChar_queues before.terminal now b
    have typed := ttyChar_typed (t := before.terminal) (settled_of_valid valid yielding) now b
    cases ran : ttyChar now b before.terminal with
    | halted reason t => exact .inr ⟨reason, rfl⟩
    | done turn t =>
      obtain ⟨requests, inputs, survives⟩ := ended.done ran
      have returns := (typed.done ran).returns
      left
      cases turn with
      | running =>
        change Answers t.tty.requests (t.tty.inputs ++ endings t.tty.buf rest) ∨
          ¬ Survives t.kernel t.tty.pid ∧ ∃ c ∈ rest, key c = .interrupt
        rw [requests, inputs]
        refine expects.imp id ?_
        rintro ⟨killed, c, member, pressed⟩
        -- the <ctrl>C that cuts the handler off is not this byte
        have other : key b ≠ .interrupt := fun same => killed (returns.mp rfl same)
        rcases List.mem_cons.mp member with rfl | later
        · exact absurd pressed other
        · exact ⟨fun survived => killed ((survives other).mp survived), c, later, pressed⟩
      | yielding =>
        have pressed : key b = .interrupt := by
          by_contra other
          cases returns.mpr fun same => absurd same other
        have killed : ¬ Survives before.machine.kernel before.tty.pid := by
          intro survives
          cases returns.mpr fun _ => survives
        have matched := (spares b rest here pressed).resolve_left killed
        have same : t.tty.inputs = before.tty.inputs := by
          have none := inputs []
          rw [endings, endings, pressed] at none
          simp only [endings, List.append_nil] at none
          exact none
        change t.tty.inputs = [] ∨ t.tty.requests = []
        rw [same, requests]
        exact matched
  | serve yielding here =>
    rw [Expects, here] at expects
    have served := @ttyServe_queues before.terminal
    cases ran : ttyServe before.terminal with
    | halted reason t => exact .inr ⟨reason, rfl⟩
    | done value t =>
      rcases expects with answers | ⟨_, _, none, _⟩
      · rw [endings, List.append_nil] at answers
        exact .inl ((served.done ran).mpr answers)
      · cases none
  | @read req src running same idle =>
    rw [Expects, idle] at expects
    have matched : before.terminal.tty.Matched := expects
    have answered := ttyRead_queues matched req src
    cases ran : ttyRead req src before.terminal with
    | halted reason t => exact .inr ⟨reason, rfl⟩
    | done value t => exact .inl (answered.done ran)

/-- A terminal that works, between two events. -/
structure Orderly (s : System) : Prop where
  reachable : Grass.Reachable s.machine
  idle : s.chunk = none
  matched : s.tty.Matched

/-- As long as chunks complete no more than the first reader can take and no handler is cut
off beside a line, nobody waits for input that is there. -/
theorem lines_matched {s : System} {events : List Event} (orderly : Orderly start)
    (run : Run (Guarded Spares Step) start events s) :
    Matched s := by
  have kept : ∀ before event after, before.machine.Valid ∧ Expects before ∨
    (∃ reason, before.machine.mode = .stopped reason) →
      Guarded Spares Step before event after → after.machine.Valid ∧ Expects after ∨
          ∃ reason, after.machine.mode = .stopped reason := by
    rintro before event after (⟨valid, expects⟩ | ⟨reason, stopped⟩) ⟨spares, step⟩
    · rcases step.valid_or_full valid with valid' | ⟨_, full⟩
      · exact (step.expects valid expects spares).imp_left fun expects => ⟨valid', expects⟩
      · exact .inr ⟨_, full⟩
    · exact absurd stopped (step.runs reason)
  have begins : Expects start := by
    rw [Expects, orderly.idle]
    exact orderly.matched
  intro idle goes
  rcases run.invariant kept (.inl ⟨Grass.reachable_valid orderly.reachable, begins⟩) with ⟨_,
    expects⟩ | ⟨reason, stopped⟩
  · rwa [Expects, idle] at expects
  · exact absurd stopped (goes reason)

/-! Two readers. -/

private def tenBytes : Files.FileRequest := { type := .read, ino := 0, offset := 0, size := 10, uid := 0, mode := 0 }

/-- The main process creates the terminal server, with pid 2, and two processes that read. -/
private def twoReaders : List Event := [
  .kernel (.call (.create 1 0 0)), .kernel (.call (.recv .request 0 100 0)), .kernel (.round 0 0),
  .kernel (.call (.create 1 0 0)), .kernel (.call (.rpc 2 [] 100 0)), .kernel (.round 0 0),
  .kernel (.call (.create 1 0 0)), .kernel (.call (.rpc 2 [] 100 0)), .kernel (.round 0 0),
  .read tenBytes 3, .kernel (.call (.recv .request 0 100 0)), .read tenBytes 4,
    .kernel (.call (.recv .request 0 100 0))]

private theorem unused_orderly : Orderly unused := ⟨unused_starts.reachable, rfl, .inl rfl⟩

private def aLine : List UInt8 := [UInt8.ofNat 'a'.toNat, newline]

private def twoLines : List Event :=
  twoReaders ++ [.arrive (aLine ++ aLine), .char 0, .char 0, .char 0, .char 0, .serve]

private def waitsBesideLine (s : System) : Bool :=
  match s.chunk, s.machine.mode, s.tty.inputs, s.tty.requests with
  | none, .yielding, _ :: _, _ :: _ => true
  | _, _, _, _ => false

private theorem not_matched {s : System} (waits : waitsBesideLine s = true) : ¬ Matched s := by
  unfold waitsBesideLine at waits
  split at waits
  case h_1 idle yielding line request =>
    intro matched
    rcases matched idle (by rw [yielding]; exact nofun) with none | none
    · exact absurd (line.symm.trans none) (List.cons_ne_nil _ _)
    · exact absurd (request.symm.trans none) (List.cons_ne_nil _ _)
  case h_2 => cases waits

/-- The second line is there, and the second reader waits for it. -/
theorem reader_waits : ¬ ∀ start events s, Orderly start → Run Step start events s → Matched s := by
  intro matched
  have waits : ((twoLines.foldlM System.take unused).any waitsBesideLine) = true := by decide +kernel
  obtain ⟨s, played, waits⟩ := (Option.any_eq_true _ _).mp waits
  exact not_matched waits (matched unused twoLines s unused_orderly (.of_foldlM System.take_step played))

private def sparing (s : System) : Event → Bool
  | .arrive chunk => Answers s.tty.requests (s.tty.inputs ++ endings s.tty.buf chunk)
  | .char _ => s.tty.inputs.isEmpty || s.tty.requests.isEmpty
  | .kernel _ | .serve | .read _ _ => true

private theorem sparing_spares {s : System} {event : Event} (passes : sparing s event = true) : Spares s event := by
  unfold sparing at passes
  unfold Spares
  cases event with
  | arrive chunk => exact .inl (of_decide_eq_true passes)
  | char now =>
    rw [Bool.or_eq_true, List.isEmpty_iff, List.isEmpty_iff] at passes
    exact fun _ _ _ _ => .inr passes
  | kernel event => trivial
  | serve => trivial
  | read req src => trivial

private def firstLine : List Event := twoReaders ++ [.arrive aLine, .char 0, .char 0, .serve]

/-- The first reader gets the line, and the second one goes on waiting. -/
theorem lines_matched_first :
    ∃ s, s.tty.handed.map Handed.data = [aLine] ∧ s.tty.requests.map TtyRequest.src = [4] ∧ Matched s := by
  let guarded (s : System) (event : Event) : Option System := if sparing s event then s.take event else none
  have sound : ∀ {before : System} {event : Event} {after : System}, guarded before event = some after →
      Guarded Spares Step before event after := by
    intro before event after taken
    obtain ⟨passes, moved⟩ := Option.ite_none_right_eq_some.mp taken
    exact ⟨sparing_spares passes, System.take_step moved⟩
  have given : (firstLine.foldlM guarded unused).map
    (fun s => (s.tty.handed.map Handed.data, s.tty.requests.map TtyRequest.src)) =
      some ([aLine], [4]) := by decide +kernel
  obtain ⟨s, played, same⟩ := Option.map_eq_some_iff.mp given
  obtain ⟨handed, requests⟩ := Prod.mk.inj same
  exact ⟨s, handed, requests, lines_matched unused_orderly (.of_foldlM sound played)⟩

end Egos.Tty
