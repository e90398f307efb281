import Egos.Proofs.GrassAges
import Egos.Proofs.GrassRuns

/-! What the spawn server does with the rights of others. It knows the sender of a request by
its pid, so the rights are the sender's as long as no pid is given to a new process while a
process or a request still has it. -/

namespace Egos.Grass
open Library Library.Prog
open Spawnsvr (requestSize receiveSize SPAWN_EXEC SPAWN_KILL SPAWN_GETUID)

namespace Kernel

def CanCreate (k : Kernel) (owner : Pid) : Prop :=
  k.procShuttingDown = false ∧ k.procFind owner ≠ none ∧ k.procFree ≠ []

instance (k : Kernel) (owner : Pid) : Decidable (k.CanCreate owner) := inferInstanceAs (Decidable (_ ∧ _ ∧ _))

structure Born (k after : Kernel) (p : Slot) (uid : Uid) : Prop where
  free : (k.procSet p).state = .free
  births : after.births p = k.births p + 1
  pidGen : after.pidGen = k.pidGen + 1
  pid : (after.procSet p).pid = k.pidGen
  uid : (after.procSet p).uid = uid
  others : ∀ q, q ≠ p → after.births q = k.births q ∧ after.procSet q = k.procSet q

end Kernel

variable {k : Kernel}

theorem created_born {p : Slot} {rest : List Slot} {record : Process} (free : (k.procSet p).state = .free)
    (pid : record.pid = k.pidGen) :
    k.Born (created k p rest record) p record.uid := by
  have births : ∀ q, (created k p rest record).births q = k.births q + if q = p then 1 else 0 := by
    intro q
    by_cases self : q = p
    · simp [Kernel.births, created, self]
    · simp [Kernel.births, created, self, Ne.symm self]
  refine ⟨free, ?_, rfl, ?_, ?_, fun q other => ⟨?_, Kernel.put_of_ne other⟩⟩
  · rw [births, if_pos rfl]
  · rw [← pid]
    exact congrArg Process.pid Kernel.put_self
  · exact congrArg Process.uid Kernel.put_self
  · rw [births, if_neg other]
    rfl

/-- A new process has the uid of its parent, or the one asked for if that is the superuser. -/
theorem procCreateUid_born (running : Running k) (owner : Pid) (uid : Uid) (now : Time) :
    procCreateUid owner uid now k = .done .running k ∨ ∃ parent p after, k.CanCreate owner ∧
      k.procFind owner = some parent ∧
      procCreateUid owner uid now k = .done .running after ∧
      k.Born after p (if (k.procSet parent).uid ≠ 0 then (k.procSet parent).uid else uid) := by
  unfold procCreateUid
  rw [Prog.bind_done (get_run k)]
  cases shutting : k.procShuttingDown with
  | true => exact .inl rfl
  | false =>
    cases found : k.procFind owner with
    | none => exact .inl rfl
    | some parent =>
      cases head : k.procFree with
      | nil =>
        have none : ∀ uid, procAlloc owner uid k = .done none k := fun uid => by
          unfold procAlloc
          rw [Prog.bind_done (get_run k), head]
          rfl
        exact .inl (Prog.bind_done (none _))
      | cons p rest =>
        have free : (k.procSet p).state = .free :=
          (running.settled.queues.freeMem p).mp (by rw [head]; exact List.mem_cons_self)
        have different : k.procCurrent ≠ p := by
          rintro rfl
          exact running.settled.alive free
        have ran := start_run running head different owner
          (if (k.procSet parent).uid ≠ 0 then (k.procSet parent).uid else uid) now
        have can : k.CanCreate owner := ⟨shutting, by rw [found]; exact nofun, by rw [head]; exact nofun⟩
        exact .inr ⟨parent, p, _, can, rfl, ran, created_born free rfl⟩

namespace Spawning
variable {s after : System} {event : Event}

def Request.asksExec (request : Request) : Bool :=
  let req := request.contents.take receiveSize
  requestSize ≤ req.length && (field req 0).toNat = SPAWN_EXEC && field req 12 = .ofNat (req.length - requestSize)

namespace System

/-- Whom the event may create a process for. -/
def owner (s : System) : Event → Option Pid
  | .kernel (.call (.create owner _ _)) => some owner
  | .kernel _ => none
  | .spawnInit _ => some 1
  | .serve _ => (s.pending.head?.filter (·.asksExec)).map (·.src)

/-- Neither a process nor a request has the pid that the next process gets. -/
def PidUnused (s : System) : Prop :=
  (∀ p, (s.kernel.procSet p).state ≠ .free → (s.kernel.procSet p).pid ≠ s.kernel.pidGen) ∧
    ∀ request ∈ s.pending, request.src ≠ s.kernel.pidGen

def parent (s : System) : Event → Option Identity
  | .serve _ => s.pending.head?.map (·.sender)
  | event => ((s.owner event).bind s.kernel.procFind).map s.kernel.identity

def handled (s : System) : Event → Option Request
  | .serve _ => s.pending.head?
  | _ => none

end System

/-- No pid is given to a new process while a process or a request still has it. -/
def FreshPid (s : System) (event : Event) : Prop := ∀ owner ∈ s.owner event, s.kernel.CanCreate owner → s.PidUnused

/-- Processes keep their uids, new ones have those of their parents, which are still there,
and a request kills nobody else's processes; but the superuser is free to do so. -/
structure Bounded (s : System) (event : Event) (after : System) : Prop where
  keeps : ∀ process, s.kernel.Present process → after.kernel.Present process →
    (after.kernel.procSet process.slot).uid = (s.kernel.procSet process.slot).uid
  inherits : ∀ p, s.kernel.births p < after.kernel.births p → ∃ parent, s.parent event = some parent ∧
    s.kernel.Present parent ∧
    ((s.kernel.procSet parent.slot).uid ≠ 0 → (after.kernel.procSet p).uid = (s.kernel.procSet parent.slot).uid)
  kills : ∀ request, s.handled event = some request → request.uid ≠ 0 →
    ∀ p, (s.kernel.procSet p).state.live = true → (after.kernel.procSet p).state.live = false →
      (s.kernel.procSet p).uid = request.uid

/-! The handling of a request. -/

theorem spawnProc_cases (request : Request) (now : Time) :
    (request.asksExec = true ∧ ∃ uid, spawnProc request.contents request.src now = procCreateUid request.src uid now) ∨
      (∃ pid status, spawnProc request.contents request.src now = procKill request.src pid status) ∨
      spawnProc request.contents request.src now = pure .running ∨
          ∃ reason, spawnProc request.contents request.src now = .halt reason := by
  unfold spawnProc Request.asksExec
  dsimp only
  split_ifs with short exec kill getuid
  · exact .inr (.inr (.inr ⟨_, rfl⟩))
  · unfold spawnDoExec
    split_ifs with mismatch
    · exact .inr (.inr (.inl rfl))
    · refine .inl ⟨?_, _, rfl⟩
      simp only [not_lt.mp short, exec, not_not.mp mismatch, decide_true, Bool.and_self]
  · exact .inr (.inl ⟨_, _, rfl⟩)
  · exact .inr (.inr (.inl rfl))
  · exact .inr (.inr (.inr ⟨_, rfl⟩))

/-! What a step can do. -/

/-- A stopped machine stays as it is. -/
def System.Sane (s : System) : Prop :=
  match s.machine.mode with
  | .running => Running s.kernel
  | .yielding => Settled s.kernel
  | .stopped _ => True

theorem after_state (outcome : Outcome Kernel Halt Turn) : (Machine.after outcome).kernel = outcome.state := by
  cases outcome <;> rfl

private theorem sane_after {program : Kern Turn} {server : Option Identity} {pending : List Request}
    (ensured : Ensures (fun _ => True) program k Left) :
    System.Sane { machine := .after (program k), server, pending } := by
  cases ran : program k with
  | done turn last =>
    have left := ensured.done ran
    cases turn with
    | running => exact left
    | yielding => exact left
  | halted reason last => exact trivial

private theorem sane_valid {m : Machine} {server : Option Identity} {pending : List Request} (valid : m.Valid) :
    System.Sane { machine := m, server, pending } := by
  obtain ⟨kernel, mode⟩ := m
  cases mode with
  | running => exact valid
  | yielding => exact valid
  | stopped reason => exact trivial

/-- A machine that makes a step has not stopped. -/
theorem System.Sane.valid (sane : s.Sane) {event : Grass.Event} {m : Machine} (step : Grass.Step s.machine event m) :
    s.machine.Valid := by
  obtain ⟨machine, server, pending⟩ := s
  cases step with
  | call => exact sane
  | interrupt => exact sane
  | round => exact sane

private theorem spawnProc_left (running : Running k) (request : Request) (now : Time) :
    Ensures (fun _ => True) (spawnProc request.contents request.src now) k Left := by
  rcases spawnProc_cases request now with ⟨_, uid, exec⟩ | ⟨pid, status, kill⟩ | nothing | ⟨reason, stops⟩
  · rw [exec]
    exact (perform_spec running (.create request.src uid now)).stops_mono fun _ => False.elim
  · rw [kill]
    exact (procKill_spec running request.src pid status).stops_mono fun _ => False.elim
  · rw [nothing]
    exact running
  · rw [stops]
    exact trivial

theorem Step.sane (step : Step s event after) (sane : s.Sane) : after.Sane := by
  cases step with
  | kernel plain step => exact sane_valid (step.valid (sane.valid step))
  | spawnInit none step => exact sane_valid (step.valid (sane.valid step))
  | @serve kernel request rest now machine server pending =>
    have running : Running kernel := by
      unfold System.Sane System.kernel at sane
      rw [machine] at sane
      exact sane
    exact sane_after (spawnProc_left running request now)

/-- The process that has sent a request is the only one that has its pid. -/
structure Named (s : System) : Prop where
  distinct : ∀ p q, (s.kernel.procSet p).state ≠ .free → (s.kernel.procSet q).state ≠ .free →
    (s.kernel.procSet p).pid = (s.kernel.procSet q).pid → p = q
  senders : ∀ request ∈ s.pending, ∀ p, (s.kernel.procSet p).state ≠ .free → (s.kernel.procSet p).pid = request.src →
    s.kernel.identity p = request.sender ∧ (s.kernel.procSet p).uid = request.uid

/-- No process is created, and if the sender of a request is who it seems to be, an ordinary user's
request kills only processes of the user. -/
def Quiet (s : System) (event : Event) (after : Kernel) : Prop :=
  ∃ doomed, Ageing doomed s.kernel after ∧
    (Named s → ∀ request, s.handled event = some request → request.uid ≠ 0 → ∀ uid, doomed uid → uid = request.uid)

/-- A process is created for the owner, with the uid of its parent unless that is the superuser. -/
def Creates (s : System) (event : Event) (after : Kernel) : Prop :=
  ∃ owner parent p uid, s.owner event = some owner ∧ s.kernel.CanCreate owner ∧ s.kernel.procFind owner = some parent ∧
    ((s.kernel.procSet parent).uid ≠ 0 → uid = (s.kernel.procSet parent).uid) ∧ s.kernel.Born after p uid

private theorem create_change (running : Running s.kernel) {owner : Pid} (owned : s.owner event = some owner)
    (uid : Uid) (now : Time) :
    Quiet s event (procCreateUid owner uid now s.kernel).state ∨
        Creates s event (procCreateUid owner uid now s.kernel).state := by
  rcases procCreateUid_born running owner uid now with same | ⟨parent, p, after, can, found, ran, born⟩
  · rw [same]
    exact .inl ⟨fun _ => False, .refl _, fun _ _ _ _ _ => False.elim⟩
  · rw [ran]
    exact .inr ⟨owner, parent, p, _, owned, can, found, fun user => if_pos user, born⟩

private theorem machine_change {m : Machine} {event : Grass.Event} {whole : Event} (valid : s.machine.Valid)
    (step : Grass.Step s.machine event m)
    (owned : ∀ owner uid now, event = .call (.create owner uid now) → s.owner whole = some owner)
    (unhandled : s.handled whole = none) : Quiet s whole m.kernel ∨ Creates s whole m.kernel := by
  have quiet : Endures s.kernel m.kernel → Quiet s whole m.kernel := fun endures =>
    ⟨_, endures, fun _ request handled => absurd (unhandled.symm.trans handled) nofun⟩
  obtain ⟨machine, server, pending⟩ := s
  cases step with
  | @call kernel call =>
    have running : Running kernel := valid
    rw [after_state] at quiet ⊢
    by_cases creates : call.Creates
    · cases call with
      | create owner uid now =>
        exact create_change (s := { machine := ⟨kernel, .running⟩, server, pending }) running
          (owned owner uid now rfl) uid now
      | _ => exact creates.elim
    · exact .inl (quiet (perform_tends running.settled.alive creates).ends)
  | interrupt =>
    rw [after_state] at quiet ⊢
    exact .inl (quiet (serve_tends _).ends)
  | round =>
    rw [after_state] at quiet ⊢
    exact .inl (quiet (procYieldRound_tends _ _).ends)

theorem Step.change (step : Step s event after) (sane : s.Sane) :
    Quiet s event after.kernel ∨ Creates s event after.kernel := by
  cases step with
  | @kernel event m plain step =>
    refine machine_change (sane.valid step) step (fun owner uid now same => ?_) rfl
    subst same
    rfl
  | spawnInit none step =>
    refine machine_change (sane.valid step) step (fun owner uid now same => ?_) rfl
    cases same
    rfl
  | @serve kernel request rest now machine server pending =>
    have here : s.kernel = kernel := congrArg Machine.kernel machine
    have handled : s.handled (.serve now) = some request := congrArg List.head? pending
    have running : Running s.kernel := by
      unfold System.Sane at sane
      rw [machine] at sane
      exact sane
    have nothing : ∀ {k : Kernel}, k = s.kernel → Quiet s (.serve now) k := fun same =>
      ⟨fun _ => False, same ▸ .refl _, fun _ _ _ _ _ => False.elim⟩
    change Quiet s _ (Machine.after (spawnProc request.contents request.src now kernel)).kernel ∨
      Creates s _ (Machine.after (spawnProc request.contents request.src now kernel)).kernel
    rw [after_state, ← here]
    rcases spawnProc_cases request now with ⟨exec, uid, creates⟩ | ⟨pid, status, kills⟩ | same | ⟨reason, stops⟩
    · have owned : s.owner (.serve now) = some request.src := by
        unfold System.owner
        rw [pending]
        simp [exec]
      rw [creates]
      exact create_change running owned uid now
    · rw [kills]
      by_cases allowed : Named s ∧ request.uid ≠ 0
      · obtain ⟨named, user⟩ := allowed
        refine .inl ⟨(· = request.uid), (procKill_tends fun slot found uid allowed => ?_).ends,
          fun _ other same _ uid doomed => ?_⟩
        · obtain ⟨used, pid⟩ := Kernel.procFind_some found
          have uids := (named.senders request (pending ▸ List.mem_cons_self) slot used pid).2
          rw [uids] at allowed
          exact (allowed.resolve_left user).symm
        · cases handled.symm.trans same
          exact doomed
      · refine .inl ⟨fun _ => True, (procKill_tends fun _ _ _ _ => trivial).ends, fun named other same user => ?_⟩
        cases handled.symm.trans same
        exact absurd ⟨named, user⟩ allowed
    · rw [same]
      exact .inl (nothing rfl)
    · rw [stops]
      exact .inl (nothing rfl)

/-- A request that was not pending before has just been sent by the current process. -/
theorem Step.pending (step : Step s event after) (sane : s.Sane) {request : Request}
    (member : request ∈ after.pending) :
    request ∈ s.pending ∨ s.owner event = none ∧ s.kernel.current.state ≠ .free ∧ request.src = s.kernel.current.pid ∧
      request.sender = s.kernel.identity s.kernel.procCurrent ∧ request.uid = s.kernel.current.uid := by
  cases step with
  | @kernel event m plain step =>
    rcases List.mem_append.mp member with old | sent
    · exact .inl old
    · have valid := sane.valid step
      unfold System.sent at sent
      split at sent
      · next pid contents repsize now =>
        obtain ⟨machine, server, waiting⟩ := s
        cases step with
        | @call kernel =>
          have running : Running kernel := valid
          split at sent
          · rw [List.mem_singleton.mp sent]
            exact .inr ⟨rfl, running.settled.alive, rfl, rfl, rfl⟩
          · cases sent
      · cases sent
  | spawnInit none step => exact .inl member
  | serve machine server pending => exact .inl (pending ▸ List.mem_cons_of_mem _ member)

theorem Step.named (fresh : FreshPid s event) (step : Step s event after) (sane : s.Sane) (named : Named s) :
    Named after := by
  rcases step.change sane with ⟨doomed, aged, _⟩ | ⟨owner, parent, p, uid, owned, can, _, _, born⟩
  · have used : ∀ q, (after.kernel.procSet q).state ≠ .free → (s.kernel.procSet q).state ≠ .free :=
      fun q used free => used ((aged.ages q).free free)
    constructor
    · intro p q here there same
      rw [(aged.ages p).pid, (aged.ages q).pid] at same
      exact named.distinct p q (used p here) (used q there) same
    · intro request member q here same
      rw [(aged.ages q).pid] at same
      unfold Kernel.identity
      rw [aged.births q, (aged.ages q).uid]
      rcases step.pending sane member with old | ⟨_, alive, src, sender, uid⟩
      · exact named.senders request old q (used q here) same
      · have self : q = s.kernel.procCurrent := named.distinct q _ (used q here) alive (same.trans src)
        rw [sender, uid, self]
        exact ⟨rfl, rfl⟩
  · obtain ⟨unused, requests⟩ := fresh owner owned can
    have old : ∀ q, q ≠ p → after.kernel.procSet q = s.kernel.procSet q := fun q other => (born.others q other).2
    constructor
    · intro a b here there same
      by_cases left : a = p
      · by_cases right : b = p
        · exact left.trans right.symm
        · rw [left, born.pid, old b right] at same
          exact absurd same.symm (unused b (old b right ▸ there))
      · by_cases right : b = p
        · rw [right, born.pid, old a left] at same
          exact absurd same (unused a (old a left ▸ here))
        · rw [old a left] at here same
          rw [old b right] at there same
          exact named.distinct a b here there same
    · intro request member q here same
      rcases step.pending sane member with waiting | ⟨none, _⟩
      · by_cases new : q = p
        · rw [new, born.pid] at same
          exact absurd same.symm (requests request waiting)
        · rw [old q new] at here same ⊢
          unfold Kernel.identity
          rw [(born.others q new).1]
          exact named.senders request waiting q here same
      · cases none.symm.trans owned

/-! What a step may not do. -/

theorem Step.bounded (step : Step s event after) (sane : s.Sane) (named : Named s) : Bounded s event after := by
  rcases step.change sane with ⟨doomed, aged, kills⟩ | ⟨owner, parent, p, uid, owned, can, found, inherits, born⟩
  · refine ⟨fun process _ _ => (aged.ages process.slot).uid, fun p new => ?_,
      fun request handled user p lives dead => ?_⟩
    · rw [aged.births p] at new
      exact absurd new (lt_irrefl _)
    · refine kills named request handled user _ (((aged.ages p).live lives).resolve_left fun live => ?_)
      rw [dead] at live
      cases live
  · have old : ∀ q, (s.kernel.procSet q).state ≠ .free → q ≠ p := by
      rintro q used rfl
      exact used born.free
    refine ⟨fun process here _ => ?_, fun q new => ?_, fun request _ _ q lives dead => ?_⟩
    · rw [(born.others process.slot (old _ here.1)).2]
    · have self : q = p := by
        by_contra other
        rw [(born.others q other).1] at new
        exact lt_irrefl _ new
      obtain ⟨used, pid⟩ := Kernel.procFind_some found
      refine ⟨s.kernel.identity parent, ?_, ⟨used, rfl⟩, fun user => self ▸ born.uid.trans (inherits user)⟩
      have chosen : ((s.owner event).bind s.kernel.procFind).map s.kernel.identity =
          some (s.kernel.identity parent) := by
        rw [owned, Option.bind_some, found, Option.map_some]
      cases event with
      | kernel event => exact chosen
      | spawnInit now => exact chosen
      | serve now =>
        obtain ⟨request, asked, src⟩ := Option.map_eq_some_iff.mp owned
        obtain ⟨head, _⟩ := Option.filter_eq_some_iff.mp asked
        have member : request ∈ s.pending := List.mem_of_head? head
        rw [(named.senders request member parent used (pid.trans src.symm)).1]
        exact congrArg (Option.map Request.sender) head
    · have used : (s.kernel.procSet q).state ≠ .free := by
        intro free
        rw [free] at lives
        cases lives
      rw [(born.others q (old q used)).2, lives] at dead
      cases dead

instance (s : System) : Decidable s.PidUnused := inferInstanceAs (Decidable (_ ∧ _))

-- not by going through all the pids
instance (s : System) (event : Event) : Decidable (FreshPid s event) :=
  Option.decidableForallMem (p := fun owner => s.kernel.CanCreate owner → s.PidUnused) (s.owner event)

def System.take (s : System) : Event → Option System
  | .kernel event =>
    if Plain event then (s.machine.take event).map
      fun m => { s with machine := m, pending := s.pending ++ s.sent event } else none
  | .spawnInit now =>
    if s.server = none then
      (s.machine.take (.call (.create 1 0 now))).map
        fun m => { s with machine := m, server := newest s.kernel m.kernel }
    else none
  | .serve now =>
    match s.machine.mode, s.pending with
    | .running, request :: rest =>
      if s.server = some (s.kernel.identity s.kernel.procCurrent) then
        some { s with machine := .after (spawnProc request.contents request.src now s.kernel), pending := rest }
      else none
    | _, _ => none

theorem System.take_step (taken : s.take event = some after) : Step s event after := by
  obtain ⟨machine, server, pending⟩ := s
  cases event with
  | kernel event =>
    simp only [System.take] at taken
    split at taken
    · next plain =>
      obtain ⟨m, step, rfl⟩ := Option.map_eq_some_iff.mp taken
      exact .kernel plain (Machine.take_step step)
    · cases taken
  | spawnInit now =>
    simp only [System.take] at taken
    split at taken
    · next none =>
      obtain ⟨m, step, rfl⟩ := Option.map_eq_some_iff.mp taken
      exact .spawnInit none (Machine.take_step step)
    · cases taken
  | serve now =>
    obtain ⟨kernel, mode⟩ := machine
    cases mode with
    | yielding => cases taken
    | stopped reason => cases taken
    | running =>
      cases pending with
      | nil => cases taken
      | cons request rest =>
        simp only [System.take] at taken
        split at taken
        · next current =>
          cases taken
          exact .serve rfl current rfl
        · cases taken

/-! Whole runs. -/

theorem begun_named : begun.Sane ∧ Named begun := by
  refine ⟨sane_valid booted_valid, ?_, nofun⟩
  have only : ∀ p, (booted.kernel.procSet p).state ≠ .free → p = ⟨0, slot_zero⟩ := by decide +kernel
  intro p q here there _
  rw [only p here, only q there]

/-- As long as no pid is given to a new process while a process or a pending request has it,
user identifiers do not escalate. -/
theorem uids_bounded {events : List Event} (run : Run (Guarded FreshPid Step) begun events s)
    (next : Guarded FreshPid Step s event after) :
    Bounded s event after := by
  have kept : ∀ before event after, before.Sane ∧ Named before → Guarded FreshPid Step before event after →
      after.Sane ∧ Named after :=
    fun _ _ _ named step => ⟨step.2.sane named.1, step.2.named step.1 named.1 named.2⟩
  obtain ⟨sane, named⟩ := run.invariant kept begun_named
  exact next.2.bounded sane named

/-! A run that can be computed. -/

private def freshTake (s : System) (event : Event) : Option System := if FreshPid s event then s.take event else none

private theorem freshTake_step (taken : freshTake s event = some after) : Guarded FreshPid Step s event after := by
  unfold freshTake at taken
  split at taken
  · next fresh => exact ⟨fresh, System.take_step taken⟩
  · cases taken

private def execOf (uid : Uid) : List UInt8 :=
  bytesOf 1 ++ bytesOf 0 ++ bytesOf 0 ++ bytesOf 0 ++ bytesOf 0 ++ bytesOf uid

/-- Main has a process of user 7 made, which asks for a process of the superuser. -/
private def asking : List Event := [
  .spawnInit 0, .kernel (.call (.recv .request 0 receiveSize 0)), .kernel (.round 0 0),
    .kernel (.call (.rpc 2 (execOf 7) 8 0)), .kernel (.round 0 0),
  .serve 0, .kernel (.call (.rpc 2 (execOf 0) 8 0)), .kernel (.round 0 0)]

/-- The new process is one of user 7. -/
theorem uids_bounded_asking : ∃ s after, Run (Guarded FreshPid Step) begun asking s ∧ Step s (.serve 0) after ∧
    (after.kernel.current.pid = 4 ∧ after.kernel.current.uid = 7) ∧ Bounded s (.serve 0) after := by
  have plays : ((asking.foldlM freshTake begun).bind fun s => (freshTake s (.serve 0)).map (Prod.mk s)).any
      (fun (_, after) => after.kernel.current.pid = 4 ∧ after.kernel.current.uid = 7) = true := by decide +kernel
  obtain ⟨⟨s, after⟩, played, user⟩ := (Option.any_eq_true _ _).mp plays
  obtain ⟨waits, taken, next⟩ := Option.bind_eq_some_iff.mp played
  obtain ⟨last, served, same⟩ := Option.map_eq_some_iff.mp next
  cases same
  have run : Run (Guarded FreshPid Step) begun asking s := .of_foldlM freshTake_step taken
  exact ⟨s, after, run, (freshTake_step served).2, of_decide_eq_true user, uids_bounded run (freshTake_step served)⟩

end Spawning
end Egos.Grass
