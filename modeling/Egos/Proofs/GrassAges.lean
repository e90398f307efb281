import Egos.Grass.Spawning
import Egos.Library.Leaves
import Egos.Proofs.GrassCalls

/-! What becomes of the processes while none is created: each slot keeps its process until
that is removed, and a process keeps its pid and its uid. Which processes may die meanwhile
is a condition on their uids. -/

namespace Egos.Grass
open Library Library.Prog

structure Ages (doomed : Uid → Prop) (before after : Process) : Prop where
  pid : after.pid = before.pid
  uid : after.uid = before.uid
  free : before.state = .free → after.state = .free
  live : before.state.live = true → after.state.live = true ∨ doomed before.uid

structure Ageing (doomed : Uid → Prop) (before after : Kernel) : Prop where
  pidGen : after.pidGen = before.pidGen
  births : ∀ p, after.births p = before.births p
  ages : ∀ p, Ages doomed (before.procSet p) (after.procSet p)

variable {doomed : Uid → Prop} {k after : Kernel} {p : Slot}

theorem Ages.refl (record : Process) : Ages doomed record record := ⟨rfl, rfl, id, .inl⟩

/-- The record stays in use. -/
theorem Ages.same {before after : Process} (pid : after.pid = before.pid) (uid : after.uid = before.uid)
    (state : after.state = before.state) : Ages doomed before after :=
  ⟨pid, uid, state.trans, fun live => .inl ((congrArg ProcState.live state).trans live)⟩

theorem Ages.used {before after : Process} (pid : after.pid = before.pid) (uid : after.uid = before.uid)
    (used : before.state ≠ .free) (live : after.state.live = true) : Ages doomed before after :=
  ⟨pid, uid, fun free => absurd free used, fun _ => .inl live⟩

theorem Ages.trans {first middle last : Process} (left : Ages doomed first middle) (right : Ages doomed middle last) :
    Ages doomed first last where
  pid := right.pid.trans left.pid
  uid := right.uid.trans left.uid
  free := fun free => right.free (left.free free)
  live := by
    intro live
    rcases left.live live with stays | dies
    · rw [← left.uid]
      exact right.live stays
    · exact .inr dies

instance : Std.Refl (Ageing doomed) := ⟨fun k => ⟨rfl, fun _ => rfl, fun p => .refl (k.procSet p)⟩⟩

instance : Trans (Ageing doomed) (Ageing doomed) (Ageing doomed) :=
  ⟨fun left right => ⟨right.pidGen.trans left.pidGen, fun p => (right.births p).trans (left.births p),
    fun p => (left.ages p).trans (right.ages p)⟩⟩

namespace Ageing

theorem refl (k : Kernel) : Ageing doomed k k := Std.Refl.refl k

theorem trans {first middle last : Kernel} (left : Ageing doomed first middle) (right : Ageing doomed middle last) :
    Ageing doomed first last :=
  Trans.trans left right

/-- One record is replaced. -/
theorem put {record : Process} (pidGen : after.pidGen = k.pidGen)
    (set : after.procSet = (k.put p record).procSet) (births : ∀ q, after.births q = k.births q)
    (ages : Ages doomed (k.procSet p) record) : Ageing doomed k after := by
  refine ⟨pidGen, births, ?_⟩
  rw [set]
  exact Kernel.put_cases (fun q entry => Ages doomed (k.procSet q) entry) ages fun _ _ => .refl _

/-- Something else is recorded than a creation. -/
theorem record {life : Life} (other : ∀ p, life ≠ .created p) : Ageing doomed k (k.record life) :=
  ⟨rfl, fun p => by simp [Kernel.births, Kernel.record, other p], fun p => .refl (k.procSet p)⟩

end Ageing

/-! One rule for each function of the kernel. -/

theorem ensure_tends {condition : Bool} {function text : String} :
    Tends (Ageing doomed) (ensure condition function text) k := by
  cases condition with
  | true => exact .pure () k
  | false => exact .halt _ k

theorem when_tends {condition : Bool} {program : Kern Unit}
    (tends : condition = true → Tends (Ageing doomed) program k) :
    Tends (Ageing doomed) (when condition program) k := by
  cases condition with
  | true => exact tends rfl
  | false => exact .pure () k

/-- An assertion that fails ends the program. -/
theorem assert_tends {α : Type} {condition : Bool} {function text : String} {next : Unit → Kern α}
    (rest : condition = true → Tends (Ageing doomed) (next ()) k) :
    Tends (Ageing doomed) (ensure condition function text >>= next) k := by
  cases condition with
  | true => exact rest rfl
  | false => exact Ageing.refl k

theorem forSlots_tends {body : Slot → Kern Unit} (slots : List Slot) {start : Kernel}
    (each : ∀ p now, Ageing doomed start now → Tends (Ageing doomed) (body p) now) (aged : Ageing doomed start k) :
    Tends (Ageing doomed) (forSlots body slots) k := by
  induction slots generalizing k with
  | nil => exact .pure () k
  | cons p rest ih => exact .seq (each p k aged) fun _ after later => ih (aged.trans later)

theorem setProc_tends {change : Process → Process} (ages : Ages doomed (k.procSet p) (change (k.procSet p))) :
    Tends (Ageing doomed) (setProc p change) k := .modify (Ageing.put rfl rfl (fun _ => rfl) ages)

/-- A change of data that this is not about. -/
theorem edit_tends {change : Process → Process}
    (same : ∀ record, (change record).pid = record.pid ∧ (change record).uid = record.uid ∧
    (change record).state = record.state) : Tends (Ageing doomed) (setProc p change) k :=
  setProc_tends (.same (same _).1 (same _).2.1 (same _).2.2)

theorem change_tends {change : Kernel → Kernel} (pidGen : (change k).pidGen = k.pidGen)
    (procSet : (change k).procSet = k.procSet)
    (lives : (change k).lives = k.lives) :
    Tends (Ageing doomed) (Prog.modify change : Kern Unit) k := by
  refine .modify ⟨pidGen, fun p => congrArg (List.count (Life.created p)) lives, fun p => ?_⟩
  rw [procSet]
  exact .refl _

theorem record_tends {life : Kernel → Life} (other : ∀ p, life k ≠ .created p) :
    Tends (Ageing doomed) (Prog.modify fun k => k.record (life k) : Kern Unit) k := .modify (.record other)

theorem queueAdd_tends : Tends (Ageing doomed) (queueAdd p) k := by
  by_cases inside : (k.procSet p).priority < MAX_PRIORITY
  · apply Tends.returns (queueAdd_run inside)
    exact ⟨rfl, fun _ => rfl, fun q => .refl (k.procSet q)⟩
  · have stuck : queueAdd p k = .halted (.outOfBounds "mtlQueue->q") k := dif_neg inside
    unfold Tends Leaves
    rw [stuck]
    exact Ageing.refl k

theorem procToRunqueue_tends : Tends (Ageing doomed) (procToRunqueue p) k :=
  .get (assert_tends fun _ => queueAdd_tends)

theorem makeRunnable_tends (waiting : (k.procSet p).state = .waiting) : Tends (Ageing doomed) (makeRunnable p) k := by
  apply Tends.returns makeRunnable_run
  exact .put rfl rfl (fun _ => rfl) (.used rfl rfl (by rw [waiting]; exact nofun) rfl)

theorem wakeReceiver_tends (dst : Slot) (mtype : MsgType) : Tends (Ageing doomed) (wakeReceiver dst mtype) k := by
  refine .get (assert_tends fun waiting => .seq (makeRunnable_tends (of_decide_eq_true waiting)) fun _ _ _ => ?_)
  exact .seq (when_tends fun _ => procToRunqueue_tends) fun _ _ _ => edit_tends fun _ => ⟨rfl, rfl, rfl⟩

theorem procWakeup_tends : Tends (Ageing doomed) (procWakeup p) k := by
  refine .get (assert_tends fun waiting => .seq (makeRunnable_tends (of_decide_eq_true waiting)) fun _ _ _ => ?_)
  refine .seq (when_tends fun _ => .seq (edit_tends fun _ => ⟨rfl, rfl, rfl⟩) fun _ _ _ => procToRunqueue_tends)
    fun _ _ _ => ?_
  exact edit_tends fun _ => ⟨rfl, rfl, rfl⟩

theorem procSend_tends (srcPid dstPid : Pid) (mtype : MsgType) (contents : List UInt8) :
    Tends (Ageing doomed) (procSend srcPid dstPid mtype contents) k := by
  refine .get ?_
  cases k.procFind dstPid with
  | none => exact .pure _ k
  | some dst =>
    refine .get ?_
    cases decide ((k.procSet dst).state = .zombie) || (mtype = .reply && notWaitingForReply (k.procSet dst) srcPid) with
    | true => exact .pure _ k
    | false =>
      refine .seq (edit_tends fun _ => ⟨rfl, rfl, rfl⟩) fun _ _ _ => .seq (record_tends fun _ => nofun) fun _ _ _ => ?_
      exact .seq (when_tends fun _ => wakeReceiver_tends dst mtype) fun _ after _ => .pure _ after

theorem failRpc_tends (pid : Pid) (p : Slot) : Tends (Ageing doomed) (failRpc pid p) k :=
  .get (when_tends fun _ => procWakeup_tends)

theorem becomeZombie_tends {status : UInt32} (used : (k.procSet p).state ≠ .free) (dies : doomed (k.procSet p).uid) :
    Tends (Ageing doomed) (becomeZombie p status) k := by
  refine .seq (setProc_tends ⟨rfl, rfl, fun free => absurd free used, fun _ => .inr dies⟩) fun _ _ _ => ?_
  refine .seq (record_tends fun _ => nofun) fun _ killed _ => .seq (.get ?_) fun _ told _ => .get ?_
  · cases killed.procFind (killed.procSet p).owner with
    | none => exact .pure () killed
    | some owner => exact .seq (procSend_tends _ _ _ _) fun _ after _ => .pure () after
  · exact .seq (forSlots_tends procSlots (fun q now _ => failRpc_tends _ q) (.refl told))
      fun _ _ _ => record_tends fun _ => nofun

theorem procTerm_tends {status : UInt32} (used : (k.procSet p).state ≠ .free) (dies : doomed (k.procSet p).uid) :
    Tends (Ageing doomed) (procTerm p status) k := by
  refine .get (assert_tends fun _ => ?_)
  cases decide ((k.procSet p).state = .runnable) with
  | true =>
    exact .bind (change_tends rfl rfl rfl) fun _ _ ran _ => by
      cases ran; exact when_tends fun _ => becomeZombie_tends used dies
  | false => exact when_tends fun _ => becomeZombie_tends used dies

theorem procRelease_tends : Tends (Ageing doomed) (procRelease p) k := by
  by_cases dead : (k.procSet p).state = .zombie
  · apply Tends.returns (procRelease_run dead)
    refine .put rfl rfl (fun q => ?_) ⟨rfl, rfl, fun _ => rfl, fun live => ?_⟩
    · simp [Kernel.births, freed]
    · rw [dead] at live
      cases live
  · refine .get (assert_tends fun zombie => absurd (of_decide_eq_true zombie) dead)

theorem procZap_tends {killer : Option Slot} {status : UInt32}
    (dies : mayZap k killer p = true → doomed (k.procSet p).uid) :
    Tends (Ageing doomed) (procZap killer p status) k := by
  refine .get (when_tends fun allowed => assert_tends fun _ => ?_)
  cases state : (k.procSet p).state with
  | runnable => exact procTerm_tends (by rw [state]; exact nofun) (dies allowed)
  | waiting =>
    exact .seq (procTerm_tends (by rw [state]; exact nofun) (dies allowed)) fun _ _ _ => when_tends
      fun _ => procRelease_tends
  | zombie => exact .pure () k
  | free => exact .halt _ k

/-- Whoever proc_kill kills has a uid that the killer may kill. -/
theorem procKill_tends {killer pid : Pid} {status : UInt32}
    (dies : ∀ slot, k.procFind killer = some slot → ∀ uid, (k.procSet slot).uid = 0 ∨
    (k.procSet slot).uid = uid → doomed uid) :
    Tends (Ageing doomed) (procKill killer pid status) k := by
  have zaps : ∀ slot, k.procFind killer = some slot → ∀ p now, Ageing doomed k now →
      mayZap now (some slot) p = true → doomed (now.procSet p).uid := by
    intro slot found p now aged allowed
    unfold mayZap at allowed
    simp only [Bool.or_eq_true, decide_eq_true_eq] at allowed
    rw [(aged.ages slot).uid] at allowed
    exact dies slot found _ allowed
  refine .get ?_
  cases found : k.procFind killer with
  | none => exact .pure _ k
  | some slot =>
    cases pid == 0 with
    | true =>
      refine .get (.seq (forSlots_tends procSlots (fun p now aged => ?_) (.refl k))
        fun _ after _ => .get (.pure _ after))
      exact .get (when_tends fun _ => procZap_tends (zaps slot found p now aged))
    | false =>
      cases k.procFind pid with
      | none => exact .pure _ k
      | some p => exact .seq (procZap_tends (zaps slot found p k (.refl k))) fun _ after _ => .get (.pure _ after)

/-! Receiving. -/

theorem procRecvGet_tends (mtype : MsgType) (size : Nat) : Tends (Ageing doomed) (procRecvGet mtype size) k := by
  refine .get (assert_tends fun _ => ?_)
  cases (k.current.mboxes mtype).messages with
  | nil => exact .pure _ k
  | cons msg rest => exact .seq (edit_tends fun _ => ⟨rfl, rfl, rfl⟩) fun _ after _ => .pure _ after

theorem procRecv_tends (await : Await) (maxTime : UInt32) (now : Time) :
    Tends (Ageing doomed) (procRecv await maxTime now) k := by
  refine .get (assert_tends fun runnable => assert_tends fun _ => ?_)
  cases (k.current.mboxes await.mtype).messages.isEmpty with
  | true =>
    refine .seq (.returns (procRecvWait_run await maxTime now) ?_) fun _ after _ => .pure _ after
    refine .put rfl rfl (fun _ => rfl) (.used rfl rfl ?_ rfl)
    rw [show (k.procSet k.procCurrent).state = .runnable from of_decide_eq_true runnable]
    exact nofun
  | false => exact assert_tends fun _ => .seq (procRecvGet_tends _ _) fun _ after _ => .pure _ after

theorem resume_tends : Tends (Ageing doomed) resume k := by
  refine .get ?_
  cases k.current.call with
  | none => exact .pure () k
  | some await =>
    refine .seq (edit_tends fun _ => ⟨rfl, rfl, rfl⟩) fun _ _ _ => assert_tends
      fun _ => .seq (procRecvGet_tends _ _) fun reply after _ => ?_
    cases await.rpc with
    | none => exact .pure () after
    | some pid =>
      cases reply with
      | none => exact .pure () after
      | some receipt => exact ensure_tends

/-! Calls, interrupts and rounds. Anyone may die in these. -/

/-- The process is that of before, and so are its pid and its uid. -/
abbrev Endures : Kernel → Kernel → Prop := Ageing fun _ => True

theorem checkPriority_tends (now : Time) : Tends Endures (checkPriority now) k := by
  refine .get ?_
  cases decide (now - k.current.lastRun > k.current.remainQuantum) with
  | false => exact edit_tends fun _ => ⟨rfl, rfl, rfl⟩
  | true =>
    refine .get ?_
    cases decide (loweredPriority (k.procSet _).priority < MAX_PRIORITY) with
    | false => exact .halt _ k
    | true => exact edit_tends fun _ => ⟨rfl, rfl, rfl⟩

def Call.Creates : Call → Prop
  | .create .. => True
  | _ => False

theorem perform_tends (used : k.current.state ≠ .free) {call : Call} (plain : ¬ call.Creates) :
    Tends Endures call.perform k := by
  cases call with
  | recv mtype maxTime size now =>
    cases mtype with
    | request => exact procRecv_tends _ _ _
    | reply => exact .pure _ k
    | event => exact procRecv_tends _ _ _
  | send pid mtype msg =>
    refine .get ?_
    cases mtype with
    | request => exact .pure _ k
    | reply => exact .seq (procSend_tends _ _ _ _) fun _ after _ => .pure _ after
    | event => exact .seq (procSend_tends _ _ _ _) fun _ after _ => .pure _ after
  | rpc pid request repsize now =>
    refine .get ?_
    cases decide (pid = k.current.pid) with
    | true => exact .pure _ k
    | false =>
      refine .seq (procSend_tends _ _ _ _) fun sent after _ => ?_
      cases sent with
      | false => exact .pure _ after
      | true => exact .seq (edit_tends fun _ => ⟨rfl, rfl, rfl⟩) fun _ _ _ => procRecv_tends _ _ _
  | procSend srcPid dstPid mtype contents => exact .seq (procSend_tends _ _ _ _) fun _ after _ => .pure _ after
  | exit status => exact .get (.seq (procTerm_tends used trivial) fun _ after _ => .pure _ after)
  | kill killer pid status => exact procKill_tends fun _ _ _ _ => trivial
  | create owner uid now => exact absurd trivial plain
  | gotInterrupt intr now =>
    refine .seq (checkPriority_tends now) fun _ after _ => ?_
    cases intr <;> exact .pure _ after
  | setInterruptable value => exact .get (.seq (edit_tends fun _ => ⟨rfl, rfl, rfl⟩) fun _ after _ => .pure _ after)
  | shutdown now => exact .seq (change_tends rfl rfl rfl) fun _ after _ => .pure _ after

theorem serve_tends (interrupt : Interrupt) : Tends Endures interrupt.serve k := by
  cases interrupt with
  | procSend srcPid dstPid mtype contents => exact .seq (procSend_tends _ _ _ _) fun _ after _ => .pure _ after
  | killAll killer => exact .seq (procKill_tends fun _ _ _ _ => trivial) fun _ after _ => .pure _ after
  | shutdown now => exact .seq (change_tends rfl rfl rfl) fun _ after _ => .pure _ after

theorem checkTimeout_tends (now : Time) (p : Slot) : Tends Endures (checkTimeout now p) k := by
  refine .get ?_
  cases k.procShuttingDown && (k.procSet p).state ≠ .free with
  | true => exact procZap_tends fun _ => trivial
  | false => exact when_tends fun _ => procWakeup_tends

theorem pickFrom_tends (level : Level) (slots : List Slot) : Tends Endures (pickFrom level slots) k := by
  induction slots generalizing k with
  | nil => exact .pure _ k
  | cons p rest ih =>
    refine .seq (change_tends rfl rfl rfl) fun _ between _ => .get ?_
    cases decide ((between.procSet p).state = .runnable) with
    | true => exact .pure _ between
    | false => exact assert_tends fun _ => .seq procRelease_tends fun _ _ _ => ih

theorem pick_tends (levels : List Level) : Tends Endures (pick levels) k := by
  induction levels generalizing k with
  | nil => exact .pure _ k
  | cons level rest ih =>
    refine .get (.seq (pickFrom_tends level _) fun next after _ => ?_)
    cases next with
    | some next => exact .pure _ after
    | none => exact ih

theorem switchTo_tends (next : Slot) (now : Time) : Tends Endures (switchTo next now) k := by
  refine .get (assert_tends fun _ => assert_tends fun _ => assert_tends
    fun _ => .seq (when_tends fun _ => procToRunqueue_tends) fun _ _ _ => ?_)
  refine .seq (edit_tends fun _ => ⟨rfl, rfl, rfl⟩) fun _ _ _ => .seq (record_tends fun _ => nofun) fun _ _ _ => ?_
  exact .get (assert_tends fun _ => assert_tends fun _ => .seq (when_tends fun _ => procRelease_tends)
    fun _ _ _ => change_tends rfl rfl rfl)

theorem procYieldRound_tends (now later : Time) : Tends Endures (procYieldRound now later) k := by
  refine .get (assert_tends fun _ => ?_)
  cases k.procCurfew ≠ 0 && k.procCurfew < now with
  | true => exact .halt _ k
  | false =>
    refine .seq (forSlots_tends procSlots (fun p _ _ => checkTimeout_tends now p) (.refl k))
      fun _ _ _ => .seq (pick_tends _) fun next last _ => ?_
    refine .get (assert_tends fun _ => ?_)
    cases next with
    | some next => exact .seq (switchTo_tends next later) fun _ _ _ => .seq resume_tends fun _ after _ => .pure _ after
    | none =>
      refine .get ?_
      cases decide (last.current.state = .runnable) with
      | true => exact .seq resume_tends fun _ after _ => .pure _ after
      | false =>
        cases decide (last.procNprocs = 1) && last.procShuttingDown with
        | true => exact .halt _ last
        | false => exact .pure _ last

end Egos.Grass
