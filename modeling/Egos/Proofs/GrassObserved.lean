import Egos.Library.Leaves
import Egos.Proofs.GrassRuns

/-! Every step of the kernel is one that the observer of the record allows, also the
last one before the system stops. -/

namespace Egos.Grass
open Library Library.Prog

variable {k : Kernel}

/-- For the record it does not matter whether an assertion fails. -/
private theorem ensure_any {α : Type} {condition : Bool} {function text : String} {next : Unit → Kern α}
    {post : α → Kernel → Prop}
    (rest : Ensures (fun _ => True) (next ()) k post) :
    Ensures (fun _ => True) (ensure condition function text >>= next) k post := by
  cases condition with
  | true => exact rest
  | false => exact trivial

private theorem ensure_leaves {α : Type} {condition : Bool} {function text : String} {next : Unit → Kern α}
    {post : α → Kernel → Prop}
    {stop : Halt → Kernel → Prop} (met : condition = true) (rest : Leaves (next ()) k post stop) :
    Leaves (ensure condition function text >>= next) k post stop := by
  subst met
  exact rest

private abbrev LeavesObserved (program : Kern Turn) (k : Kernel) : Prop :=
  Leaves program k (fun _ after => Observed after) fun _ after => Observed after

theorem Watched.created {after : Kernel} {cpu : Option Slot} {p : Slot} (watched : Watched cpu k)
    (free : (k.procSet p).state = .free)
    (lives : after.lives = k.lives ++ [.created p, .switched p]) (here : (after.procSet p).state = .runnable)
    (others : ∀ q, q ≠ p → after.procSet q = k.procSet q) : Watched (some p) after := by
  refine watched.extend lives ?_
  have first : (k.watch cpu).see (.created p) = some ((k.watch cpu).enter p .live) :=
    if_pos (congrArg ProcState.phase free)
  have entered : (k.watch cpu).enter p .live = after.watch cpu :=
    watch_enter (congrArg ProcState.phase here)
      fun q other => congrArg (ProcState.phase ∘ Process.state) (others q other)
  rw [List.foldlM_cons, first, entered]
  rfl

private theorem procSend_observed (settled : Settled k) (observed : Observed k) (srcPid dstPid : Pid) (mtype : MsgType)
    (contents : List UInt8) : Ensures never (procSend srcPid dstPid mtype contents) k fun _ after =>
      Observed after ∧ Evolves Wakes k after := by
  apply ((procSend_spec settled).both (procSend_lives k srcPid dstPid mtype contents)).weaken
  rintro sent after ⟨⟨kept, evolves, _⟩, lives⟩
  exact ⟨evolves.observed (observed.sent evolves lives), evolves⟩

private theorem procRecv_observed (runnable : k.current.state = .runnable) (observed : Observed k)
    (await : Await) (maxTime : UInt32)
    (now : Time) : Ensures (fun _ => True) (procRecv await maxTime now) k fun _ after => Observed after := by
  unfold procRecv
  apply Ensures.get
  apply ensure_any
  apply ensure_any
  cases (k.current.mboxes await.mtype).messages.isEmpty with
  | true =>
    apply Ensures.bind_returns (procRecvWait_run await maxTime now)
    refine observed.same rfl fun q => ?_
    refine Kernel.put_cases (fun q entry => entry.state.phase = (k.procSet q).state.phase) ?_ (fun _ _ => rfl) q
    exact (congrArg ProcState.phase runnable).symm
  | false =>
    apply ensure_any
    apply Ensures.bind ((procRecvGet_outline state_blind await.mtype await.size).ensures k)
    exact fun _ after same => observed.outline same

private theorem sysRpc_observed (running : Running k) (observed : Observed k) (pid : Pid) (request : List UInt8)
    (repsize : Nat)
    (now : Time) : Ensures (fun _ => True) (sysRpc pid request repsize now) k fun _ after => Observed after := by
  unfold sysRpc
  apply Ensures.get
  cases decide (pid = k.current.pid) with
  | true => exact observed
  | false =>
    have sends := procSend_observed running.settled observed k.current.pid pid .request request
    apply Ensures.bind (sends.stops_mono fun _ => False.elim)
    rintro sent after ⟨seen, evolves⟩
    cases sent with
    | false => exact seen
    | true =>
      have sets : Keeps (Kernel.outline Process.state) (setProc k.procCurrent fun p => { p with server := pid }) :=
        setProc_outline fun _ => rfl
      apply Ensures.bind (sets.ensures after)
      intro _ called same
      have states := congrArg (fun outline => outline.2.2 called.procCurrent) same
      have current := congrArg (fun outline => outline.2.1) same
      apply procRecv_observed _ (seen.outline same)
      have runnable : (after.procSet after.procCurrent).state = .runnable := by
        have state := evolves.state k.procCurrent
        rw [evolves.current]
        exact (state.runnable running.runnable)
      refine states.trans ?_
      rw [show called.procCurrent = after.procCurrent from current]
      exact runnable

private theorem procCreateUid_observed (running : Running k) (observed : Observed k) (owner : Pid) (uid : Uid)
    (now : Time) :
    Ensures (fun _ => True) (procCreateUid owner uid now) k fun _ after => Observed after := by
  unfold procCreateUid
  apply Ensures.get
  cases k.procShuttingDown with
  | true => exact observed
  | false =>
    cases k.procFind owner with
    | none => exact observed
    | some parent =>
      cases head : k.procFree with
      | nil =>
        have none : ∀ uid, procAlloc owner uid k = .done none k := by
          intro uid
          unfold procAlloc
          rw [Prog.bind_done (get_run k), head]
          rfl
        exact Ensures.bind_returns (none _) observed
      | cons p rest =>
        have free : (k.procSet p).state = .free :=
          (running.settled.queues.freeMem p).mp (by rw [head]; exact List.mem_cons_self)
        have different : k.procCurrent ≠ p := by
          rintro rfl
          exact running.settled.alive free
        apply Ensures.returns (start_run running head different owner _ now)
        apply Watched.created observed free rfl
        · exact congrArg Process.state Kernel.put_self
        · exact fun q other => Kernel.put_of_ne other

/-- A call of the running process. -/
theorem perform_observed (running : Running k) (observed : Observed k) (call : Call) :
    Ensures (fun _ => True) call.perform k fun _ after => Observed after := by
  have sends : ∀ srcPid dstPid mtype contents, Ensures (fun _ => True)
      (do let _ ← procSend srcPid dstPid mtype contents; pure Turn.running : Kern Turn) k
      fun _ after => Observed after := by
    intro srcPid dstPid mtype contents
    have sent := procSend_observed running.settled observed srcPid dstPid mtype contents
    exact Ensures.bind (sent.stops_mono fun _ => False.elim) fun _ after kept => kept.1
  cases call with
  | recv mtype maxTime size now =>
    cases mtype with
    | request => exact procRecv_observed running.runnable observed _ maxTime now
    | reply => exact observed
    | event => exact procRecv_observed running.runnable observed _ maxTime now
  | send pid mtype msg =>
    cases mtype with
    | request => exact observed
    | reply => exact sends k.current.pid pid .reply msg
    | event => exact sends k.current.pid pid .event msg
  | rpc pid request repsize now => exact sysRpc_observed running observed pid request repsize now
  | procSend srcPid dstPid mtype contents => exact sends srcPid dstPid mtype contents
  | exit status =>
    have dies := procTerm_watched running.settled (.inl ⟨running.runnable, rfl⟩) observed status
    apply Ensures.get
    apply Ensures.bind (dies.stops_mono fun _ => False.elim)
    rintro _ after ⟨⟨_, evolves, _⟩, watched⟩
    exact evolves.observed watched
  | kill killer pid status =>
    exact (procKill_observed running.settled observed killer pid status).stops_mono fun _ => False.elim
  | create owner uid now => exact procCreateUid_observed running observed owner uid now
  | gotInterrupt intr now =>
    apply Ensures.bind ((checkPriority_outline now).ensures k)
    intro _ after same
    have seen := observed.outline same
    cases intr with
    | pageFault => exact seen
    | syscall => exact seen
    | clock => exact seen
    | io => exact seen
  | setInterruptable value =>
    apply Ensures.get
    have sets : Keeps (Kernel.outline Process.state) (setProc k.procCurrent
      fun p => { p with interruptable := value }) := setProc_outline fun _ => rfl
    apply Ensures.bind (sets.ensures k)
    exact fun _ after same => observed.outline same
  | shutdown now => exact observed.same rfl fun _ => rfl

/-- A device handler inside proc_yield. -/
theorem serve_observed (settled : Settled k) (observed : Observed k) (interrupt : Interrupt) :
    Ensures never interrupt.serve k fun _ after => Observed after := by
  cases interrupt with
  | procSend srcPid dstPid mtype contents =>
    exact Ensures.bind (procSend_observed settled observed srcPid dstPid mtype contents) fun _ after kept => kept.1
  | killAll killer =>
    exact Ensures.bind (procKill_observed settled observed killer 0 STAT_INTR) fun _ after kept => kept
  | shutdown now => exact observed.same rfl fun _ => rfl

private theorem checkTimeout_observed (now : Time) (p : Slot) (k : Kernel) (kept : Settled k ∧ Observed k) :
    Ensures never (checkTimeout now p) k fun _ after => Settled after ∧ Observed after := by
  unfold checkTimeout
  apply Ensures.get
  cases down : k.procShuttingDown && decide ((k.procSet p).state ≠ .free) with
  | true =>
    simp only [Bool.and_eq_true, decide_eq_true_eq] at down
    apply ((procZap_spec kept.1 down.2).both (procZap_observed kept.1 kept.2 down.2)).weaken
    exact fun _ _ done => ⟨done.1.settled, done.2⟩
  | false =>
    cases timeout : decide ((k.procSet p).state = .waiting) && (k.procSet p).alarmSet && decide
      ((k.procSet p).exptime ≤ now) with
    | false => exact kept
    | true =>
      simp only [Bool.and_eq_true, decide_eq_true_eq] at timeout
      apply ((procWakeup_spec kept.1 timeout.1.1).both ((procWakeup_keeps lives_quiet p).ensures k)).weaken
      rintro _ after ⟨⟨held, evolves, _⟩, lives⟩
      exact ⟨settle held, evolves.observed (kept.2.wakes lives evolves)⟩

/-- The CPU is another's before the slot of the old process is free. -/
theorem switched_observed {next : Slot} (picked : Picked next k) (observed : Observed k) (now : Time) :
    Observed (switched k next now) := by
  have ready := picked_scheduled picked now
  have current := scheduled_current picked.different now
  have states : ∀ p, ((scheduled k next now).procSet p).state.phase = (k.procSet p).state.phase :=
    Kernel.put_cases (fun p entry => entry.state.phase = (k.procSet p).state.phase) rfl fun _ _ => rfl
  have seen : Watched (some next) (scheduled k next now) := observed.switched rfl states
  unfold switched
  cases state : k.current.state with
  | runnable => exact seen.same rfl fun _ => rfl
  | waiting => exact seen.same rfl fun _ => rfl
  | free => exact seen.same rfl fun _ => rfl
  | zombie =>
    have dead : (scheduled k next now).current.state = .zombie := (congrArg Process.state current).trans state
    have apart : some next ≠ some k.procCurrent := fun same => picked.different (Option.some.inj same)
    have released := (procRelease_watched ready.sound dead ready.sound.aside apart).done (procRelease_run dead)
    exact (released seen).same rfl fun _ => rfl

private theorem noneFound_outline : Keeps (Kernel.outline Process.state) noneFound := by
  refine .get fun k => ?_
  cases decide (k.current.state = .runnable) with
  | true => exact .bind (resume_outline state_blind) fun _ => .pure _
  | false =>
    cases decide (k.procNprocs = 1) && k.procShuttingDown with
    | true => exact .halt _
    | false => exact .pure _

private theorem observed_outline {program : Kern Turn} (keeps : Keeps (Kernel.outline Process.state) program)
    (observed : Observed k) :
    LeavesObserved program k :=
  Leaves.weaken (keeps k) (fun _ _ same => observed.outline same) fun _ _ same => observed.outline same

/-- A round of proc_yield, which may be the last one. -/
private theorem procYieldRound_observed (settled : Settled k) (observed : Observed k) (now later : Time) :
    LeavesObserved (procYieldRound now later) k := by
  have used : ∀ {k : Kernel}, Settled k → decide (k.procNprocs ≠ 0) = true := fun settled =>
    decide_eq_true (ne_of_gt (settled.queues.nprocs_pos settled.alive))
  unfold procYieldRound
  apply Leaves.get
  apply ensure_leaves (used settled)
  cases decide (k.procCurfew ≠ 0) && decide (k.procCurfew < now) with
  | true => exact observed
  | false =>
    apply Leaves.after (forSlots_spec (fun p k kept => checkTimeout_observed now p k kept) procSlots
      ⟨settled, observed⟩)
    rintro _ between ⟨kept, seen⟩
    apply Leaves.after (pick_spec (List.finRange MAX_PRIORITY) kept)
    rintro next after ⟨searched, sweeps, _⟩
    have watched := sweeps.observed seen
    apply Leaves.get
    cases next with
    | none =>
      apply ensure_leaves (used searched)
      exact observed_outline noneFound_outline watched
    | some next =>
      have picked : Picked next after := searched
      apply ensure_leaves (decide_eq_true (ne_of_gt (picked.sound.queues.nprocs_pos picked.sound.alive)))
      by_cases named : (after.procSet next).pid = after.current.pid
      · exact Leaves.bind_halts (switchTo_stops picked named later) watched
      · have switches : Ensures never (switchTo next later) after fun _ final => Observed final :=
          Ensures.returns (switchTo_run picked named later) (switched_observed picked watched later)
        apply Leaves.after switches
        intro _ last final
        exact observed_outline (.bind (resume_outline state_blind) fun _ => .pure _) final

private theorem observed_after {program : Kern Turn} (left : LeavesObserved program k) :
    Observed (Machine.after (program k)).kernel := by
  unfold LeavesObserved Leaves at left
  cases ran : program k with
  | done turn after => rw [ran] at left; exact left
  | halted reason after => rw [ran] at left; exact left

private theorem total_leaves {program : Kern Turn} (ensured : Ensures never program k fun _ after => Observed after) :
    LeavesObserved program k :=
  (Leaves.of_ensures ensured).weaken (fun _ _ seen => seen) fun _ _ => False.elim

theorem Step.observed {before after : Machine} {event : Event} (step : Step before event after) (valid : before.Valid)
    (observed : Observed before.kernel) : Observed after.kernel := by
  cases step with
  | @call kernel call =>
    have runs : Running kernel := valid
    have performs := (perform_spec runs call).both (perform_observed runs observed call)
    exact observed_after (total_leaves (performs.weaken fun _ _ done => done.2))
  | interrupt => exact observed_after (total_leaves (serve_observed valid observed _))
  | round => exact observed_after (procYieldRound_observed valid observed _ _)

theorem booted_observed : Observed booted.kernel := by
  have nothing : Watched none noProcesses := rfl
  refine nothing.created (p := ⟨0, slot_zero⟩) rfl rfl rfl fun q other => Kernel.put_of_ne other

theorem lives_observed {m : Machine} (reachable : Reachable m) : Observed m.kernel := by
  obtain ⟨events, run⟩ := reachable
  have kept : ∀ (before : Machine) (event : Event) (after : Machine), before.Valid ∧ Observed before.kernel →
    Step before event after →
      after.Valid ∧ Observed after.kernel := fun _ _ _ held step => ⟨step.valid held.1, step.observed held.1 held.2⟩
  exact (run.invariant kept ⟨booted_valid, booted_observed⟩).2

/-- In every run, whatever ends it, the record of the lives of the processes is one that
the observer allows, and it agrees with the process table. -/
theorem lives_allowed {m : Machine} (reachable : Reachable m) :
    m.kernel.lives.foldlM Watch.see .start = some (m.kernel.watch (some m.kernel.procCurrent)) :=
  lives_observed reachable

/-- The main process creates another one, which exits, and has the CPU again. -/
private def orphaned : List Event := [.call (.create 1 0 0), .call (.exit 7), .round 0 0]

private def mainSlot : Slot := ⟨0, slot_zero⟩

private def childSlot : Slot := ⟨1, slot_one⟩

theorem lives_allowed_exit : ∃ m : Machine, m.kernel.lives = [.created mainSlot, .switched mainSlot, .created childSlot,
      .switched childSlot, .died childSlot 2 7 (some mainSlot),
        .put mainSlot .event { src := 2, contents := msgEvent 2 7 },
      .buried childSlot, .switched mainSlot, .released childSlot false] ∧
    m.kernel.lives.foldlM Watch.see .start = some (m.kernel.watch (some m.kernel.procCurrent)) := by
  have played : (booted.play orphaned).map (·.kernel.lives) =
    some [.created mainSlot, .switched mainSlot, .created childSlot,
      .switched childSlot, .died childSlot 2 7 (some mainSlot),
        .put mainSlot .event { src := 2, contents := msgEvent 2 7 },
      .buried childSlot, .switched mainSlot, .released childSlot false] := by decide +kernel
  obtain ⟨m, ran, lives⟩ := Option.map_eq_some_iff.mp played
  exact ⟨m, lives, lives_allowed ⟨orphaned, Machine.play_run ran⟩⟩

end Egos.Grass
