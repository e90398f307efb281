import Egos.Grass.Machine
import Egos.Proofs.GrassDeath

/-! Every call of a running process, and every interrupt, keeps the kernel sound. -/

namespace Egos.Grass
open Library Library.Prog

variable {k : Kernel}

namespace Running

theorem live (running : Running k) : k.current.state.live = true := by
  rw [running.runnable]
  rfl

theorem consistent (running : Running k) : Consistent k.current := running.settled.consistent k.procCurrent

end Running

/-- The current process goes on with a record of the same name. -/
private theorem running_edit (settled : Settled k) (runnable : k.current.state = .runnable) {record : Process}
    (state : record.state = .runnable) (priority : record.priority < MAX_PRIORITY) (pid : record.pid = k.current.pid)
    (call : record.call = none) (consistent : Consistent record) : Running (k.put k.procCurrent record) := by
  have here : (k.put k.procCurrent record).current = record := Kernel.put_self
  refine ⟨?_, by rw [here]; exact state, by rw [here]; exact call⟩
  refine settled.edit (state.trans runnable.symm) (.inl rfl) priority pid consistent ?_
  rw [state]
  exact nofun

/-- The current process gives up the CPU to wait for a message. -/
theorem procRecvWait_run (await : Await) (maxTime : UInt32) (now : Time) :
    procRecvWait await maxTime now k = .done () { k.put k.procCurrent
      { k.current.setMbox await.mtype fun mq => { mq with waiting := true } with
        state := .waiting
        call := some await
        exptime := if maxTime ≠ 0 then now + maxTime.toUInt64 else k.current.exptime
        alarmSet := if maxTime ≠ 0 then true else k.current.alarmSet } with
      procNrunnable := k.procNrunnable - 1 } := by
  unfold procRecvWait Grass.setProc
  by_cases forever : maxTime = 0
  · simp only [bind, get_run, modify_run, Kernel.setProc, Kernel.put, Function.update_self,
      Function.update_idem, forever,
      when, ne_eq, not_true_eq_false, decide_false, if_false, pure_run, Kernel.current, Process.setMbox]
  · simp only [bind, get_run, modify_run, Kernel.setProc, Kernel.put, Function.update_self,
      Function.update_idem, forever,
      when, ne_eq, not_false_eq_true, decide_true, if_true, Kernel.current, Process.setMbox]

/-- A reply is waited for only from a server that is alive. -/
private def Serves (k : Kernel) (await : Await) : Prop :=
  await.mtype = .reply → ∃ s, (k.procSet s).state.live = true ∧ (k.procSet s).pid = k.current.server

private theorem settled_waiting (running : Running k) {await : Await} {record : Process} {after : Kernel}
    (serves : Serves k await) (consistent : Consistent record)
    (set : after.procSet = (k.put k.procCurrent record).procSet)
    (state : record.state = .waiting) (priority : record.priority = k.current.priority)
    (pid : record.pid = k.current.pid)
    (server : record.server = k.current.server) (waits : (record.mboxes .reply).waiting = true → await.mtype = .reply)
    (current : after.procCurrent = k.procCurrent) (queues : after.mtlQueue = k.mtlQueue)
    (free : after.procFree = k.procFree)
    (nprocs : after.procNprocs = k.procNprocs) (nrunnable : after.procNrunnable = k.procNrunnable - 1) :
    Settled after := by
  have use : record.state = .free ↔ (k.procSet k.procCurrent).state = .free := by
    have runnable := running.runnable
    unfold Kernel.current at runnable
    rw [state, runnable]
    exact ⟨nofun, nofun⟩
  have counts : after.procNrunnable = k.procNrunnable - weight isRunnable
      (k.procSet k.procCurrent) + weight isRunnable record := by
    have before : isRunnable (k.procSet k.procCurrent) = true := decide_eq_true running.runnable
    have now : isRunnable record = false := by unfold isRunnable; rw [state]; rfl
    rw [nrunnable]
    unfold weight
    rw [before, now]
    simp
  have here : after.procSet k.procCurrent = record := by rw [set, Kernel.put_self]
  have others : ∀ q, q ≠ k.procCurrent → after.procSet q = k.procSet q := by
    intro q other
    rw [set, Kernel.put_of_ne other]
  have inside : (record.priority) < MAX_PRIORITY := by rw [priority]; exact running.settled.priority k.procCurrent
  have listed := running.settled.queues.replace set (.inl rfl) inside use queues free nprocs counts
  have servers : ∀ {pid : Pid}, (∃ s, (k.procSet s).state.live = true ∧ (k.procSet s).pid = pid) →
      ∃ s, (after.procSet s).state.live = true ∧ (after.procSet s).pid = pid := by
    rintro _ ⟨s, live, named⟩
    refine ⟨s, ?_⟩
    by_cases same : s = k.procCurrent
    · subst same; rw [here, state]; exact ⟨rfl, pid.trans named⟩
    · rw [others s same]; exact ⟨live, named⟩
  unfold Settled
  rw [current]
  refine ⟨listed, current, ?_, ?_, ?_, ?_⟩
  · intro q member _
    rw [current]
    exact member
  · rw [set]
    exact Kernel.put_cases (fun _ entry => Consistent entry) consistent fun q _ => running.settled.consistent q
  · intro q waiting waited
    refine .inr ?_
    by_cases same : q = k.procCurrent
    · subst same
      rw [here] at waited ⊢
      rw [server]
      exact servers (serves (waits waited))
    · rw [others q same] at waiting waited ⊢
      exact servers ((running.settled.served q waiting waited).resolve_left nofun)
  · unfold Kernel.current
    rw [current, here, state]
    exact nofun

theorem procRecvGet_run {mtype : MsgType} {size : Nat} (runnable : k.current.state = .runnable) :
    procRecvGet mtype size k = match (k.current.mboxes mtype).messages with
      | [] => .done none k
      | msg :: rest => .done (some (msg.copy size))
          (k.put k.procCurrent (k.current.setMbox mtype (·.returnHead rest (msg.copy size)))) := by
  unfold procRecvGet
  rw [Prog.bind_done (get_run k)]
  simp only [runnable, decide_true, ensure]
  cases (k.current.mboxes mtype).messages with
  | nil => rfl
  | cons msg rest => rfl

theorem procRecv_spec (running : Running k) {await : Await} (maxTime : UInt32) (now : Time)
    (called : ∀ pid, await.rpc = some pid → await.mtype = .reply ∧ k.current.server = pid) (serves : Serves k await) :
    Ensures never (procRecv await maxTime now) k Left := by
  have idle := running.consistent.idle running.runnable
  unfold procRecv
  apply Ensures.get
  apply ensure_spec (decide_eq_true running.runnable)
  apply ensure_spec (by rw [idle]; rfl)
  cases messages : (k.current.mboxes await.mtype).messages with
  | nil =>
    apply Ensures.bind_returns (procRecvWait_run await maxTime now)
    refine settled_waiting running serves ?_ rfl rfl rfl rfl rfl ?_ rfl rfl rfl rfl rfl
    · exact running.consistent.wait running.runnable running.outside messages called rfl rfl rfl rfl
    · intro waits
      apply Decidable.byContradiction
      intro other
      have flag : ((k.current.setMbox await.mtype fun mq => { mq with waiting := true }).mboxes .reply).waiting =
        true := waits
      rw [Process.setMbox_of_ne (Ne.symm other), idle] at flag
      cases flag
  | cons msg rest =>
    have notReply : await.mtype ≠ .reply := by
      intro reply
      have none := running.consistent.no_reply running.live running.outside
      rw [← reply, messages] at none
      cases none
    apply ensure_spec (decide_eq_true notReply)
    have ran := @procRecvGet_run k await.mtype await.size running.runnable
    rw [messages] at ran
    apply Ensures.bind_returns ran
    have finished : Running (k.put k.procCurrent
        (k.current.setMbox await.mtype (·.returnHead rest (msg.copy await.size)))) :=
      running_edit running.settled running.runnable running.runnable (running.settled.priority _) rfl running.outside
        (running.consistent.got running.runnable (.inl ⟨running.outside, notReply⟩) messages ⟨rfl, rfl⟩
          running.runnable running.outside rfl)
    exact finished

/-- Back from proc_yield, the process finishes the call it was in. -/
theorem resume_spec (settled : Settled k) (runnable : k.current.state = .runnable) :
    Ensures never resume k fun _ after => Running after := by
  have consistent : Consistent k.current := settled.consistent k.procCurrent
  have live : k.current.state.live = true := by rw [runnable]; rfl
  unfold resume
  apply Ensures.get
  cases call : k.current.call with
  | none => exact ⟨settled, runnable, call⟩
  | some await =>
    apply Ensures.modify
    apply ensure_spec (by rw [consistent.idle runnable]; rfl)
    have here : (k.setProc k.procCurrent fun p => { p with call := none }).current = { k.current with call := none } :=
      Kernel.put_self
    have ran := @procRecvGet_run (k.setProc k.procCurrent fun p => { p with call := none }) await.mtype await.size
      (by rw [here]; exact runnable)
    rw [here] at ran
    cases messages : (k.current.mboxes await.mtype).messages with
    | nil =>
      rw [messages] at ran
      apply Ensures.bind_returns ran
      have finished : Running (k.put k.procCurrent { k.current with call := none }) :=
        running_edit settled runnable runnable (settled.priority _) rfl rfl
          (consistent.gotNothing runnable call messages runnable rfl rfl)
      cases await.rpc with
      | none => exact finished
      | some pid => exact finished
    | cons msg rest =>
      rw [messages] at ran
      apply Ensures.bind_returns ran
      have finished : Running (k.put k.procCurrent
          ({ k.current with call := none }.setMbox await.mtype (·.returnHead rest (msg.copy await.size)))) :=
        running_edit settled runnable runnable (settled.priority _) rfl rfl
          (consistent.got runnable (.inr ⟨await, call, rfl⟩) messages ⟨rfl, rfl⟩ runnable rfl rfl)
      unfold Kernel.setProc
      rw [show (k.put k.procCurrent _).procCurrent = k.procCurrent from rfl, Kernel.put_put]
      cases rpc : await.rpc with
      | none => exact finished
      | some pid =>
        obtain ⟨reply, server⟩ := consistent.rpc live await pid call rpc
        have source : msg.src = pid := by
          rcases consistent.reply live with empty | ⟨_, only, _, _, single, src⟩
          · rw [← reply, messages] at empty; cases empty
          · rw [← reply, messages] at single
            cases single
            exact src.trans server
        exact ensure_last (decide_eq_true source) finished

private theorem sysSend_spec (running : Running k) (pid : Pid) (mtype : MsgType) (msg : List UInt8) :
    Ensures never (sysSend pid mtype msg) k Left := by
  have sends : Ensures never (do let _ ← procSend k.current.pid pid mtype msg; pure .running) k Left := by
    apply Ensures.bind (procSend_spec running.settled)
    rintro _ after ⟨kept, evolves, _⟩
    exact running.wakes (settle kept) evolves
  unfold sysSend
  apply Ensures.get
  cases mtype with
  | request => exact running
  | reply => exact sends
  | event => exact sends

private theorem sysRpc_spec (running : Running k) (pid : Pid) (request : List UInt8) (repsize : Nat) (now : Time) :
    Ensures never (sysRpc pid request repsize now) k Left := by
  unfold sysRpc
  apply Ensures.get
  cases decide (pid = k.current.pid) with
  | true => exact running
  | false =>
    apply Ensures.bind (procSend_spec running.settled)
    rintro sent after ⟨kept, evolves, served⟩
    have runs := running.wakes (settle kept) evolves
    cases sent with
    | false => exact runs
    | true =>
      obtain ⟨s, live, named⟩ := served rfl
      rw [← evolves.current]
      have consistent : Consistent { after.current with server := pid } := by
        have before := runs.consistent
        refine ⟨before.idle, before.blocked, fun alive => .inl (before.no_reply alive runs.outside), ?_, before.ledger⟩
        intro _ await other call
        cases runs.outside.symm.trans call
      have calls : Running (after.put after.procCurrent { after.current with server := pid }) :=
        running_edit runs.settled runs.runnable runs.runnable (runs.settled.priority _) rfl runs.outside consistent
      have here : (after.put after.procCurrent { after.current with server := pid }).current =
          { after.current with server := pid } := Kernel.put_self
      have states : ∀ q, ((after.put after.procCurrent { after.current with server := pid }).procSet q).state =
          (after.procSet q).state :=
        Kernel.put_cases (fun q entry => entry.state = (after.procSet q).state) rfl fun _ _ => rfl
      have pids : ∀ q, ((after.put after.procCurrent { after.current with server := pid }).procSet q).pid =
          (after.procSet q).pid :=
        Kernel.put_cases (fun q entry => entry.pid = (after.procSet q).pid) rfl fun _ _ => rfl
      apply Ensures.modify
      apply procRecv_spec calls
      · intro other rpc
        cases rpc
        exact ⟨rfl, congrArg Process.server here⟩
      · intro _
        refine ⟨s, ?_, ?_⟩
        · exact (congrArg ProcState.live (states s)).trans live
        · exact ((pids s).trans named).trans (congrArg Process.server here).symm

private theorem sysExit_spec (running : Running k) (status : UInt32) : Ensures never (sysExit status) k Left := by
  unfold sysExit
  apply Ensures.get
  apply Ensures.bind (procTerm_spec running.settled (.inl ⟨running.runnable, rfl⟩) status)
  rintro _ after ⟨kept, _⟩
  exact settle kept

theorem loweredPriority_lt {priority : Nat} (inside : priority < MAX_PRIORITY) :
    loweredPriority priority < MAX_PRIORITY := by
  unfold loweredPriority MAX_PRIORITY at *
  split <;> omega

private theorem checkPriority_spec (running : Running k) (now : Time) :
    Ensures never (checkPriority now) k fun _ after => Running after := by
  have edited : ∀ priority remaining, priority < MAX_PRIORITY →
      Running (k.put k.procCurrent { k.current with priority, remainQuantum := remaining }) := fun priority
          remaining inside =>
    running_edit running.settled running.runnable running.runnable inside rfl running.outside
      (running.consistent.congr rfl rfl rfl rfl)
  have place := running.settled.priority k.procCurrent
  unfold checkPriority
  apply Ensures.get
  cases decide (now - k.current.lastRun > k.current.remainQuantum) with
  | false => exact edited _ (k.current.remainQuantum - (now - k.current.lastRun)) place
  | true =>
    have inside := loweredPriority_lt place
    unfold lowerPriority
    apply Ensures.get
    rw [decide_eq_true inside]
    exact edited _ _ inside

private theorem procGotInterrupt_spec (running : Running k) (intr : IntrType) (now : Time) :
    Ensures never (procGotInterrupt intr now) k Left := by
  unfold procGotInterrupt
  apply Ensures.bind (checkPriority_spec running now)
  intro _ after runs
  cases intr with
  | pageFault => exact runs
  | syscall => exact runs
  | clock => exact runs.settled
  | io => exact runs.settled

/-- The slot `p` holds a new process, which has the CPU. -/
def created (k : Kernel) (p : Slot) (rest : List Slot) (record : Process) : Kernel :=
  { k.put p record with
    procFree := rest
    pidGen := k.pidGen + 1
    procNprocs := k.procNprocs + 1
    procNrunnable := k.procNrunnable + 1
    mtlQueue := pushed k.mtlQueue k.current.priority k.procCurrent
    procCurrent := p
    lives := k.lives ++ [.created p, .switched p] }

theorem startProcess_run {proc : Slot} (different : k.procCurrent ≠ proc)
    (runnable : (k.procSet k.procCurrent).state = .runnable)
    (priority : (k.procSet k.procCurrent).priority < MAX_PRIORITY)
    (now : Time) : startProcess proc now k = .done () {
      k.put proc { k.procSet proc with priority := 0, remainQuantum := quantum 0, lastRun := now } with
      mtlQueue := pushed k.mtlQueue (k.procSet k.procCurrent).priority k.procCurrent
      procCurrent := proc
      lives := k.lives ++ [.switched proc] } := by
  have same : ∀ record, (k.put proc record).procSet k.procCurrent = k.procSet k.procCurrent := fun _ =>
    Kernel.put_of_ne different
  unfold startProcess Grass.setProc Kernel.setProc
  rw [Prog.bind_done (get_run k), Prog.bind_done (modify_run _ k),
    Prog.bind_done (procToRunqueue_run (by rw [same]; exact runnable) (by rw [same]; exact priority)), same]
  simp only [bind, modify_run, Kernel.put, Function.update_self, Function.update_idem, Kernel.record]

theorem start_run {p : Slot} {rest : List Slot} (running : Running k) (head : k.procFree = p :: rest)
    (different : k.procCurrent ≠ p) (owner : Pid) (uid : Uid) (now : Time) :
    (do match ← procAlloc owner uid with
        | none => pure Turn.running
        | some proc =>
          startProcess proc now
          pure .running : Kern Turn) k =
      .done .running (created k p rest { Process.fresh k.pidGen owner uid with remainQuantum := quantum 0, lastRun := now }) := by
  have allocated : procAlloc owner uid k = .done (some p) { k.put p (Process.fresh k.pidGen owner uid) with
      procFree := rest
      pidGen := k.pidGen + 1
      procNprocs := k.procNprocs + 1
      procNrunnable := k.procNrunnable + 1
      lives := k.lives ++ [.created p] } := by
    unfold procAlloc Grass.setProc
    simp only [bind, get_run, head, modify_run, pure_run, Kernel.setProc, Kernel.put, Kernel.record]
  have current : (k.put p (Process.fresh k.pidGen owner uid)).procSet k.procCurrent = k.current :=
    Kernel.put_of_ne different
  have started := @startProcess_run { k.put p (Process.fresh k.pidGen owner uid) with
      procFree := rest
      pidGen := k.pidGen + 1
      procNprocs := k.procNprocs + 1
      procNrunnable := k.procNrunnable + 1
      lives := k.lives ++ [.created p] } p different
    ((congrArg Process.state current).trans running.runnable)
    ((congrArg Process.priority current).trans_lt (running.settled.priority _)) now
  rw [Prog.bind_done allocated]
  change (startProcess p now >>= fun _ => pure Turn.running) _ = _
  rw [Prog.bind_done started]
  unfold created Kernel.put Kernel.current
  simp only [pure_run, Function.update_idem, Function.update_self, Function.update_of_ne different, Process.fresh,
    List.append_assoc, List.singleton_append]

private theorem created_running {p : Slot} {rest : List Slot} {record : Process} (running : Running k)
    (head : k.procFree = p :: rest) (state : record.state = .runnable) (priority : record.priority < MAX_PRIORITY)
    (call : record.call = none) (consistent : Consistent record) : Running (created k p rest record) := by
  have free : (k.procSet p).state = .free :=
    (running.settled.queues.freeMem p).mp (by rw [head]; exact List.mem_cons_self)
  have different : k.procCurrent ≠ p := by
    rintro rfl
    exact running.settled.alive free
  have here : (created k p rest record).procSet p = record := Kernel.put_self
  have others : ∀ q, q ≠ p → (created k p rest record).procSet q = k.procSet q := fun q other => Kernel.put_of_ne other
  let allocated : Kernel := { k.put p record with
    procFree := rest
    procNprocs := k.procNprocs + 1
    procNrunnable := k.procNrunnable + 1 }
  have entered : Queues (insert p {k.procCurrent}) allocated :=
    running.settled.queues.alloc head rfl state priority rfl rfl rfl rfl
  have current : allocated.procSet k.procCurrent = k.current := Kernel.put_of_ne different
  have ready : (allocated.procSet k.procCurrent).state.queued = true := by
    rw [current, running.runnable]
    rfl
  have last : (created k p rest record).mtlQueue =
      pushed allocated.mtlQueue (allocated.procSet k.procCurrent).priority k.procCurrent := by
    rw [current]
    rfl
  have listed : Queues (insert p {k.procCurrent} \ {k.procCurrent}) (created k p rest record) :=
    entered.push (Set.mem_insert_of_mem p rfl) ready rfl last rfl rfl rfl
  have same : (insert p {k.procCurrent} : Set Slot) \ {k.procCurrent} = {p} := by
    ext q
    simp only [Set.mem_sdiff, Set.mem_insert_iff, Set.mem_singleton_iff]
    constructor
    · rintro ⟨here | other, out⟩
      · exact here
      · exact absurd other out
    · rintro rfl
      exact ⟨.inl rfl, Ne.symm different⟩
  rw [same] at listed
  refine ⟨⟨listed, rfl, fun q member _ => member, ?_, ?_, ?_⟩, ?_, ?_⟩
  · exact Kernel.put_cases (fun _ entry => Consistent entry) consistent fun q _ => running.settled.consistent q
  · intro q waiting waits
    by_cases new : q = p
    · subst new; rw [here, state] at waiting; cases waiting
    · rw [others q new] at waiting waits ⊢
      obtain ⟨s, live, named⟩ := (running.settled.served q waiting waits).resolve_left nofun
      have old : s ≠ p := by
        rintro rfl
        rw [free] at live
        cases live
      exact .inr ⟨s, by rw [others s old]; exact ⟨live, named⟩⟩
  · exact fun none => ProcState.noConfusion ((state.symm.trans (congrArg Process.state here.symm)).trans none)
  · exact (congrArg Process.state here).trans state
  · exact (congrArg Process.call here).trans call

private theorem start_spec (running : Running k) (owner : Pid) (uid : Uid) (now : Time) :
    Ensures never (do
      match ← procAlloc owner uid with
      | none => pure .running
      | some proc =>
        startProcess proc now
        pure .running) k Left := by
  cases head : k.procFree with
  | nil =>
    have none : procAlloc owner uid k = .done none k := by
      unfold procAlloc
      rw [Prog.bind_done (get_run k), head]
      rfl
    exact Ensures.bind_returns none running
  | cons p rest =>
    have different : k.procCurrent ≠ p := by
      rintro rfl
      apply running.settled.alive
      exact (running.settled.queues.freeMem _).mp (by rw [head]; exact List.mem_cons_self)
    apply Ensures.returns (start_run running head different owner uid now)
    refine created_running running head rfl (Nat.zero_lt_succ _) rfl ?_
    exact (Consistent.fresh k.pidGen owner uid).congr rfl rfl rfl rfl

private theorem procCreateUid_spec (running : Running k) (owner : Pid) (uid : Uid) (now : Time) :
    Ensures never (procCreateUid owner uid now) k Left := by
  unfold procCreateUid
  apply Ensures.get
  cases k.procShuttingDown with
  | true => exact running
  | false =>
    cases k.procFind owner with
    | none => exact running
    | some parent => exact start_spec running owner _ now

/-- Whatever a running process asks of the kernel, no assertion fails. -/
theorem perform_spec (running : Running k) (call : Call) : Ensures never call.perform k Left := by
  cases call with
  | recv mtype maxTime size now =>
    have receives : mtype ≠ .reply → Ensures never (procRecv { mtype, size, rpc := none } maxTime now) k Left :=
      fun notReply => procRecv_spec running maxTime now nofun fun reply => absurd reply notReply
    cases mtype with
    | request => exact receives nofun
    | reply => exact running
    | event => exact receives nofun
  | send pid mtype msg => exact sysSend_spec running pid mtype msg
  | rpc pid request repsize now => exact sysRpc_spec running pid request repsize now
  | procSend srcPid dstPid mtype contents =>
    apply Ensures.bind (procSend_spec running.settled)
    rintro _ after ⟨kept, evolves, _⟩
    exact running.wakes (settle kept) evolves
  | exit status => exact sysExit_spec running status
  | kill killer pid status => exact procKill_spec running killer pid status
  | create owner uid now => exact procCreateUid_spec running owner uid now
  | gotInterrupt intr now => exact procGotInterrupt_spec running intr now
  | setInterruptable value =>
    exact running_edit running.settled running.runnable running.runnable
      (running.settled.priority _) rfl running.outside
      (running.consistent.congr rfl rfl rfl rfl)
  | shutdown now =>
    exact ⟨⟨{ running.settled.queues with }, running.settled.aside, running.settled.blocked, running.settled.consistent,
      running.settled.served, running.settled.alive⟩, running.runnable, running.outside⟩

end Egos.Grass
