import Egos.Proofs.GrassPriorities

/-! Kernel functions run in the situations that most calls of them are in: the receiver waits
or does not, the process that dies has no clients, there is one process that can run. -/

namespace Egos.Grass
open Library Library.Prog

variable {k : Kernel} {p : Slot}

/-- The only process that has a pid is found. -/
theorem procFind_of_unique {pid : Pid} (used : (k.procSet p).state ≠ .free) (named : (k.procSet p).pid = pid)
    (only : ∀ q, (k.procSet q).state ≠ .free → (k.procSet q).pid = pid → q = p) : k.procFind pid = some p := by
  cases found : k.procFind pid with
  | none =>
    have refused := List.find?_eq_none.mp found p (mem_procSlots p)
    simp [used, named] at refused
  | some q =>
    obtain ⟨inUse, same⟩ := Kernel.procFind_some found
    rw [only q inUse same]

@[simp] theorem Kernel.woken_self {record : Process} : (k.woken p record).procSet p = record := Kernel.put_self

theorem Kernel.woken_of_ne {record : Process} {q : Slot} (other : q ≠ p) : (k.woken p record).procSet q = k.procSet q :=
  Kernel.put_of_ne other

/-! Sending. -/

def Process.delivered (p : Process) (mtype : MsgType) (msg : Message) : Process :=
  { p with state := .runnable, alarmSet := false }.setMbox mtype fun mq => { mq.add msg with waiting := false }

theorem procSend_wakes {srcPid pid : Pid} {mtype : MsgType} {contents : List UInt8} (found : k.procFind pid = some p)
    (waiting : (k.procSet p).state = .waiting) (waits : ((k.procSet p).mboxes mtype).waiting = true)
    (priority : (k.procSet p).priority < MAX_PRIORITY) (answers : mtype = .reply → (k.procSet p).server = srcPid) :
    procSend srcPid pid mtype contents k = .done true
      ((k.woken p ((k.procSet p).delivered mtype { src := srcPid, contents })).record
          (.put p mtype { src := srcPid, contents })) := by
  have accepted : (decide ((k.procSet p).state = .zombie) ||
      (mtype = .reply && notWaitingForReply (k.procSet p) srcPid)) = false := by
    rw [waiting]
    cases mtype with
    | reply => simp [notWaitingForReply, waiting, waits, answers rfl]
    | request => rfl
    | event => rfl
  have ran := @wakeReceiver_run ((k.put p ((k.procSet p).setMbox mtype (·.add { src := srcPid, contents }))).record
      (.put p mtype { src := srcPid, contents })) p mtype
    (by rw [Kernel.record_procSet, Kernel.put_self]; exact waiting)
      (by rw [Kernel.record_procSet, Kernel.put_self]; exact priority)
  rw [Kernel.record_woken, Kernel.put_woken, Kernel.record_procSet, Kernel.put_self] at ran
  unfold procSend
  rw [Prog.bind_done (get_run k), found]
  dsimp only
  unfold sendTo
  rw [Prog.bind_done (get_run k), accepted]
  refine (Prog.bind_done (modify_run _ k)).trans ((Prog.bind_done (modify_run _ _)).trans ?_)
  rw [waits]
  refine (Prog.bind_done ran).trans ?_
  unfold Process.delivered Process.setMbox
  simp only [Function.update_idem, Function.update_self, pure_run]

theorem procSend_stores {srcPid pid : Pid} {mtype : MsgType} {contents : List UInt8} (found : k.procFind pid = some p)
    (live : (k.procSet p).state.live = true) (idle : ((k.procSet p).mboxes mtype).waiting = false)
    (notReply : mtype ≠ .reply) :
    procSend srcPid pid mtype contents k = .done true
      ((k.put p ((k.procSet p).setMbox mtype (·.add { src := srcPid, contents }))).record
          (.put p mtype { src := srcPid, contents })) := by
  have accepted : (decide ((k.procSet p).state = .zombie) ||
      (mtype = .reply && notWaitingForReply (k.procSet p) srcPid)) = false := by
    rw [decide_eq_false notReply]
    cases state : (k.procSet p).state with
    | zombie => rw [state] at live; cases live
    | _ => rfl
  unfold procSend
  rw [Prog.bind_done (get_run k), found]
  dsimp only
  unfold sendTo
  rw [Prog.bind_done (get_run k), accepted]
  refine (Prog.bind_done (modify_run _ k)).trans ((Prog.bind_done (modify_run _ _)).trans ?_)
  rw [idle]
  rfl

theorem sysSend_run {pid : Pid} {mtype : MsgType} {msg : List UInt8} {sent : Bool} {after : Kernel}
    (notRequest : mtype ≠ .request)
    (ran : procSend k.current.pid pid mtype msg k = .done sent after) :
    sysSend pid mtype msg k = .done .running after := by
  unfold sysSend
  rw [Prog.bind_done (get_run k)]
  cases mtype with
  | request => exact absurd rfl notRequest
  | reply => exact Prog.bind_done ran
  | event => exact Prog.bind_done ran

def Process.awaiting (p : Process) (await : Await) : Process :=
  { p.setMbox await.mtype fun mq => { mq with waiting := true } with state := .waiting, call := some await }

theorem sysRecv_waits (running : Running k) {size : Nat} {now : Time}
    (empty : (k.current.mboxes .request).messages = []) :
    sysRecv .request 0 size now k = .done .yielding
      { k.put k.procCurrent (k.current.awaiting { mtype := .request, size, rpc := none }) with procNrunnable :=
        k.procNrunnable - 1 } := by
  have idle := running.consistent.idle running.runnable .request
  change procRecv { mtype := .request, size, rpc := none } 0 now k = _
  unfold procRecv
  rw [Prog.bind_done (get_run k)]
  simp only [running.runnable, idle, empty, decide_true, ensure, List.isEmpty_nil, Bool.not_false]
  exact (Prog.bind_done (pure_run () k)).trans
    ((Prog.bind_done (pure_run () k)).trans (Prog.bind_done (procRecvWait_run _ 0 now)))

theorem sysRecv_takes (running : Running k) {size : Nat} {now : Time} {msg : Message} {rest : List Message}
    (messages : (k.current.mboxes .request).messages = msg :: rest) :
    sysRecv .request 0 size now k = .done .running
        (k.put k.procCurrent (k.current.setMbox .request (·.returnHead rest (msg.copy size)))) := by
  have idle := running.consistent.idle running.runnable .request
  have got := @procRecvGet_run k .request size running.runnable
  rw [messages] at got
  change procRecv { mtype := .request, size, rpc := none } 0 now k = _
  unfold procRecv
  rw [Prog.bind_done (get_run k)]
  simp only [running.runnable, idle, messages, decide_true, ensure, List.isEmpty_cons, Bool.not_false]
  exact (Prog.bind_done (pure_run () k)).trans
    ((Prog.bind_done (pure_run () k)).trans ((Prog.bind_done (pure_run () k)).trans (Prog.bind_done got)))

def Process.calling (p : Process) (pid : Pid) (repsize : Nat) : Process :=
  { { p with server := pid }.setMbox .reply fun mq => { mq with waiting := true } with
    state := .waiting
    call := some { mtype := .reply, size := repsize, rpc := some pid } }

theorem sysRpc_run (running : Running k) {pid : Pid} {request : List UInt8} {repsize : Nat} {now : Time}
    {between : Kernel}
    (other : pid ≠ k.current.pid) (sent : procSend k.current.pid pid .request request k = .done true between)
    (current : between.procCurrent = k.procCurrent) (same : between.procSet k.procCurrent = k.current) :
    sysRpc pid request repsize now k = .done .yielding
      { between.put k.procCurrent (k.current.calling pid repsize) with procNrunnable := between.procNrunnable -
          1 } := by
  have idle := running.consistent.idle running.runnable .reply
  have empty := running.consistent.no_reply running.live running.outside
  have here : (between.setProc k.procCurrent fun p => { p with server := pid }).current =
      { k.current with server := pid } := by
    unfold Kernel.setProc
    rw [same]
    unfold Kernel.current
    rw [show (between.put k.procCurrent _).procCurrent = k.procCurrent from current]
    exact Kernel.put_self
  unfold sysRpc
  rw [Prog.bind_done (get_run k), decide_eq_false other]
  dsimp only
  rw [Prog.bind_done sent]
  dsimp only
  refine (Prog.bind_done (modify_run _ between)).trans ?_
  unfold procRecv
  rw [Prog.bind_done (get_run _), here]
  simp only [running.runnable, idle, empty, decide_true, ensure, List.isEmpty_nil, Bool.not_false]
  rw [Prog.bind_done (pure_run () _), Prog.bind_done (pure_run () _), Prog.bind_done (procRecvWait_run _ _ _),
    here, pure_run]
  unfold Process.calling Kernel.setProc Kernel.put
  simp only [ne_eq, not_true_eq_false, if_false, current, Function.update_idem]
  rfl

/-! Dying. -/

theorem sysExit_run {status : UInt32} {after : Kernel} (ran : procTerm k.procCurrent status k = .done () after) :
    sysExit status k = .done .yielding after := by
  unfold sysExit
  rw [Prog.bind_done (get_run k)]
  exact Prog.bind_done ran

theorem forSlots_idle {body : Slot → Kern Unit} (idle : ∀ p, body p k = .done () k) (slots : List Slot) :
    forSlots body slots k = .done () k := by
  induction slots with
  | nil => rfl
  | cons p rest ih => exact (Prog.bind_done (idle p)).trans ih

/-- proc_find looks at who is in use, and at the pids. -/
theorem procFind_congr {after : Kernel} (use : ∀ q, (after.procSet q).state = .free ↔ (k.procSet q).state = .free)
    (pids : ∀ q, (after.procSet q).pid = (k.procSet q).pid) (pid : Pid) : after.procFind pid = k.procFind pid := by
  unfold Kernel.procFind
  congr 1
  funext q
  simp only [ne_eq, use q, pids q]

/-- The process is dead, its owner knows, and nobody was waiting for it. -/
theorem procTerm_notifies {owner : Slot} {status : UInt32} (live : (k.procSet p).state.live = true)
    (used : k.procNprocs ≠ 0)
    (different : owner ≠ p) (found : k.procFind (k.procSet p).owner = some owner)
    (alive : (k.procSet owner).state.live = true)
    (idle : ((k.procSet owner).mboxes .event).waiting = false)
    (clients : ∀ q, (k.procSet q).state = .waiting → ((k.procSet q).mboxes .reply).waiting = true →
    (k.procSet q).server ≠ (k.procSet p).pid) :
    ∃ lives, procTerm p status k = .done () { (killed k p).put owner ((k.procSet owner).setMbox .event
      (·.add { src := (k.procSet p).pid, contents := msgEvent (k.procSet p).pid status })) with lives } := by
  have here : (dying k p status).procSet p = { k.procSet p with state := .zombie } := Kernel.put_self
  have others : ∀ q, q ≠ p → (dying k p status).procSet q = k.procSet q := fun q other => Kernel.put_of_ne other
  have finds : ∀ pid, (dying k p status).procFind pid = k.procFind pid := by
    refine procFind_congr (fun q => ?_) fun q => ?_
    · by_cases self : q = p
      · subst self
        rw [here]
        exact ⟨nofun, fun free => by rw [free] at live; cases live⟩
      · rw [others q self]
    · by_cases self : q = p
      · rw [self, here]
      · rw [others q self]
  obtain ⟨_, named⟩ := Kernel.procFind_some found
  have again : (dying k p status).procFind ((dying k p status).procSet owner).pid = some owner := by
    rw [finds, others owner different, named, found]
  have sent := @procSend_stores (dying k p status) owner (k.procSet p).pid _ .event
    (msgEvent (k.procSet p).pid status) again
    (by rw [others owner different]; exact alive) (by rw [others owner different]; exact idle) nofun
  let told : Kernel := ((dying k p status).put owner ((k.procSet owner).setMbox .event
    (·.add { src := (k.procSet p).pid, contents := msgEvent (k.procSet p).pid status }))).record
      (.put owner .event { src := (k.procSet p).pid, contents := msgEvent (k.procSet p).pid status })
  have notified : notifyOwner p status (dying k p status) = .done () told := by
    unfold notifyOwner
    rw [Prog.bind_done (get_run _), here]
    dsimp only
    rw [finds, found]
    dsimp only
    rw [Prog.bind_done sent, others owner different]
    rfl
  have dead : told.procSet p = { k.procSet p with state := .zombie } :=
    (Kernel.put_of_ne (Ne.symm different)).trans here
  have waits : ∀ q, q ≠ p → (told.procSet q).state = (k.procSet q).state ∧
    ((told.procSet q).mboxes .reply).waiting = ((k.procSet q).mboxes .reply).waiting ∧
      (told.procSet q).server = (k.procSet q).server := by
    intro q other
    by_cases owns : q = owner
    · have now : told.procSet owner = (k.procSet owner).setMbox .event _ := Kernel.put_self
      have apart : MsgType.reply ≠ .event := nofun
      rw [owns, now, Process.setMbox_of_ne apart]
      exact ⟨rfl, rfl, rfl⟩
    · have same : told.procSet q = k.procSet q := (Kernel.put_of_ne owns).trans (others q other)
      rw [same]
      exact ⟨rfl, rfl, rfl⟩
  have nobody : ∀ q, failRpc (k.procSet p).pid q told = .done () told := by
    intro q
    have refused : (decide ((told.procSet q).state = .waiting) && ((told.procSet q).mboxes .reply).waiting &&
        decide ((told.procSet q).server = (k.procSet p).pid)) = false := by
      by_cases self : q = p
      · rw [self, dead]
        rfl
      · obtain ⟨state, reply, server⟩ := waits q self
        rw [state, reply, server]
        by_contra client
        simp only [Bool.not_eq_false, Bool.and_eq_true, decide_eq_true_eq] at client
        exact clients q client.1.1 client.1.2 client.2
    unfold failRpc
    rw [Prog.bind_done (get_run told), refused]
    rfl
  refine ⟨(told.record (.buried p)).lives, ?_⟩
  rw [procTerm_run live used]
  unfold bury
  rw [Prog.bind_done notified, Prog.bind_done (get_run told), dead, Prog.bind_done (forSlots_idle nobody procSlots)]
  rfl

/-! Going on. -/

/-- What proc_yield returns to changes the call and the mailboxes of the process only. -/
structure Resumes (before after : Process) : Prop where
  state : after.state = before.state
  pid : after.pid = before.pid
  uid : after.uid = before.uid
  priority : after.priority = before.priority
  alarmSet : after.alarmSet = before.alarmSet
  outside : after.call = none
  mboxes : after.mboxes = before.mboxes ∧
    (∀ await, before.call = some await → (before.mboxes await.mtype).messages = []) ∨
    ∃ await msg rest receipt, before.call = some await ∧ (before.mboxes await.mtype).messages = msg :: rest ∧
      after.mboxes = (before.setMbox await.mtype (·.returnHead rest receipt)).mboxes

private theorem sysRpcReturn_run (rpc : Option Pid) (reply : Option Receipt) (k : Kernel) :
    sysRpcReturn rpc reply k = .done () k ∨ ∃ reason, sysRpcReturn rpc reply k = .halted reason k := by
  unfold sysRpcReturn
  split
  · next pid receipt =>
    cases decide (receipt.src = pid) with
    | true => exact .inl rfl
    | false => exact .inr ⟨_, rfl⟩
  · exact .inl rfl

theorem resume_run (settled : Settled k) (runnable : k.current.state = .runnable) :
    ∃ record, resume k = .done () (k.put k.procCurrent record) ∧ Resumes k.current record := by
  obtain ⟨value, after, returned, _⟩ := (resume_spec settled runnable).total
  have idle := (settled.consistent k.procCurrent).idle runnable
  cases call : k.current.call with
  | none =>
    refine ⟨k.current, ?_, rfl, rfl, rfl, rfl, rfl, call, .inl ⟨rfl, fun await given => nomatch call.symm.trans given⟩⟩
    unfold resume
    rw [Prog.bind_done (get_run k), call]
    unfold Kernel.put Kernel.current
    rw [Function.update_eq_self]
    rfl
  | some await =>
    have here : (k.setProc k.procCurrent fun p => { p with call := none }).current = { k.current with call := none } :=
      Kernel.put_self
    have got := @procRecvGet_run (k.setProc k.procCurrent fun p => { p with call := none }) await.mtype await.size
      (by rw [here]; exact runnable)
    rw [here] at got
    have ran : ∀ reply last, procRecvGet await.mtype await.size (k.setProc k.procCurrent
      fun p => { p with call := none }) = .done reply last →
        resume k = .done () last := by
      intro reply last taken
      have same : resume k = sysRpcReturn await.rpc reply last := by
        unfold resume
        rw [Prog.bind_done (get_run k), call]
        refine (Prog.bind_done (modify_run _ k)).trans ?_
        change (ensure (!((k.procSet k.procCurrent).mboxes await.mtype).waiting) _ _ >>= _) _ = _
        rw [idle]
        exact Prog.bind_done taken
      rcases sysRpcReturn_run await.rpc reply last with done | ⟨reason, halted⟩
      · exact same.trans done
      · cases returned.symm.trans (same.trans halted)
    cases messages : (k.current.mboxes await.mtype).messages with
    | nil =>
      rw [messages] at got
      refine ⟨{ k.current with call := none }, ran _ _ got, rfl, rfl, rfl, rfl, rfl, rfl,
        .inl ⟨rfl, fun other given => ?_⟩⟩
      cases call.symm.trans given
      exact messages
    | cons msg rest =>
      rw [messages] at got
      refine ⟨{ k.current with call := none }.setMbox await.mtype (·.returnHead rest (msg.copy await.size)), ?_,
        rfl, rfl, rfl, rfl, rfl, rfl,
        .inr ⟨await, msg, rest, msg.copy await.size, call, messages, rfl⟩⟩
      rw [ran _ _ got]
      unfold Kernel.setProc
      rw [show (k.put k.procCurrent _).procCurrent = k.procCurrent from rfl, Kernel.put_put]

/-- The processes of the best level that wait for the CPU, when there are none of another one. -/
def alone (slots : List Slot) : Level → List Slot := fun level => if level.val = 0 then slots else []

theorem pushed_alone (slots : List Slot) (p : Slot) : pushed (alone slots) 0 p = alone (slots ++ [p]) := by
  funext level
  unfold pushed alone
  split <;> rfl

private theorem pick_run {next : Slot} (queue : k.mtlQueue = alone [next])
    (runnable : (k.procSet next).state = .runnable) :
    pick (List.finRange MAX_PRIORITY) k = .done (some next) { k with mtlQueue := alone [] } := by
  have levels : List.finRange MAX_PRIORITY = ⟨0, by decide⟩ :: [⟨1, by decide⟩, ⟨2, by decide⟩] := rfl
  have first : k.mtlQueue ⟨0, by decide⟩ = [next] := congrFun queue _
  have emptied : Function.update k.mtlQueue ⟨0, by decide⟩ [] = alone [] := by
    rw [queue]
    funext level
    by_cases best : level = ⟨0, by decide⟩
    · rw [best, Function.update_self]
      rfl
    · have worse : level.val ≠ 0 := fun zero => best (Fin.ext zero)
      rw [Function.update_of_ne best]
      unfold alone
      rw [if_neg worse, if_neg worse]
  have found : pickFrom ⟨0, by decide⟩ [next] k = .done (some next) { k with mtlQueue := alone [] } := by
    unfold pickFrom queueGet
    refine (Prog.bind_done (modify_run _ k)).trans ((Prog.bind_done (get_run _)).trans ?_)
    rw [emptied]
    simp only [runnable, decide_true]
    rfl
  rw [levels]
  unfold pick
  rw [Prog.bind_done (get_run k), first, Prog.bind_done found]
  rfl

/-- With no time-outs, the only process that can run runs. -/
theorem procYieldRound_runs {next : Slot} {now later : Time} (settled : Settled k)
    (up : k.procShuttingDown = false) (curfew : k.procCurfew = 0)
    (calm : ∀ p, (k.procSet p).state = .waiting → (k.procSet p).alarmSet = false) (queue : k.mtlQueue = alone [next])
    (runnable : (k.procSet next).state = .runnable) (named : (k.procSet next).pid ≠ k.current.pid) :
    ∃ record, procYieldRound now later k =
      .done .running ((switched { k with mtlQueue := alone [] } next later).put next record) ∧
      next ≠ k.procCurrent ∧ Resumes ((switched { k with mtlQueue := alone [] } next later).procSet next) record := by
  have checked : ∀ p, checkTimeout now p k = .done () k := by
    intro p
    have stays : (decide ((k.procSet p).state = .waiting) && (k.procSet p).alarmSet && decide
        ((k.procSet p).exptime ≤ now)) = false := by
      by_contra timedOut
      simp only [Bool.not_eq_false, Bool.and_eq_true, decide_eq_true_eq] at timedOut
      cases (calm p timedOut.1.1).symm.trans timedOut.1.2
    unfold checkTimeout
    rw [Prog.bind_done (get_run k), up, stays]
    rfl
  have picks := pick_run queue runnable
  have picked : Picked next { k with mtlQueue := alone [] } := ((pick_spec _ settled).done picks).1
  have switches := switchTo_run picked named later
  obtain ⟨kept, runs⟩ := switched_settled picked later
  have current : (switched { k with mtlQueue := alone [] } next later).procCurrent = next :=
    (switched_ready picked.different later).1
  obtain ⟨record, resumes, edits⟩ := resume_run kept runs
  have used : decide (k.procNprocs ≠ 0) = true := decide_eq_true (ne_of_gt (settled.queues.nprocs_pos settled.alive))
  have inTime : (decide (k.procCurfew ≠ 0) && decide (k.procCurfew < now)) = false := by
    rw [curfew]
    rfl
  unfold Kernel.current at edits
  rw [current] at resumes edits
  refine ⟨record, ?_, picked.different, edits⟩
  unfold procYieldRound
  rw [Prog.bind_done (get_run k), used]
  refine (Prog.bind_done (pure_run () k)).trans ?_
  rw [inTime]
  dsimp only
  rw [Prog.bind_done (forSlots_idle checked procSlots), Prog.bind_done picks, Prog.bind_done (get_run _)]
  change (ensure (decide (k.procNprocs ≠ 0)) _ _ >>= _) _ = _
  rw [used]
  refine (Prog.bind_done (pure_run () _)).trans ?_
  dsimp only
  rw [Prog.bind_done switches, Prog.bind_done resumes]
  rfl

/-- The CPU goes from a process that waits or is dead to the next one. -/
structure Turned (before after : Kernel) (next : Slot) : Prop where
  current : after.procCurrent = next
  pidGen : after.pidGen = before.pidGen
  up : after.procShuttingDown = before.procShuttingDown
  curfew : after.procCurfew = before.procCurfew
  queue : after.mtlQueue = alone []
  resumes : Resumes (before.procSet next) (after.procSet next)
  others : ∀ q, q ≠ next → q ≠ before.procCurrent → after.procSet q = before.procSet q
  waits : before.current.state = .waiting → after.procSet before.procCurrent = before.current
  released : before.current.state = .zombie → (after.procSet before.procCurrent).state = .free

theorem procYieldRound_turned {next : Slot} {now later : Time} (settled : Settled k)
    (up : k.procShuttingDown = false) (curfew : k.procCurfew = 0)
    (calm : ∀ p, (k.procSet p).state = .waiting → (k.procSet p).alarmSet = false) (queue : k.mtlQueue = alone [next])
    (runnable : (k.procSet next).state = .runnable) (named : (k.procSet next).pid ≠ k.current.pid)
    (idle : k.current.state ≠ .runnable) :
    ∃ after, procYieldRound now later k = .done .running after ∧ Turned k after next := by
  obtain ⟨record, ran, different, resumes⟩ :=
    @procYieldRound_runs k next now later settled up curfew calm queue runnable named
  refine ⟨_, ran, ?_⟩
  let emptied : Kernel := { k with mtlQueue := alone [] }
  have here : (scheduled emptied next later).procSet next = { k.procSet next with lastRun := later } := Kernel.put_self
  have others : ∀ q, q ≠ next → (scheduled emptied next later).procSet q = k.procSet q := fun q other =>
    Kernel.put_of_ne other
  have last : ((switched emptied next later).put next record).procSet next = record := Kernel.put_self
  have same : ∀ q, q ≠ next → ((switched emptied next later).put next record).procSet q =
      (switched emptied next later).procSet q :=
    fun q other => Kernel.put_of_ne other
  cases state : k.current.state with
  | runnable => exact absurd state idle
  | free => exact absurd state settled.alive
  | waiting =>
    have switch : switched emptied next later = { scheduled emptied next later with procCurrent := next } := by
      unfold switched
      rw [show emptied.current.state = .waiting from state]
    rw [switch] at resumes last same ⊢
    rw [show ({ scheduled emptied next later with procCurrent := next } : Kernel).procSet next = _ from here] at resumes
    refine ⟨rfl, rfl, rfl, rfl, rfl, ?_, fun q other _ => (same q other).trans (others q other), fun _ => ?_,
      fun zombie => ?_⟩
    · rw [last]
      exact ⟨resumes.state, resumes.pid, resumes.uid, resumes.priority, resumes.alarmSet, resumes.outside,
        resumes.mboxes⟩
    · exact (same _ different.symm).trans (others _ different.symm)
    · cases state.symm.trans zombie
  | zombie =>
    have switch : switched emptied next later =
        { freed (scheduled emptied next later) k.procCurrent with procCurrent := next } := by
      unfold switched
      rw [show emptied.current.state = .zombie from state]
    have kept : ∀ q, q ≠ k.procCurrent → (freed (scheduled emptied next later) k.procCurrent).procSet q =
        (scheduled emptied next later).procSet q :=
      fun q other => Kernel.put_of_ne other
    rw [switch] at resumes last same ⊢
    rw [show ({ freed (scheduled emptied next later) k.procCurrent with procCurrent := next } : Kernel).procSet next =
      _ from
      (kept next different).trans here] at resumes
    refine ⟨rfl, rfl, rfl, rfl, rfl, ?_, fun q other apart => ?_, fun waiting => ?_, fun _ => ?_⟩
    · rw [last]
      exact ⟨resumes.state, resumes.pid, resumes.uid, resumes.priority, resumes.alarmSet, resumes.outside,
        resumes.mboxes⟩
    · exact (same q other).trans ((kept q apart).trans (others q other))
    · cases state.symm.trans waiting
    · rw [same _ different.symm]
      exact congrArg Process.state Kernel.put_self

end Egos.Grass
