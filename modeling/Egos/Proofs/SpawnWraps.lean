import Egos.Proofs.GrassTurns
import Egos.Proofs.SpawnUids

/-! The generator of pids goes around. A shell has processes created one after the other, and
each of them ends at once. After the last pid comes the pid of the main process, which is
still there, so that the spawn server takes a process of a user for the superuser's. -/

namespace Egos.Grass.Spawning
open Library Library.Prog
open Spawnsvr (requestSize receiveSize SPAWN_EXEC SPAWN_KILL SPAWN_GETUID)

private theorem slot_two : 2 < MAX_PROCS := by decide

private abbrev mainAt : Slot := ⟨0, slot_zero⟩

private abbrev serverAt : Slot := ⟨1, slot_one⟩

private abbrev shellAt : Slot := ⟨2, slot_two⟩

/-- Main waits for the deaths of its children, the server for requests and the shell for replies. -/
private def eventAwait : Await := { mtype := .event, size := 12, rpc := none }

private def requestAwait : Await := { mtype := .request, size := receiveSize, rpc := none }

private def replyAwait : Await := { mtype := .reply, size := 8, rpc := some 2 }

private inductive Doing where
  | runs
  /-- There is a request already. -/
  | busy
  | waits (await : Await)
  | woken (await : Await)

private def Doing.Of (p : Process) : Doing → Prop
  | .runs => p.state = .runnable ∧ p.call = none ∧ (p.mboxes .request).messages = []
  | .busy => p.state = .runnable ∧ p.call = none ∧ (p.mboxes .request).messages.length = 1
  | .waits await => p.state = .waiting ∧ p.call = some await ∧ (p.mboxes .request).messages = []
  | .woken await => p.state = .runnable ∧ p.call = some await ∧
      (p.mboxes .request).messages.length = if await.mtype = .request then 1 else 0

private structure Plays (p : Process) (pid : Pid) (doing : Doing) : Prop where
  pid : p.pid = pid
  uid : p.uid = 0
  alarm : p.alarmSet = false
  priority : p.priority = 0
  doing : doing.Of p

/-- There are the main process, the spawn server, the shell and perhaps a new process. -/
private structure Stage (k : Kernel) (n : Pid) (current : Slot) (queue : List Slot) (server shell : Doing)
    (child : Option Slot) : Prop where
  pidGen : k.pidGen = n
  up : k.procShuttingDown = false
  curfew : k.procCurfew = 0
  births : k.births serverAt = 1
  current : k.procCurrent = current
  queue : k.mtlQueue = alone queue
  main : Plays (k.procSet mainAt) 1 (.waits eventAwait)
  server : Plays (k.procSet serverAt) 2 server
  shell : Plays (k.procSet shellAt) 3 shell
  newcomer : ∀ x, child = some x → (k.procSet x).alarmSet = false ∧ (k.procSet x).state ≠ .free
  others : ∀ p, p ≠ mainAt → p ≠ serverAt → p ≠ shellAt → child ≠ some p → (k.procSet p).state = .free

variable {k : Kernel} {n : Pid} {current : Slot} {queue : List Slot} {server shell : Doing} {child : Option Slot}

private theorem Plays.used {p : Process} {pid : Pid} {doing : Doing} (plays : Plays p pid doing) : p.state ≠ .free := by
  have does := plays.doing
  cases doing with
  | runs => rw [does.1]; exact nofun
  | busy => rw [does.1]; exact nofun
  | waits => rw [does.1]; exact nofun
  | woken => rw [does.1]; exact nofun

/-- A process that goes on with the message it has waited for. -/
private theorem Plays.resumes {p after : Process} {pid : Pid} {await : Await}
    (plays : Plays p pid (.woken await)) (resumes : Resumes p after) :
    Plays after pid .runs := by
  obtain ⟨state, call, inbox⟩ := plays.doing
  refine ⟨resumes.pid.trans plays.pid, resumes.uid.trans plays.uid, resumes.alarmSet.trans plays.alarm,
    resumes.priority.trans plays.priority,
    resumes.state.trans state, resumes.outside, ?_⟩
  rcases resumes.mboxes with ⟨same, empty⟩ | ⟨given, msg, rest, receipt, here, messages, took⟩
  · rw [same]
    have empty := empty await call
    split at inbox
    · next request => rw [request] at empty; exact empty
    · exact List.length_eq_zero_iff.mp inbox
  · cases call.symm.trans here
    rw [took]
    split at inbox
    · next request =>
      rw [request] at messages ⊢
      rw [messages] at inbox
      rw [Process.setMbox_self]
      exact List.length_eq_zero_iff.mp (Nat.succ.inj inbox)
    · next other =>
      rw [Process.setMbox_of_ne (Ne.symm other)]
      exact List.length_eq_zero_iff.mp inbox

/-- A process that was not waiting for anything. -/
private theorem Plays.goesOn {p after : Process} {pid : Pid} {doing : Doing} (plays : Plays p pid doing)
    (outside : p.call = none)
    (resumes : Resumes p after) : Plays after pid doing := by
  have mboxes : after.mboxes = p.mboxes := by
    rcases resumes.mboxes with ⟨same, _⟩ | ⟨given, _, _, _, here, _⟩
    · exact same
    · cases outside.symm.trans here
  refine ⟨resumes.pid.trans plays.pid, resumes.uid.trans plays.uid, resumes.alarmSet.trans plays.alarm,
    resumes.priority.trans plays.priority, ?_⟩
  have does := plays.doing
  cases doing with
  | runs => exact ⟨resumes.state.trans does.1, resumes.outside, mboxes ▸ does.2.2⟩
  | busy => exact ⟨resumes.state.trans does.1, resumes.outside, mboxes ▸ does.2.2⟩
  | waits await => cases outside.symm.trans does.2.1
  | woken await => cases outside.symm.trans does.2.1

namespace Stage

/-- The process with one of the first pids, unless a new one has it too. -/
private theorem finds (stage : Stage k n current queue server shell child) {p : Slot} {pid : Pid} {doing : Doing}
    (plays : Plays (k.procSet p) pid doing) (member : (p, pid) ∈ [(mainAt, 1), (serverAt, 2), (shellAt, 3)])
    (apart : ∀ x, child = some x → (k.procSet x).pid ≠ pid) : k.procFind pid = some p := by
  refine procFind_of_unique plays.used plays.pid fun q used same => ?_
  by_contra other
  by_cases main : q = mainAt
  · rw [main, stage.main.pid] at same
    subst main same
    simp at member
    exact other member.symm
  by_cases server : q = serverAt
  · rw [server, stage.server.pid] at same
    subst server same
    simp at member
    exact other member.symm
  by_cases shell : q = shellAt
  · rw [shell, stage.shell.pid] at same
    subst shell same
    simp at member
    exact other member.symm
  by_cases new : child = some q
  · exact apart q new same
  · exact used (stage.others q main server shell new)

private theorem calm (stage : Stage k n current queue server shell child) (p : Slot)
    (waiting : (k.procSet p).state = .waiting) :
    (k.procSet p).alarmSet = false := by
  by_cases main : p = mainAt
  · exact main ▸ stage.main.alarm
  by_cases server : p = serverAt
  · exact server ▸ stage.server.alarm
  by_cases shell : p = shellAt
  · exact shell ▸ stage.shell.alarm
  by_cases new : child = some p
  · exact (stage.newcomer p new).1
  · cases (stage.others p main server shell new).symm.trans waiting

/-- No slot is given to a new process. -/
private theorem births_same {program : Kern Turn} {turn : Turn} {after : Kernel} (tends : Tends Endures program k)
    (ran : program k = .done turn after) : after.births serverAt = k.births serverAt := by
  have endures := tends.ends
  rw [ran] at endures
  exact endures.births serverAt

/-- The only process that can run gets the CPU. -/
private theorem turn (settled : Settled k) {next : Slot} (stage : Stage k n current [next] server shell child)
    (runnable : (k.procSet next).state = .runnable) (idle : (k.procSet current).state ≠ .runnable)
    (named : (k.procSet next).pid ≠ (k.procSet current).pid) :
    ∃ after, procYieldRound 0 0 k = .done .running after ∧ Turned k after next ∧ after.births serverAt = 1 := by
  have here : k.current = k.procSet current := congrArg k.procSet stage.current
  obtain ⟨after, ran, turned⟩ := @procYieldRound_turned k next 0 0 settled stage.up stage.curfew stage.calm
    stage.queue runnable
    (by rw [here]; exact named) (by rw [here]; exact idle)
  exact ⟨after, ran, turned, (births_same (procYieldRound_tends 0 0) ran).trans stage.births⟩

/-- The shell asks the server for something. -/
private theorem ask (running : Running k) (stage : Stage k n shellAt [] (.waits requestAwait) .runs none)
    (contents : List UInt8) :
    ∃ after, sysRpc 2 contents 8 0 k = .done .yielding after ∧
        Stage after n shellAt [serverAt] (.woken requestAwait) (.waits replyAwait) none := by
  have here : k.current = k.procSet shellAt := congrArg k.procSet stage.current
  obtain ⟨waiting, call, inbox⟩ := stage.server.doing
  obtain ⟨runnable, _, empty⟩ := stage.shell.doing
  obtain ⟨await, given, flags, _⟩ := (running.settled.consistent serverAt).blocked waiting
  cases call.symm.trans given
  have found := stage.finds stage.server (by simp) nofun
  have sent := @procSend_wakes k serverAt k.current.pid 2 .request contents found waiting (flags .request)
    (running.settled.priority serverAt) nofun
  have other : (2 : Pid) ≠ k.current.pid := by
    rw [here, stage.shell.pid]
    decide
  have apart : k.procCurrent ≠ serverAt := by
    rw [stage.current]
    decide
  have ran := @sysRpc_run k running 2 contents 8 0 _ other sent rfl (Kernel.put_of_ne apart)
  have births := births_same (@perform_tends k running.settled.alive (.rpc 2 contents 8 0) nofun) ran
  rw [stage.current] at ran births
  refine ⟨_, ran, ?_⟩
  refine { pidGen := stage.pidGen, up := stage.up, curfew := stage.curfew, births := births.trans stage.births, current := stage.current,
           queue := ?_, main := ?_, server := ?_, shell := ?_, newcomer :=
             nofun, others := fun p main server shell new => ?_ }
  · have pushes : (k.woken serverAt ((k.procSet serverAt).delivered .request
      { src := k.current.pid, contents })).mtlQueue =
        pushed k.mtlQueue (k.procSet serverAt).priority serverAt := if_neg apart.symm
    refine pushes.trans ?_
    rw [stage.queue, stage.server.priority, pushed_alone]
    rfl
  · exact stage.main
  · have same : ((k.woken serverAt ((k.procSet serverAt).delivered .request { src := k.current.pid, contents })).put
      shellAt
        (k.current.calling 2 8)).procSet serverAt =
            (k.procSet serverAt).delivered .request { src := k.current.pid, contents } :=
      (Kernel.put_of_ne (by decide)).trans Kernel.woken_self
    refine Eq.mpr (congrArg (Plays · 2 _) same) ⟨stage.server.pid, stage.server.uid, rfl, stage.server.priority,
      rfl, call, ?_⟩
    simp [Process.delivered, Process.setMbox, MsgQueue.add, inbox, requestAwait]
  · have same : ((k.woken serverAt ((k.procSet serverAt).delivered .request { src := k.current.pid, contents })).put
      shellAt
        (k.current.calling 2 8)).procSet shellAt = (k.procSet shellAt).calling 2 8 := Kernel.put_self.trans (by
          rw [here])
    refine Eq.mpr (congrArg (Plays · 3 _) same) ⟨stage.shell.pid, stage.shell.uid, stage.shell.alarm,
      stage.shell.priority, rfl, rfl, ?_⟩
    simp [Process.calling, Process.setMbox, empty]
  · have same : ((k.woken serverAt ((k.procSet serverAt).delivered .request { src := k.current.pid, contents })).put
      shellAt
        (k.current.calling 2 8)).procSet p = k.procSet p := (Kernel.put_of_ne shell).trans (Kernel.woken_of_ne server)
    exact (congrArg Process.state same).trans (stage.others p main server shell new)

private def starting (pid owner : Pid) (uid : Uid) : Process :=
  { Process.fresh pid owner uid with remainQuantum := quantum 0, lastRun := 0 }

/-- The superuser may create processes for anyone. -/
private theorem creates (running : Running k) (up : k.procShuttingDown = false) (room : k.procFree ≠ [])
    {owner : Pid} {parent : Slot}
    (found : k.procFind owner = some parent) (root : (k.procSet parent).uid = 0) (uid : Uid) :
    ∃ x rest, procCreateUid owner uid 0 k = .done .running (created k x rest (starting k.pidGen owner uid)) ∧
        (k.procSet x).state = .free := by
  obtain ⟨x, rest, head⟩ := List.exists_cons_of_ne_nil room
  have free : (k.procSet x).state = .free :=
    (running.settled.queues.freeMem x).mp (by rw [head]; exact List.mem_cons_self)
  have different : k.procCurrent ≠ x := by
    rintro rfl
    exact running.settled.alive free
  refine ⟨x, rest, ?_, free⟩
  unfold procCreateUid
  rw [Prog.bind_done (get_run k), up, found]
  dsimp only
  rw [if_neg (not_not.mpr root)]
  exact start_run running head different owner uid 0

/-- The server creates a process for the shell, which gets the CPU. -/
private theorem create (running : Running k)
    (stage : Stage k n serverAt [] .runs (.waits replyAwait) none) (uid : Uid) :
    ∃ x after, procCreateUid 3 uid 0 k = .done .running after ∧
      Stage after (n + 1) x [serverAt] .runs (.waits replyAwait) (some x) ∧
      (x ≠ mainAt ∧ x ≠ serverAt ∧ x ≠ shellAt) ∧ after.procSet x = starting n 3 uid := by
  have last : (⟨3, by decide⟩ : Slot) ∈ k.procFree :=
    (running.settled.queues.freeMem _).mpr (stage.others _ (by decide) (by decide) (by decide) nofun)
  have found := stage.finds stage.shell (by simp) nofun
  obtain ⟨x, rest, ran, free⟩ := creates running stage.up (List.ne_nil_of_mem last) found stage.shell.uid uid
  have apart : ∀ {slot pid doing}, Plays (k.procSet slot) pid doing → x ≠ slot := by
    rintro slot pid doing plays rfl
    exact plays.used free
  have here : (created k x rest (starting k.pidGen 3 uid)).procSet x = starting k.pidGen 3 uid := Kernel.put_self
  have others : ∀ q, q ≠ x → (created k x rest (starting k.pidGen 3 uid)).procSet q = k.procSet q := fun q other =>
    Kernel.put_of_ne other
  have births := ((created_born free rfl : k.Born (created k x rest (starting k.pidGen 3 uid)) x _).others serverAt
    (apart stage.server).symm).1
  refine ⟨x, _, ran, ?_, ⟨apart stage.main, apart stage.server, apart stage.shell⟩, stage.pidGen ▸ here⟩
  refine { pidGen := congrArg (· + 1) stage.pidGen, up := stage.up, curfew := stage.curfew, births := births.trans stage.births, current := rfl,
           queue := ?_, main := ?_, server := ?_, shell :=
             ?_, newcomer := fun y same => ?_, others := fun p main server shell new => ?_ }
  · have pushes : (created k x rest (starting k.pidGen 3 uid)).mtlQueue =
      pushed k.mtlQueue k.current.priority k.procCurrent := rfl
    have priority : k.current.priority = 0 :=
      (congrArg (fun slot => (k.procSet slot).priority) stage.current).trans stage.server.priority
    rw [pushes, priority, stage.queue, stage.current, pushed_alone]
    rfl
  · rw [others _ (apart stage.main).symm]
    exact stage.main
  · rw [others _ (apart stage.server).symm]
    exact stage.server
  · rw [others _ (apart stage.shell).symm]
    exact stage.shell
  · cases same
    rw [here]
    exact ⟨rfl, nofun⟩
  · rw [others p fun same => new (congrArg some same.symm)]
    exact stage.others p main server shell nofun

/-- Nobody waits for the new process. -/
private theorem clients (settled : Settled k) (stage : Stage k n current queue server (.waits replyAwait) child)
    {pid : Pid} (other : pid ≠ 2)
    (runs : ∀ x, child = some x → (k.procSet x).state = .runnable) (serves : server = .runs) (q : Slot)
    (waiting : (k.procSet q).state = .waiting) (waits : ((k.procSet q).mboxes .reply).waiting = true) :
    (k.procSet q).server ≠ pid := by
  by_cases main : q = mainAt
  · obtain ⟨_, call, _⟩ := stage.main.doing
    obtain ⟨await, given, flags, _⟩ := (settled.consistent q).blocked waiting
    rw [main, call] at given
    cases given
    cases (flags .reply).symm.trans waits
  by_cases here : q = serverAt
  · subst serves here
    cases stage.server.doing.1.symm.trans waiting
  by_cases shell : q = shellAt
  · obtain ⟨state, call, _⟩ := stage.shell.doing
    have asks := (settled.consistent shellAt).rpc (by rw [state]; rfl) replyAwait 2 call rfl
    rw [shell, asks.2]
    exact other.symm
  by_cases new : child = some q
  · cases (runs q new).symm.trans waiting
  · cases (stage.others q main here shell new).symm.trans waiting

/-- The new process ends at once, and its owner does not mind. -/
private theorem exit (running : Running k) {x : Slot}
    (stage : Stage k (n + 1) x [serverAt] .runs (.waits replyAwait) (some x))
    (new : x ≠ mainAt ∧ x ≠ serverAt ∧ x ≠ shellAt) {uid : Uid} (record : k.procSet x = starting n 3 uid)
    (fresh : n ≠ 2 ∧ n ≠ 3) :
    ∃ after, sysExit 0 k = .done .yielding after ∧ Stage after (n + 1) x [serverAt] .runs (.waits replyAwait) (some x) ∧
      (after.procSet x).state = .zombie ∧ (after.procSet x).pid = n := by
  have runs : (k.procSet x).state = .runnable := by rw [record]; rfl
  have named : (k.procSet x).pid = n := by rw [record]; rfl
  obtain ⟨state, call, empty⟩ := stage.shell.doing
  have owned : (k.procSet x).owner = 3 := by
    rw [record]
    rfl
  have found : k.procFind (k.procSet x).owner = some shellAt := by
    rw [owned]
    refine stage.finds stage.shell (by simp) fun y same => ?_
    cases same
    rw [named]
    exact fresh.2
  have idle : ((k.procSet shellAt).mboxes .event).waiting = false := by
    obtain ⟨await, given, flags, _⟩ := (running.settled.consistent shellAt).blocked state
    rw [call] at given
    cases given
    exact flags .event
  have nobody := stage.clients running.settled (named ▸ fresh.1) (fun y same => by cases same; exact runs) rfl
  obtain ⟨lives, ran⟩ := @procTerm_notifies k x shellAt 0 (by rw [runs]; rfl)
    (ne_of_gt (running.settled.queues.nprocs_pos running.settled.alive))
    new.2.2.symm found (by rw [state]; rfl) idle nobody
  have exits : sysExit 0 k = _ := sysExit_run (by rw [stage.current]; exact ran)
  have births := births_same (@perform_tends k running.settled.alive (.exit 0) nofun) exits
  have gone : ((killed k x).put shellAt ((k.procSet shellAt).setMbox .event
    (·.add { src := (k.procSet x).pid, contents := msgEvent (k.procSet x).pid 0 }))).procSet x =
      { k.procSet x with state := .zombie } := (Kernel.put_of_ne new.2.2).trans Kernel.put_self
  have told : ((killed k x).put shellAt ((k.procSet shellAt).setMbox .event
    (·.add { src := (k.procSet x).pid, contents := msgEvent (k.procSet x).pid 0 }))).procSet shellAt =
      (k.procSet shellAt).setMbox .event (·.add
        { src := (k.procSet x).pid, contents := msgEvent (k.procSet x).pid 0 }) := Kernel.put_self
  have others : ∀ q, q ≠ x → q ≠ shellAt → ((killed k x).put shellAt ((k.procSet shellAt).setMbox .event
      (·.add { src := (k.procSet x).pid, contents := msgEvent (k.procSet x).pid 0 }))).procSet q = k.procSet q :=
    fun q other apart => (Kernel.put_of_ne apart).trans (Kernel.put_of_ne other)
  refine ⟨_, exits, ?_, congrArg Process.state gone, (congrArg Process.pid gone).trans named⟩
  refine { pidGen := stage.pidGen, up := stage.up, curfew := stage.curfew, births := births.trans stage.births, current := stage.current,
           queue := stage.queue, main := ?_, server := ?_, shell :=
             ?_, newcomer := fun y same => ?_, others := fun p main server shell other => ?_ }
  · exact Eq.mpr (congrArg (Plays · 1 _) (others mainAt new.1.symm (by decide))) stage.main
  · exact Eq.mpr (congrArg (Plays · 2 _) (others serverAt new.2.1.symm (by decide))) stage.server
  · refine Eq.mpr (congrArg (Plays · 3 _) told) ⟨stage.shell.pid, stage.shell.uid, stage.shell.alarm,
      stage.shell.priority, state, call, ?_⟩
    have apart : MsgType.request ≠ .event := nofun
    rw [Process.setMbox_of_ne apart]
    exact empty
  · cases same
    refine ⟨(congrArg Process.alarmSet gone).trans ?_,
      fun free => by cases (congrArg Process.state gone).symm.trans free⟩
    rw [record]
    rfl
  · have apart : p ≠ x := fun same => other (congrArg some same.symm)
    exact (congrArg Process.state (others p apart shell)).trans (stage.others p main server shell other)

/-- The server answers the shell. -/
private theorem reply (running : Running k) (stage : Stage k n serverAt [] server (.waits replyAwait) child)
    (apart : ∀ x, child = some x → (k.procSet x).pid ≠ 3) (contents : List UInt8) :
    ∃ after, sysSend 3 .reply contents k = .done .running after ∧
        Stage after n serverAt [shellAt] server (.woken replyAwait) child := by
  have here : k.current = k.procSet serverAt := congrArg k.procSet stage.current
  obtain ⟨waiting, call, inbox⟩ := stage.shell.doing
  obtain ⟨await, given, flags, _⟩ := (running.settled.consistent shellAt).blocked waiting
  rw [call] at given
  cases given
  have asks := (running.settled.consistent shellAt).rpc (by rw [waiting]; rfl) replyAwait 2 call rfl
  have answers : (k.procSet shellAt).server = k.current.pid := by rw [asks.2, here, stage.server.pid]
  have sent := @procSend_wakes k shellAt k.current.pid 3 .reply contents
    (stage.finds stage.shell (by simp) apart) waiting (flags .reply)
    (running.settled.priority shellAt) fun _ => answers
  have notRequest : MsgType.reply ≠ .request := nofun
  have ran := sysSend_run notRequest sent
  have births := births_same (@perform_tends k running.settled.alive (.send 3 .reply contents) nofun) ran
  have different : shellAt ≠ k.procCurrent := by
    rw [stage.current]
    decide
  have woken : (k.woken shellAt ((k.procSet shellAt).delivered .reply { src := k.current.pid, contents })).procSet
    shellAt =
      (k.procSet shellAt).delivered .reply { src := k.current.pid, contents } := Kernel.woken_self
  have others : ∀ q, q ≠ shellAt → (k.woken shellAt
      ((k.procSet shellAt).delivered .reply { src := k.current.pid, contents })).procSet q = k.procSet q :=
    fun q other => Kernel.woken_of_ne other
  refine ⟨_, ran, ?_⟩
  refine { pidGen := stage.pidGen, up := stage.up, curfew := stage.curfew, births := births.trans stage.births, current := stage.current,
           queue := ?_, main := ?_, server := ?_, shell :=
             ?_, newcomer := fun x same => ?_, others := fun p main server shell new => ?_ }
  · have pushes : (k.woken shellAt ((k.procSet shellAt).delivered .reply { src := k.current.pid, contents })).mtlQueue =
        pushed k.mtlQueue (k.procSet shellAt).priority shellAt := if_neg different
    refine pushes.trans ?_
    rw [stage.queue, stage.shell.priority, pushed_alone]
    rfl
  · exact Eq.mpr (congrArg (Plays · 1 _) (others mainAt (by decide))) stage.main
  · exact Eq.mpr (congrArg (Plays · 2 _) (others serverAt (by decide))) stage.server
  · refine Eq.mpr (congrArg (Plays · 3 _) woken) ⟨stage.shell.pid, stage.shell.uid, rfl, stage.shell.priority,
      rfl, call, ?_⟩
    simp [Process.delivered, Process.setMbox, inbox, replyAwait]
  · by_cases shell : x = shellAt
    · subst shell
      exact ⟨congrArg Process.alarmSet woken, fun free => by cases (congrArg Process.state woken).symm.trans free⟩
    · have still := others x shell
      exact ⟨(congrArg Process.alarmSet still).trans (stage.newcomer x same).1,
        ne_of_eq_of_ne (congrArg Process.state still) (stage.newcomer x same).2⟩
  · exact (congrArg Process.state (others p shell)).trans (stage.others p main server shell new)

/-- The server waits for the next request. -/
private theorem receive (running : Running k) (stage : Stage k n serverAt [shellAt] .runs (.woken replyAwait) none) :
    ∃ after, sysRecv .request 0 receiveSize 0 k = .done .yielding after ∧
      Stage after n serverAt [shellAt] (.waits requestAwait) (.woken replyAwait) none := by
  have here : k.current = k.procSet serverAt := congrArg k.procSet stage.current
  obtain ⟨_, _, inbox⟩ := stage.server.doing
  have ran := @sysRecv_waits k running receiveSize 0 (by rw [here, inbox])
  have births := births_same (@perform_tends k running.settled.alive (.recv .request 0 receiveSize 0) nofun) ran
  rw [stage.current, here] at ran births
  have waits : (k.put serverAt ((k.procSet serverAt).awaiting
    { mtype := .request, size := receiveSize, rpc := none })).procSet serverAt =
      (k.procSet serverAt).awaiting { mtype := .request, size := receiveSize, rpc := none } := Kernel.put_self
  have others : ∀ q, q ≠ serverAt → (k.put serverAt ((k.procSet serverAt).awaiting
      { mtype := .request, size := receiveSize, rpc := none })).procSet q =
        k.procSet q := fun q other => Kernel.put_of_ne other
  refine ⟨_, ran, ?_⟩
  refine { pidGen := stage.pidGen, up := stage.up, curfew := stage.curfew, births := births.trans stage.births, current := stage.current,
           queue := stage.queue, main := ?_, server := ?_, shell := ?_, newcomer :=
             nofun, others := fun p main server shell new => ?_ }
  · exact Eq.mpr (congrArg (Plays · 1 _) (others mainAt (by decide))) stage.main
  · refine Eq.mpr (congrArg (Plays · 2 _) waits) ⟨stage.server.pid, stage.server.uid, stage.server.alarm,
      stage.server.priority, rfl, rfl, ?_⟩
    simp [Process.awaiting, Process.setMbox, inbox]
  · exact Eq.mpr (congrArg (Plays · 3 _) (others shellAt (by decide))) stage.shell
  · exact (congrArg Process.state (others p server)).trans (stage.others p main server shell new)

/-- The server gets the CPU from the shell, which waits. -/
private theorem serverTurn (settled : Settled k)
    (stage : Stage k n shellAt [serverAt] (.woken requestAwait) (.waits replyAwait) none) :
    ∃ after, procYieldRound 0 0 k = .done .running after ∧
        Stage after n serverAt [] .runs (.waits replyAwait) none := by
  have waiting := stage.shell.doing.1
  obtain ⟨after, ran, turned, births⟩ := stage.turn settled stage.server.doing.1 (by rw [waiting]; exact nofun)
    (by rw [stage.server.pid, stage.shell.pid]; decide)
  have here : k.current = k.procSet shellAt := congrArg k.procSet stage.current
  have waits := turned.waits (by rw [here, waiting])
  rw [here, stage.current] at waits
  refine ⟨after, ran, ?_⟩
  refine { pidGen := turned.pidGen.trans stage.pidGen, up := turned.up.trans stage.up, curfew := turned.curfew.trans stage.curfew, births,
           current := turned.current, queue := turned.queue, main := ?_, server :=
             stage.server.resumes turned.resumes, shell := ?_,
           newcomer := nofun, others := fun p main server shell new => ?_ }
  · rw [turned.others mainAt (by decide) (by rw [stage.current]; decide)]
    exact stage.main
  · rw [waits]
    exact stage.shell
  · rw [turned.others p server (by rw [stage.current]; exact shell)]
    exact stage.others p main server shell new

/-- The server gets the CPU from the dead process. -/
private theorem serverReturn (settled : Settled k) {x : Slot}
    (stage : Stage k n x [serverAt] .runs (.waits replyAwait) (some x))
    (new : x ≠ mainAt ∧ x ≠ serverAt ∧ x ≠ shellAt) (dead : (k.procSet x).state = .zombie)
    (fresh : (k.procSet x).pid ≠ 2) :
    ∃ after, procYieldRound 0 0 k = .done .running after ∧
        Stage after n serverAt [] .runs (.waits replyAwait) none := by
  obtain ⟨after, ran, turned, births⟩ := stage.turn settled stage.server.doing.1 (by rw [dead]; exact nofun)
    (by rw [stage.server.pid]; exact fresh.symm)
  have here : k.current = k.procSet x := congrArg k.procSet stage.current
  have released := turned.released (by rw [here, dead])
  rw [stage.current] at released
  refine ⟨after, ran, ?_⟩
  refine { pidGen := turned.pidGen.trans stage.pidGen, up := turned.up.trans stage.up, curfew := turned.curfew.trans stage.curfew, births,
           current := turned.current, queue := turned.queue, main := ?_, server :=
             stage.server.goesOn stage.server.doing.2.1 turned.resumes, shell := ?_,
           newcomer := nofun, others := fun p main server shell _ => ?_ }
  · rw [turned.others mainAt (by decide) (by rw [stage.current]; exact new.1.symm)]
    exact stage.main
  · rw [turned.others shellAt (by decide) (by rw [stage.current]; exact new.2.2.symm)]
    exact stage.shell
  · by_cases gone : p = x
    · rw [gone]
      exact released
    · rw [turned.others p server (by rw [stage.current]; exact gone)]
      exact stage.others p main server shell fun same => gone (Option.some.inj same).symm

/-- The shell gets the CPU from the server, which waits. -/
private theorem shellTurn (settled : Settled k)
    (stage : Stage k n serverAt [shellAt] (.waits requestAwait) (.woken replyAwait) none) :
    ∃ after, procYieldRound 0 0 k = .done .running after ∧
        Stage after n shellAt [] (.waits requestAwait) .runs none := by
  have waiting := stage.server.doing.1
  obtain ⟨after, ran, turned, births⟩ := stage.turn settled stage.shell.doing.1 (by rw [waiting]; exact nofun)
    (by rw [stage.server.pid, stage.shell.pid]; decide)
  have here : k.current = k.procSet serverAt := congrArg k.procSet stage.current
  have waits := turned.waits (by rw [here, waiting])
  rw [here, stage.current] at waits
  refine ⟨after, ran, ?_⟩
  refine { pidGen := turned.pidGen.trans stage.pidGen, up := turned.up.trans stage.up, curfew := turned.curfew.trans stage.curfew, births,
           current := turned.current, queue := turned.queue, main := ?_, server := ?_, shell :=
             stage.shell.resumes turned.resumes,
           newcomer := nofun, others := fun p main server shell new => ?_ }
  · rw [turned.others mainAt (by decide) (by rw [stage.current]; decide)]
    exact stage.main
  · rw [waits]
    exact stage.server
  · rw [turned.others p shell (by rw [stage.current]; exact server)]
    exact stage.others p main server shell new

/-- The new process asks the server for something too, which has not answered the shell yet. -/
private theorem askToo (running : Running k) {x : Slot}
    (stage : Stage k n x [serverAt] .runs (.waits replyAwait) (some x))
    (new : x ≠ mainAt ∧ x ≠ serverAt ∧ x ≠ shellAt) (named : (k.procSet x).pid ≠ 2) (contents : List UInt8) :
    ∃ after, sysRpc 2 contents 8 0 k = .done .yielding after ∧
      Stage after n x [serverAt] .busy (.waits replyAwait) (some x) ∧
      (after.procSet x).state = .waiting := by
  have here : k.current = k.procSet x := congrArg k.procSet stage.current
  obtain ⟨runnable, outside, inbox⟩ := stage.server.doing
  have found := stage.finds stage.server (by simp) fun y same => by cases same; exact named
  have sent := @procSend_stores k serverAt k.current.pid 2 .request contents found (by rw [runnable]; rfl)
    ((running.settled.consistent serverAt).idle runnable .request) nofun
  have ran := @sysRpc_run k running 2 contents 8 0 _ (by rw [here]; exact named.symm) sent rfl
    (Kernel.put_of_ne (by rw [stage.current]; exact new.2.1))
  have births := births_same (@perform_tends k running.settled.alive (.rpc 2 contents 8 0) nofun) ran
  rw [stage.current, here] at ran births
  have calls : ((k.put serverAt ((k.procSet serverAt).setMbox .request
    (·.add { src := (k.procSet x).pid, contents }))).put x
      ((k.procSet x).calling 2 8)).procSet x = (k.procSet x).calling 2 8 := Kernel.put_self
  have stored : ((k.put serverAt ((k.procSet serverAt).setMbox .request
    (·.add { src := (k.procSet x).pid, contents }))).put x
      ((k.procSet x).calling 2 8)).procSet serverAt =
          (k.procSet serverAt).setMbox .request (·.add { src := (k.procSet x).pid, contents }) :=
    (Kernel.put_of_ne new.2.1.symm).trans Kernel.put_self
  have others : ∀ q, q ≠ x → q ≠ serverAt → ((k.put serverAt
    ((k.procSet serverAt).setMbox .request (·.add { src := (k.procSet x).pid, contents }))).put x
      ((k.procSet x).calling 2 8)).procSet q =
        k.procSet q := fun q other apart => (Kernel.put_of_ne other).trans (Kernel.put_of_ne apart)
  refine ⟨_, ran, ?_, congrArg Process.state calls⟩
  refine { pidGen := stage.pidGen, up := stage.up, curfew := stage.curfew, births := births.trans stage.births, current := stage.current,
           queue := stage.queue, main := ?_, server := ?_, shell :=
             ?_, newcomer := fun y same => ?_, others := fun p main server shell other => ?_ }
  · exact Eq.mpr (congrArg (Plays · 1 _) (others mainAt new.1.symm (by decide))) stage.main
  · refine Eq.mpr (congrArg (Plays · 2 _) stored) ⟨stage.server.pid, stage.server.uid, stage.server.alarm,
      stage.server.priority, runnable, outside, ?_⟩
    simp [Process.setMbox, MsgQueue.add, inbox]
  · exact Eq.mpr (congrArg (Plays · 3 _) (others shellAt new.2.2.symm (by decide))) stage.shell
  · cases same
    exact ⟨(congrArg Process.alarmSet calls).trans (stage.newcomer x rfl).1,
      fun free => by cases (congrArg Process.state calls).symm.trans free⟩
  · have apart : p ≠ x := fun same => other (congrArg some same.symm)
    exact (congrArg Process.state (others p apart server)).trans (stage.others p main server shell other)

/-- The server gets the CPU from the new process, which waits. -/
private theorem busyTurn (settled : Settled k) {x : Slot}
    (stage : Stage k n x [serverAt] .busy (.waits replyAwait) (some x))
    (new : x ≠ mainAt ∧ x ≠ serverAt ∧ x ≠ shellAt) (waiting : (k.procSet x).state = .waiting)
    (named : (k.procSet x).pid ≠ 2) :
    ∃ after, procYieldRound 0 0 k = .done .running after ∧
        Stage after n serverAt [] .busy (.waits replyAwait) (some x) := by
  obtain ⟨after, ran, turned, births⟩ := stage.turn settled stage.server.doing.1 (by rw [waiting]; exact nofun)
    (by rw [stage.server.pid]; exact named.symm)
  have here : k.current = k.procSet x := congrArg k.procSet stage.current
  have waits := turned.waits (by rw [here, waiting])
  rw [here, stage.current] at waits
  refine ⟨after, ran, ?_⟩
  refine { pidGen := turned.pidGen.trans stage.pidGen, up := turned.up.trans stage.up, curfew := turned.curfew.trans stage.curfew, births,
           current := turned.current, queue := turned.queue, main := ?_, server :=
             stage.server.goesOn stage.server.doing.2.1 turned.resumes,
           shell := ?_, newcomer := fun y same => ?_, others := fun p main server shell other => ?_ }
  · rw [turned.others mainAt (by decide) (by rw [stage.current]; exact new.1.symm)]
    exact stage.main
  · rw [turned.others shellAt (by decide) (by rw [stage.current]; exact new.2.2.symm)]
    exact stage.shell
  · cases same
    rw [waits]
    exact stage.newcomer x rfl
  · rw [turned.others p server (by rw [stage.current]; exact fun same => other (congrArg some same.symm))]
    exact stage.others p main server shell other

/-- The server takes the request that is there. -/
private theorem take (running : Running k) {x : Slot} (stage : Stage k n serverAt queue .busy shell (some x))
    (new : x ≠ serverAt) :
    ∃ after, sysRecv .request 0 receiveSize 0 k = .done .running after ∧
        Stage after n serverAt queue .runs shell (some x) := by
  have here : k.current = k.procSet serverAt := congrArg k.procSet stage.current
  obtain ⟨runnable, outside, inbox⟩ := stage.server.doing
  obtain ⟨msg, single⟩ := List.length_eq_one_iff.mp inbox
  have ran := @sysRecv_takes k running receiveSize 0 msg [] (by rw [here, single])
  have births := births_same (@perform_tends k running.settled.alive (.recv .request 0 receiveSize 0) nofun) ran
  rw [stage.current, here] at ran births
  have took : (k.put serverAt ((k.procSet serverAt).setMbox .request (·.returnHead [] (msg.copy receiveSize)))).procSet
    serverAt =
      (k.procSet serverAt).setMbox .request (·.returnHead [] (msg.copy receiveSize)) := Kernel.put_self
  have others : ∀ q, q ≠ serverAt → (k.put serverAt ((k.procSet serverAt).setMbox .request
      (·.returnHead [] (msg.copy receiveSize)))).procSet q = k.procSet q := fun q other => Kernel.put_of_ne other
  refine ⟨_, ran, ?_⟩
  refine { pidGen := stage.pidGen, up := stage.up, curfew := stage.curfew, births := births.trans stage.births, current := stage.current,
           queue := stage.queue, main := ?_, server := ?_, shell :=
             ?_, newcomer := fun y same => ?_, others := fun p main server shell other => ?_ }
  · exact Eq.mpr (congrArg (Plays · 1 _) (others mainAt (by decide))) stage.main
  · refine Eq.mpr (congrArg (Plays · 2 _) took) ⟨stage.server.pid, stage.server.uid, stage.server.alarm,
      stage.server.priority, runnable, outside, ?_⟩
    simp [Process.setMbox, MsgQueue.returnHead]
  · exact Eq.mpr (congrArg (Plays · 3 _) (others shellAt (by decide))) stage.shell
  · cases same
    have still := others x new
    exact ⟨(congrArg Process.alarmSet still).trans (stage.newcomer x rfl).1,
      ne_of_eq_of_ne (congrArg Process.state still) (stage.newcomer x rfl).2⟩
  · exact (congrArg Process.state (others p server)).trans (stage.others p main server shell other)

end Stage

/-! The same in the system with its spawn server. -/

private def Reached (s : System) : Prop := ∃ events, Run Step begun events s

private def atWork (k : Kernel) (mode : Mode) (pending : List Request) : System :=
  { machine := { kernel := k, mode }, server := some { slot := serverAt, birth := 1 }, pending }

namespace Reached
variable {pending : List Request}

private theorem sane {s : System} (reached : Reached s) : s.Sane := by
  obtain ⟨events, run⟩ := reached
  exact run.invariant (fun _ _ _ sane step => step.sane sane) begun_named.1

private theorem running (reached : Reached (atWork k .running pending)) : Running k := reached.sane

private theorem settled (reached : Reached (atWork k .yielding pending)) : Settled k := reached.sane

private theorem call {call : Call} {turn : Turn} {after : Kernel}
    (reached : Reached (atWork k .running pending)) (plain : Plain (.call call))
    (ran : call.perform k = .done turn after) :
    Reached (atWork after turn.mode (pending ++ (atWork k .running pending).sent (.call call))) := by
  obtain ⟨events, run⟩ := reached
  have step : Grass.Step ⟨k, .running⟩ (.call call) (.after (call.perform k)) := .call
  rw [ran] at step
  exact ⟨_, run.snoc (.kernel plain step)⟩

private theorem round {turn : Turn} {after : Kernel} (reached : Reached (atWork k .yielding pending))
    (ran : procYieldRound 0 0 k = .done turn after) : Reached (atWork after turn.mode pending) := by
  obtain ⟨events, run⟩ := reached
  have step : Grass.Step ⟨k, .yielding⟩ (.round 0 0) (.after (procYieldRound 0 0 k)) := .round
  rw [ran] at step
  have last := run.snoc (Step.kernel (by trivial) step)
  exact ⟨_, List.append_nil pending ▸ last⟩

private theorem serve {request : Request} {turn : Turn} {after : Kernel}
    (reached : Reached (atWork k .running (request :: pending)))
    (current : k.procCurrent = serverAt) (births : k.births serverAt = 1)
    (ran : spawnProc request.contents request.src 0 k = .done turn after) :
    Reached (atWork after turn.mode pending) := by
  obtain ⟨events, run⟩ := reached
  have server : (atWork k .running (request :: pending)).server = some (k.identity k.procCurrent) := by
    unfold Kernel.identity
    rw [current, births]
    rfl
  have last := run.snoc (@Step.serve _ k request pending 0 rfl server rfl)
  rw [ran] at last
  exact ⟨_, last⟩

end Reached

private def Scene (n : Pid) : Prop :=
  ∃ k, Reached (atWork k .running []) ∧ Stage k n shellAt [] (.waits requestAwait) .runs none

private theorem sent_request {pending : List Request} (found : k.procFind 2 = some serverAt)
    (births : k.births serverAt = 1)
    (alive : (k.procSet serverAt).state ≠ .zombie) (other : k.current.pid ≠ 2) (contents : List UInt8) :
    (atWork k .running pending).sent (.call (.rpc 2 contents 8 0)) =
      [{ src := k.current.pid, contents, sender := k.identity k.procCurrent, uid := k.current.uid }] := by
  have reaches : (atWork k .running pending).reaches 2 = true := by
    unfold System.reaches
    change (decide (2 ≠ k.current.pid) && (k.procFind 2).any _) = true
    rw [found, decide_eq_true other.symm]
    simp [atWork, System.kernel, Kernel.identity, births, alive]
  exact if_pos reaches

/-- A request of the shell gets to the server. -/
private theorem Scene.asks (scene : Scene n) (contents : List UInt8) :
    ∃ k request, Reached (atWork k .running [request]) ∧
    Stage k n serverAt [] .runs (.waits replyAwait) none ∧ request.src = 3 ∧ request.contents = contents := by
  obtain ⟨k, reached, stage⟩ := scene
  have current : k.current.pid = 3 := (congrArg (fun slot => (k.procSet slot).pid) stage.current).trans stage.shell.pid
  obtain ⟨asked, ran, waits⟩ := stage.ask reached.running contents
  have yields := @Reached.call _ _ (.rpc 2 contents 8 0) _ _ reached (by trivial) ran
  rw [sent_request (stage.finds stage.server (by simp) nofun) stage.births (by rw [stage.server.doing.1]; exact nofun)
    (by rw [current]; decide)] at yields
  obtain ⟨last, turned, runs⟩ := waits.serverTurn yields.settled
  exact ⟨last, _, yields.round turned, runs, current, rfl⟩

/-- `struct spawn_request` for an executable, with an argument block that is all zeros. -/
private def execRequest (uid : Uid) : List UInt8 :=
  bytesOf 1 ++ bytesOf 3 ++ bytesOf 5 ++ bytesOf 128 ++ bytesOf 0 ++ bytesOf uid ++ List.replicate 128 0

private theorem spawnProc_exec {contents : List UInt8} {uid : Uid}
    (exec : requestSize ≤ (contents.take receiveSize).length ∧
    (field (contents.take receiveSize) 0).toNat = SPAWN_EXEC ∧
    field (contents.take receiveSize) 12 = .ofNat ((contents.take receiveSize).length - requestSize) ∧
    field (contents.take receiveSize) 20 = uid) (src : Pid) : spawnProc contents src 0 = procCreateUid src uid 0 := by
  obtain ⟨long, type, size, asked⟩ := exec
  unfold spawnProc spawnDoExec
  dsimp only
  rw [if_neg (not_lt.mpr long), if_pos type, if_neg (not_not.mpr size), asked]

/-- Another process has come and gone. -/
private theorem Scene.next (scene : Scene n) (fresh : n ≠ 2 ∧ n ≠ 3) : Scene (n + 1) := by
  obtain ⟨k, request, reached, stage, src, contents⟩ := scene.asks (execRequest 0)
  have root : spawnProc (execRequest 0) 3 0 = procCreateUid 3 0 0 := spawnProc_exec (by decide +kernel) 3
  obtain ⟨x, created, ran, starts, new, record⟩ := stage.create reached.running 0
  have served : Reached (atWork created .running []) :=
    reached.serve stage.current stage.births (by rw [src, contents, root]; exact ran)
  obtain ⟨dead, exits, ends, zombie, pid⟩ := starts.exit served.running new record fresh
  have yields : Reached (atWork dead .yielding []) := @Reached.call _ _ (.exit 0) _ _ served (by trivial) exits
  obtain ⟨back, turned, runs⟩ := ends.serverReturn yields.settled new zombie (by rw [pid]; exact fresh.1)
  have returned : Reached (atWork back .running []) := yields.round turned
  obtain ⟨answered, sent, woken⟩ := runs.reply returned.running nofun (bytesOf 0 ++ bytesOf n)
  have replied : Reached (atWork answered .running []) :=
    @Reached.call _ _ (.send 3 .reply _) _ _ returned (by trivial) sent
  obtain ⟨idle, received, waits⟩ := woken.receive replied.running
  have rests : Reached (atWork idle .yielding []) :=
    @Reached.call _ _ (.recv .request 0 receiveSize 0) _ _ replied (by trivial) received
  obtain ⟨last, again, shell⟩ := waits.shellTurn rests.settled
  exact ⟨last, rests.round again, shell⟩

/-! The first scene. -/

private def recvRequest : Event := .kernel (.call (.recv .request 0 receiveSize 0))

private def round : Event := .kernel (.round 0 0)

/-- Main makes the server and has it start the shell, which gives up the CPU at a tick of the clock
until main has gone to wait for events. -/
private def boot : List Event := [
  .spawnInit 0, recvRequest, round, .kernel (.call (.rpc 2 (execRequest 0) 8 0)), round, .serve 0,
  .kernel (.call (.gotInterrupt .clock 0)), round, .kernel (.call (.send 1 .reply (bytesOf 0 ++ bytesOf 3))),
    recvRequest, round,
  .kernel (.call (.gotInterrupt .clock 0)), round, .kernel (.call (.recv .event 0 12 0)), round]

deriving instance DecidableEq for Await

private instance (p : Process) (doing : Doing) : Decidable (doing.Of p) := by
  cases doing <;> exact inferInstanceAs (Decidable (_ ∧ _ ∧ _))

private instance (p : Process) (pid : Pid) (doing : Doing) : Decidable (Plays p pid doing) :=
  decidable_of_iff (p.pid = pid ∧ p.uid = 0 ∧ p.alarmSet = false ∧ p.priority = 0 ∧ doing.Of p)
    ⟨fun ⟨pid, uid, alarm, priority, doing⟩ => ⟨pid, uid, alarm, priority, doing⟩,
      fun plays => ⟨plays.pid, plays.uid, plays.alarm, plays.priority, plays.doing⟩⟩

private instance (k : Kernel) (n : Pid) (current : Slot) (queue : List Slot) (server shell : Doing) :
    Decidable (Stage k n current queue server shell none) :=
  decidable_of_iff ((k.pidGen = n ∧ k.procShuttingDown = false ∧ k.procCurfew = 0 ∧ k.births serverAt = 1 ∧
    k.procCurrent = current) ∧
      (∀ level, k.mtlQueue level = alone queue level) ∧
      (Plays (k.procSet mainAt) 1 (.waits eventAwait) ∧ Plays (k.procSet serverAt) 2 server ∧
        Plays (k.procSet shellAt) 3 shell) ∧
      ∀ p, p ≠ mainAt → p ≠ serverAt → p ≠ shellAt → (k.procSet p).state = .free)
    ⟨fun ⟨⟨pidGen, up, curfew, births, current⟩, queue, ⟨main, server, shell⟩, others⟩ =>
        ⟨pidGen, up, curfew, births, current, funext queue, main, server, shell,
          nofun, fun p a b c _ => others p a b c⟩,
      fun stage => ⟨⟨stage.pidGen, stage.up, stage.curfew, stage.births, stage.current⟩, congrFun stage.queue,
        ⟨stage.main, stage.server, stage.shell⟩, fun p a b c => stage.others p a b c nofun⟩⟩

private def Mode.goes : Mode → Bool
  | .running => true
  | _ => false

private theorem Scene.first : Scene 4 := by
  have plays : (boot.foldlM System.take begun).any (fun s => Mode.goes s.machine.mode && s.pending.isEmpty &&
      decide (s.server = some { slot := serverAt, birth := 1 } ∧
          Stage s.kernel 4 shellAt [] (.waits requestAwait) .runs none)) = true := by
    decide +kernel
  obtain ⟨⟨⟨kernel, mode⟩, server, pending⟩, played, holds⟩ := (Option.any_eq_true _ _).mp plays
  simp only [Bool.and_eq_true, List.isEmpty_iff, decide_eq_true_eq] at holds
  obtain ⟨⟨runs, none⟩, started, stage⟩ := holds
  cases mode with
  | yielding => cases runs
  | stopped reason => cases runs
  | running =>
    subst none started
    exact ⟨kernel, ⟨boot, .of_foldlM System.take_step played⟩, stage⟩

/-- As many processes have been created as it takes. -/
private theorem scenes (made : Nat) (few : made ≤ 2 ^ 32 - 3) : Scene (4 + .ofNat made) := by
  induction made with
  | zero => exact Scene.first
  | succ made ih =>
    have value : (4 + UInt32.ofNat made).toNat = (4 + made) % 2 ^ 32 := by
      rw [UInt32.toNat_add, UInt32.toNat_ofNat']
      simp [Nat.add_mod]
    have fresh : ∀ pid : Pid, pid.toNat = 2 ∨ pid.toNat = 3 → 4 + UInt32.ofNat made ≠ pid := by
      rintro pid small rfl
      rw [value] at small
      omega
    have next := (ih (by omega)).next ⟨fresh 2 (.inl rfl), fresh 3 (.inr rfl)⟩
    have sum : 4 + UInt32.ofNat made + 1 = 4 + UInt32.ofNat (made + 1) := by
      rw [UInt32.ofNat_add, UInt32.add_assoc]
      rfl
    rwa [sum] at next

/-! The pid of main again. -/

private theorem endures {program : Kern Turn} {turn : Turn} {after : Kernel} (tends : Tends Endures program k)
    (ran : program k = .done turn after) : Endures k after := by
  have endures := tends.ends
  rw [ran] at endures
  exact endures

/-- A process of user 7 that has the pid of main asks for a process of user 9. -/
private theorem user_asks :
    ∃ k request x, Reached (atWork k .running [request]) ∧
      Stage k 2 serverAt [shellAt] .runs (.woken replyAwait) (some x) ∧
    request.src = 1 ∧ request.contents = execRequest 9 ∧ request.sender.slot = x ∧ k.Present request.sender ∧
      x ≠ mainAt ∧
    (k.procSet x).pid = 1 ∧ (k.procSet x).uid = 7 := by
  have scene : Scene 1 := scenes (2 ^ 32 - 3) le_rfl
  obtain ⟨k, request, reached, stage, src, contents⟩ := scene.asks (execRequest 7)
  have user : spawnProc (execRequest 7) 3 0 = procCreateUid 3 7 0 := spawnProc_exec (by decide +kernel) 3
  obtain ⟨x, created, ran, starts, new, record⟩ := stage.create reached.running 7
  have served : Reached (atWork created .running []) :=
    reached.serve stage.current stage.births (by rw [src, contents, user]; exact ran)
  have here : created.current = Stage.starting 1 3 7 := (congrArg created.procSet starts.current).trans record
  have named : (created.procSet x).pid = 1 := by rw [record]; rfl
  have found := starts.finds starts.server (by simp) fun y same => by cases same; rw [named]; decide
  obtain ⟨asked, called, busy, waiting⟩ := starts.askToo served.running new (by rw [named]; decide) (execRequest 9)
  have first := endures (@perform_tends created served.running.settled.alive (.rpc 2 (execRequest 9) 8 0) nofun) called
  have yields := @Reached.call _ _ (.rpc 2 (execRequest 9) 8 0) _ _ served (by trivial) called
  rw [sent_request found starts.births (by rw [starts.server.doing.1]; exact nofun) (by rw [here]; decide)] at yields
  obtain ⟨back, turned, runs⟩ := busy.busyTurn yields.settled new waiting (by rw [(first.ages x).pid, named]; decide)
  have second := endures (procYieldRound_tends 0 0) turned
  have returned := yields.round turned
  have pid : (back.procSet x).pid = 1 := by rw [(second.ages x).pid, (first.ages x).pid, named]
  obtain ⟨answered, sent, woken⟩ := runs.reply returned.running
    (fun y same => by cases same; rw [pid]; decide) (bytesOf 0 ++ bytesOf 1)
  have third := endures (@perform_tends back returned.running.settled.alive (.send 3 .reply _) nofun) sent
  have replied := @Reached.call _ _ (.send 3 .reply _) _ _ returned (by trivial) sent
  obtain ⟨last, received, ready⟩ := woken.take replied.running new.2.1
  have fourth := endures (@perform_tends answered replied.running.settled.alive
    (.recv .request 0 receiveSize 0) nofun) received
  have taken := @Reached.call _ _ (.recv .request 0 receiveSize 0) _ _ replied (by trivial) received
  have stays : last.Present (created.identity created.procCurrent) := by
    rw [Kernel.identity, starts.current]
    exact ⟨(ready.newcomer x rfl).2, (fourth.births x).trans
      ((third.births x).trans ((second.births x).trans (first.births x)))⟩
  refine ⟨last, _, x, taken, ready, ?_, rfl, starts.current, stays, new.1, ?_, ?_⟩
  · rw [here]
    rfl
  · rw [(fourth.ages x).pid, (third.ages x).pid, pid]
  · rw [(fourth.ages x).uid, (third.ages x).uid, (second.ages x).uid, (first.ages x).uid, record]
    rfl

/-- The server takes a process of user 7 for main, which it has the pid of, and creates a process of user 9 for it. -/
theorem pid_reused : ∃ events s after request main child, Run Step begun events s ∧ Step s (.serve 0) after ∧
    s.handled (.serve 0) = some request ∧
    (s.kernel.Present request.sender ∧ (s.kernel.procSet request.sender.slot).pid = 1 ∧
      (s.kernel.procSet request.sender.slot).uid = 7) ∧
    (main ≠ request.sender.slot ∧ s.kernel.procFind 1 = some main ∧ (s.kernel.procSet main).uid = 0) ∧
    (s.kernel.births child < after.kernel.births child ∧ (after.kernel.procSet child).owner = 1 ∧
      (after.kernel.procSet child).uid = 9) ∧
    ¬ Bounded s (.serve 0) after := by
  obtain ⟨k, request, x, ⟨events, run⟩, stage, src, contents, sender, present, other, pid, uid⟩ := user_asks
  have sane : Running k := Reached.running ⟨events, run⟩
  have found : k.procFind 1 = some mainAt := by
    unfold Kernel.procFind
    refine List.find?_cons_of_pos ?_
    simp [stage.main.used, stage.main.pid]
  have room : k.procFree ≠ [] := by
    have free : ∀ p : Slot, p ≠ mainAt → p ≠ serverAt → p ≠ shellAt → p ≠ x →
        p ∈ k.procFree := fun p main server shell other =>
      (sane.settled.queues.freeMem p).mpr (stage.others p main server shell
        fun same => other (Option.some.inj same).symm)
    by_cases third : x = ⟨3, by decide⟩
    · exact List.ne_nil_of_mem (free ⟨4, by decide⟩ (by decide) (by decide) (by decide) (by rw [third]; decide))
    · exact List.ne_nil_of_mem (free ⟨3, by decide⟩ (by decide) (by decide) (by decide) (Ne.symm third))
  obtain ⟨y, rest, ran, free⟩ := Stage.creates sane stage.up room found stage.main.uid 9
  have asks : spawnProc (execRequest 9) 1 0 = procCreateUid 1 9 0 := spawnProc_exec (by decide +kernel) 1
  have server : (atWork k .running [request]).server = some (k.identity k.procCurrent) := by
    unfold Kernel.identity
    rw [stage.current, stage.births]
    rfl
  have step := @Step.serve (atWork k .running [request]) k request [] 0 rfl server rfl
  rw [src, contents, asks, ran] at step
  have born : k.Born (created k y rest (Stage.starting k.pidGen 1 9)) y 9 := created_born free rfl
  have record : (created k y rest (Stage.starting k.pidGen 1 9)).procSet y = Stage.starting k.pidGen 1 9 :=
    Kernel.put_self
  have one : k.births y < (created k y rest (Stage.starting k.pidGen 1 9)).births y :=
    lt_of_lt_of_eq (Nat.lt_succ_self _) born.births.symm
  subst sender
  refine ⟨events, _, _, request, mainAt, y, run, step, rfl, ⟨present, pid, uid⟩,
    ⟨other.symm, found, stage.main.uid⟩, ⟨one, ?_, born.uid⟩, ?_⟩
  · exact congrArg Process.owner record
  · intro bounded
    obtain ⟨parent, same, _, inherits⟩ := bounded.inherits y one
    cases same
    have inherited := inherits (ne_of_eq_of_ne uid (by decide))
    cases born.uid.symm.trans (inherited.trans uid)

end Egos.Grass.Spawning
