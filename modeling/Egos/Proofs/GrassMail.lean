import Mathlib.Data.List.Forall2
import Egos.Proofs.GrassQueues

/-! What holds of one process: which mailbox it waits on, what its reply mailbox
may hold, and that no message is lost between proc_send and proc_recv. -/

namespace Egos.Grass
open Library

/-- The receipt has the source and as much of the message as the caller had room for. -/
def Receipt.Of (receipt : Receipt) (msg : Message) : Prop :=
  receipt.src = msg.src ∧ receipt.contents = msg.contents.take receipt.room

def MsgQueue.Ledger (mq : MsgQueue) : Prop :=
  ∃ taken, mq.accepted = taken ++ mq.messages ∧ List.Forall₂ Receipt.Of mq.returned taken

structure Consistent (p : Process) : Prop where
  idle : p.state = .runnable → ∀ mtype, (p.mboxes mtype).waiting = false
  blocked : p.state = .waiting → ∃ await, p.call = some await ∧
    (∀ mtype, (p.mboxes mtype).waiting = decide (mtype = await.mtype)) ∧ (p.mboxes await.mtype).messages = []
  reply : p.state.live = true → (p.mboxes .reply).messages = [] ∨ ∃ await msg, p.call = some await ∧
    await.mtype = .reply ∧ (p.mboxes .reply).messages = [msg] ∧ msg.src = p.server
  rpc : p.state.live = true → ∀ await pid, p.call = some await → await.rpc = some pid →
    await.mtype = .reply ∧ p.server = pid
  ledger : p.state ≠ .free → ∀ mtype, (p.mboxes mtype).Ledger

namespace MsgQueue.Ledger

theorem init : mqInit.Ledger := ⟨[], rfl, .nil⟩

theorem add {mq : MsgQueue} (ledger : mq.Ledger) (msg : Message) : (mq.add msg).Ledger := by
  obtain ⟨taken, split, same⟩ := ledger
  refine ⟨taken, ?_, same⟩
  unfold MsgQueue.add
  rw [split, List.append_assoc]

theorem get {mq : MsgQueue} {msg : Message} {rest : List Message} (ledger : mq.Ledger)
    (head : mq.messages = msg :: rest)
    {receipt : Receipt} (copied : receipt.Of msg) : (mq.returnHead rest receipt).Ledger := by
  obtain ⟨taken, split, same⟩ := ledger
  refine ⟨taken ++ [msg], ?_, List.rel_append same (.cons copied .nil)⟩
  unfold MsgQueue.returnHead
  rw [split, head, List.append_assoc]
  rfl

theorem setWaiting {mq : MsgQueue} (ledger : mq.Ledger) (waiting : Bool) : MsgQueue.Ledger { mq with waiting } := ledger

end MsgQueue.Ledger

namespace Process
variable {p : Process} {mtype other : MsgType} {change : MsgQueue → MsgQueue}

theorem setMbox_self : (p.setMbox mtype change).mboxes mtype = change (p.mboxes mtype) := Function.update_self ..

theorem setMbox_of_ne (different : other ≠ mtype) : (p.setMbox mtype change).mboxes other = p.mboxes other :=
  Function.update_of_ne different ..

/-- The mailbox that a change is about, and the others. -/
theorem setMbox_cases (holds : MsgType → MsgQueue → Prop) (here : holds mtype (change (p.mboxes mtype)))
    (others : ∀ other, other ≠ mtype → holds other (p.mboxes other)) (other : MsgType) :
    holds other ((p.setMbox mtype change).mboxes other) := by
  by_cases same : other = mtype
  · subst same; rw [setMbox_self]; exact here
  · rw [setMbox_of_ne same]; exact others other same

end Process

namespace Consistent
variable {p : Process} {after : Process}

/-- A runnable process that has no call to return to has no reply either. -/
theorem no_reply (consistent : Consistent p) (live : p.state.live = true) (outside : p.call = none) :
    (p.mboxes .reply).messages = [] := by
  rcases consistent.reply live with empty | ⟨await, msg, call, _⟩
  · exact empty
  · rw [outside] at call; cases call

/-- Fields of the scheduler are of no concern here. -/
theorem congr (consistent : Consistent p) (state : after.state = p.state) (mboxes : after.mboxes = p.mboxes)
    (call : after.call = p.call) (server : after.server = p.server) : Consistent after := by
  refine ⟨?_, ?_, ?_, ?_, ?_⟩
  · rw [state, mboxes]; exact consistent.idle
  · rw [state, mboxes, call]; exact consistent.blocked
  · rw [state, mboxes, call, server]; exact consistent.reply
  · rw [state, call, server]; exact consistent.rpc
  · rw [state, mboxes]; exact consistent.ledger

theorem fresh (pid owner : Pid) (uid : Uid) : Consistent (Process.fresh pid owner uid) := by
  refine ⟨fun _ _ => rfl, ?_, fun _ => .inl rfl, ?_, fun _ _ => .init⟩
  · intro waiting; cases waiting
  · intro _ await pid call; cases call

/-- Nothing is asked of the dead but that their messages are still there. -/
theorem zombie (consistent : Consistent p) (used : p.state ≠ .free) (state : after.state = .zombie)
    (mboxes : after.mboxes = p.mboxes) : Consistent after := by
  refine ⟨?_, ?_, ?_, ?_, ?_⟩
  · rw [state]; exact nofun
  · rw [state]; exact nofun
  · rw [state]; exact nofun
  · rw [state]; exact nofun
  · rw [mboxes]; exact fun _ => consistent.ledger used

theorem free (state : after.state = .free) : Consistent after := by
  refine ⟨?_, ?_, ?_, ?_, fun used => absurd state used⟩
  · rw [state]; exact nofun
  · rw [state]; exact nofun
  · rw [state]; exact nofun
  · rw [state]; exact nofun

/-- A message for a live process that does not wait for it. -/
theorem accept (consistent : Consistent p) (live : p.state.live = true) {mtype : MsgType} (notReply : mtype ≠ .reply)
    (busy : (p.mboxes mtype).waiting = false) (msg : Message) :
    Consistent (p.setMbox mtype (·.add msg)) := by
  have used : p.state ≠ .free := by rintro free; rw [free] at live; cases live
  refine ⟨?_, ?_, ?_, consistent.rpc, ?_⟩
  · intro runnable
    have idle := consistent.idle runnable
    exact Process.setMbox_cases (fun _ mq => mq.waiting = false) (idle mtype) fun other _ => idle other
  · intro waiting
    obtain ⟨await, call, flags, empty⟩ := consistent.blocked waiting
    have other : await.mtype ≠ mtype := by
      rintro rfl
      rw [flags] at busy
      simp at busy
    refine ⟨await, call, ?_, ?_⟩
    · exact Process.setMbox_cases (fun m mq => mq.waiting = decide (m = await.mtype)) (flags mtype) fun m _ => flags m
    · rw [Process.setMbox_of_ne other]
      exact empty
  · intro live
    rw [Process.setMbox_of_ne notReply.symm]
    exact consistent.reply live
  · intro _
    have ledger := consistent.ledger used
    exact Process.setMbox_cases (fun _ mq => mq.Ledger) ((ledger mtype).add msg) fun other _ => ledger other

/-- The record proc_send leaves of a process that waited for the message. -/
theorem receive (consistent : Consistent p) (waiting : p.state = .waiting) {mtype : MsgType}
    (waits : (p.mboxes mtype).waiting = true) {msg : Message} (answered : mtype = .reply → msg.src = p.server)
    (state : after.state = .runnable) (call : after.call = p.call) (server : after.server = p.server)
    (mboxes : after.mboxes = Function.update p.mboxes mtype { (p.mboxes mtype).add msg with waiting := false }) :
    Consistent after := by
  obtain ⟨await, called, flags, empty⟩ := consistent.blocked waiting
  have here : mtype = await.mtype := by
    rw [flags] at waits
    exact of_decide_eq_true waits
  subst here
  have live : p.state.live = true := by rw [waiting]; rfl
  have used : p.state ≠ .free := by rw [waiting]; exact nofun
  refine ⟨?_, ?_, ?_, ?_, ?_⟩
  · intro _ mtype
    rw [mboxes]
    by_cases same : mtype = await.mtype
    · subst same; rw [Function.update_self]
    · rw [Function.update_of_ne same, flags, decide_eq_false same]
  · rw [state]; exact nofun
  · intro _
    rw [mboxes, call, server]
    by_cases same : await.mtype = .reply
    · refine .inr ⟨await, msg, called, same, ?_, answered same⟩
      rw [← same, Function.update_self, MsgQueue.add, empty]
      rfl
    · rw [Function.update_of_ne (Ne.symm same)]
      exact consistent.reply live
  · intro _
    rw [call, server]
    exact consistent.rpc live
  · intro _ mtype
    have ledger := consistent.ledger used mtype
    rw [mboxes]
    by_cases same : mtype = await.mtype
    · subst same; rw [Function.update_self]; exact (ledger.add msg).setWaiting false
    · rw [Function.update_of_ne same]; exact ledger

/-- The record proc_wakeup leaves. -/
theorem wakeup (consistent : Consistent p) (waiting : p.state = .waiting) (state : after.state = .runnable)
    (call : after.call = p.call) (server : after.server = p.server)
    (mboxes : after.mboxes = fun mtype => { p.mboxes mtype with waiting := false }) : Consistent after := by
  have live : p.state.live = true := by rw [waiting]; rfl
  have used : p.state ≠ .free := by rw [waiting]; exact nofun
  refine ⟨?_, ?_, ?_, ?_, ?_⟩
  · intro _ mtype; rw [mboxes]
  · rw [state]; exact nofun
  · intro _
    rw [mboxes, call, server]
    exact consistent.reply live
  · intro _
    rw [call, server]
    exact consistent.rpc live
  · intro _ mtype
    rw [mboxes]
    exact (consistent.ledger used mtype).setWaiting false

/-- proc_recv waits on an empty mailbox. -/
theorem wait (consistent : Consistent p) (runnable : p.state = .runnable) (outside : p.call = none) {await : Await}
    (empty : (p.mboxes await.mtype).messages = [])
    (called : ∀ pid, await.rpc = some pid → await.mtype = .reply ∧ p.server = pid)
    (state : after.state = .waiting) (call : after.call = some await) (server : after.server = p.server)
    (mboxes : after.mboxes = Function.update p.mboxes await.mtype { p.mboxes await.mtype with waiting := true }) :
    Consistent after := by
  have live : p.state.live = true := by rw [runnable]; rfl
  have used : p.state ≠ .free := by rw [runnable]; exact nofun
  refine ⟨?_, ?_, ?_, ?_, ?_⟩
  · rw [state]; exact nofun
  · intro _
    refine ⟨await, call, ?_, ?_⟩
    · intro mtype
      rw [mboxes]
      by_cases same : mtype = await.mtype
      · subst same; rw [Function.update_self]; simp
      · rw [Function.update_of_ne same, decide_eq_false same]
        exact consistent.idle runnable mtype
    · rw [mboxes, Function.update_self]
      exact empty
  · intro _
    refine .inl ?_
    have none := consistent.no_reply live outside
    rw [mboxes]
    by_cases same : MsgType.reply = await.mtype
    · rw [same, Function.update_self]; exact empty
    · rw [Function.update_of_ne same]; exact none
  · intro _ other pid given rpc
    rw [call] at given
    cases given
    rw [server]
    exact called pid rpc
  · intro _ mtype
    have ledger := consistent.ledger used mtype
    rw [mboxes]
    by_cases same : mtype = await.mtype
    · subst same; rw [Function.update_self]; exact ledger.setWaiting true
    · rw [Function.update_of_ne same]; exact ledger

/-- proc_recv has returned: the process has no call to return to, and the message
it was given, if any, is off the queue. -/
theorem got (consistent : Consistent p) (runnable : p.state = .runnable) {mtype : MsgType} {msg : Message}
    {rest : List Message}
    (own : p.call = none ∧ mtype ≠ .reply ∨ ∃ await, p.call = some await ∧ await.mtype = mtype)
    (head : (p.mboxes mtype).messages = msg :: rest) {receipt : Receipt} (copied : receipt.Of msg)
    (state : after.state = .runnable) (call : after.call = none)
    (mboxes : after.mboxes = (p.setMbox mtype (·.returnHead rest receipt)).mboxes) :
    Consistent after := by
  have live : p.state.live = true := by rw [runnable]; rfl
  have used : p.state ≠ .free := by rw [runnable]; exact nofun
  refine ⟨?_, ?_, ?_, ?_, ?_⟩
  · intro _ other
    have idle := consistent.idle runnable
    rw [mboxes]
    by_cases same : other = mtype
    · subst same; rw [Process.setMbox_self]; exact idle other
    · rw [Process.setMbox_of_ne same]; exact idle other
  · rw [state]; exact nofun
  · intro _
    refine .inl ?_
    rw [mboxes]
    rcases consistent.reply live with empty | ⟨await, only, called, reply, single, _⟩
    · by_cases same : mtype = .reply
      · subst same; rw [empty] at head; cases head
      · rw [Process.setMbox_of_ne (Ne.symm same)]; exact empty
    · rcases own with ⟨outside, _⟩ | ⟨given, called', here⟩
      · rw [outside] at called; cases called
      · rw [called] at called'
        cases called'
        rw [← here, reply] at head ⊢
        rw [single] at head
        cases head
        rw [Process.setMbox_self]
        rfl
  · intro _ await pid given
    rw [call] at given
    cases given
  · intro _ other
    have ledger := consistent.ledger used other
    rw [mboxes]
    by_cases same : other = mtype
    · subst same; rw [Process.setMbox_self]; exact ledger.get head copied
    · rw [Process.setMbox_of_ne same]; exact ledger

/-- proc_recv has timed out. -/
theorem gotNothing (consistent : Consistent p) (runnable : p.state = .runnable) {await : Await}
    (given : p.call = some await)
    (empty : (p.mboxes await.mtype).messages = []) (state : after.state = .runnable) (call : after.call = none)
    (mboxes : after.mboxes = p.mboxes) : Consistent after := by
  have live : p.state.live = true := by rw [runnable]; rfl
  refine ⟨?_, ?_, ?_, ?_, ?_⟩
  · rw [mboxes]; exact fun _ => consistent.idle runnable
  · rw [state]; exact nofun
  · intro _
    refine .inl ?_
    rw [mboxes]
    rcases consistent.reply live with none | ⟨other, msg, called, reply, single, _⟩
    · exact none
    · rw [given] at called
      cases called
      rw [← reply]
      exact empty
  · intro _ other pid called
    rw [call] at called
    cases called
  · rw [mboxes]
    intro _
    exact consistent.ledger (by rw [runnable]; exact nofun)

end Consistent
end Egos.Grass
