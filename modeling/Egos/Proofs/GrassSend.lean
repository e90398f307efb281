import Egos.Proofs.GrassWake

/-! proc_send keeps the kernel sound, wherever it is called from. -/

namespace Egos.Grass
open Library Library.Prog

variable {off : Set Slot} {gone : Option Pid} {k : Kernel}

/-- One process changes in fields that decide neither its state nor its queue. -/
theorem Sound.edit (sound : Sound off gone k) {p : Slot} {record : Process} (state : record.state = (k.procSet p).state)
    (place : p ∈ off ∨ record.priority = (k.procSet p).priority) (priority : record.priority < MAX_PRIORITY)
    (pid : record.pid = (k.procSet p).pid) (consistent : Consistent record)
    (served : record.state = .waiting →
      (record.mboxes .reply).waiting = ((k.procSet p).mboxes .reply).waiting ∧ record.server = (k.procSet p).server) :
    Sound off gone (k.put p record) := by
  have states : ∀ q, ((k.put p record).procSet q).state = (k.procSet q).state :=
    Kernel.put_cases (fun q entry => entry.state = (k.procSet q).state) state fun _ _ => rfl
  have pids : ∀ q, ((k.put p record).procSet q).pid = (k.procSet q).pid :=
    Kernel.put_cases (fun q entry => entry.pid = (k.procSet q).pid) pid fun _ _ => rfl
  have servers : ∀ {pid : Pid}, (∃ s, (k.procSet s).state.live = true ∧ (k.procSet s).pid = pid) →
      ∃ s, ((k.put p record).procSet s).state.live = true ∧ ((k.put p record).procSet s).pid = pid := by
    rintro _ ⟨s, live, named⟩
    exact ⟨s, by rw [states]; exact live, by rw [pids]; exact named⟩
  refine ⟨?_, sound.aside, ?_, ?_, ?_, ?_⟩
  · have runs : isRunnable record = isRunnable (k.procSet p) := by unfold isRunnable; rw [state]
    have queued : p ∈ off ∨ (record.priority = (k.procSet p).priority ∧
        record.state.queued = (k.procSet p).state.queued) :=
      place.imp_right fun same => ⟨same, by rw [state]⟩
    have counts : k.procNrunnable = k.procNrunnable - weight isRunnable (k.procSet p) + weight isRunnable record := by
      unfold weight
      rw [runs, Int.sub_add_cancel]
    exact sound.queues.replace rfl queued priority (by rw [state]) rfl rfl rfl counts
  · intro q inside blocked
    rw [states] at blocked
    exact sound.blocked q inside blocked
  · exact Kernel.put_cases (fun _ entry => Consistent entry) consistent fun q _ => sound.consistent q
  · intro q blocked waits
    by_cases same : q = p
    · subst same
      rw [Kernel.put_self] at blocked waits ⊢
      obtain ⟨flag, server⟩ := served blocked
      rw [server]
      exact (sound.served q (state ▸ blocked) (flag ▸ waits)).imp_right servers
    · rw [Kernel.put_of_ne same] at blocked waits ⊢
      exact (sound.served q blocked waits).imp_right servers
  · unfold Kernel.current
    rw [states]
    exact sound.alive

theorem Kernel.put_woken {p : Slot} {first record : Process} : (k.put p first).woken p record = k.woken p record := by
  unfold Kernel.woken
  rw [Kernel.put_put]
  rfl

private theorem send_busy (sound : Sound off gone k) {dst : Slot} {mtype : MsgType}
    (live : (k.procSet dst).state.live = true)
    (busy : ((k.procSet dst).mboxes mtype).waiting = false) (notReply : mtype ≠ .reply) (msg : Message) :
    Sound off gone (k.put dst ((k.procSet dst).setMbox mtype (·.add msg))) ∧
      Evolves Wakes k (k.put dst ((k.procSet dst).setMbox mtype (·.add msg))) := by
  have consistent := (sound.consistent dst).accept live notReply busy msg
  constructor
  · refine sound.edit rfl (.inr rfl) (sound.priority dst) rfl consistent fun _ => ⟨?_, rfl⟩
    rw [Process.setMbox_of_ne notReply.symm]
  · exact .put (fun _ => .inl rfl) rfl rfl rfl rfl (.inl rfl)

private theorem send_waited (sound : Sound off gone k) {dst : Slot} {mtype : MsgType} {msg : Message}
    (waiting : (k.procSet dst).state = .waiting) (waits : ((k.procSet dst).mboxes mtype).waiting = true)
    (answered : mtype = .reply → msg.src = (k.procSet dst).server) (life : Life) :
    Ensures never (wakeReceiver dst mtype) ((k.put dst ((k.procSet dst).setMbox mtype (·.add msg))).record life)
        fun _ after =>
      Sound off gone after ∧ Evolves Wakes k after := by
  have ran := @wakeReceiver_run ((k.put dst ((k.procSet dst).setMbox mtype (·.add msg))).record life) dst mtype
    (by rw [Kernel.record_procSet, Kernel.put_self]; exact waiting)
    (by rw [Kernel.record_procSet, Kernel.put_self]; exact sound.priority dst)
  rw [Kernel.record_woken, Kernel.put_woken, Kernel.record_procSet, Kernel.put_self] at ran
  apply Ensures.returns ran
  constructor
  · apply Sound.record
    refine sound.woken waiting rfl (sound.priority dst) ?_ rfl
    refine (sound.consistent dst).receive waiting waits answered rfl rfl rfl ?_
    unfold Process.setMbox
    simp only [Function.update_idem, Function.update_self]
  · apply Evolves.record
    exact .woken waiting rfl rfl rfl

theorem sendTo_spec (sound : Sound off gone k) {srcPid : Pid} {dst : Slot} {mtype : MsgType} {contents : List UInt8}
    (used : (k.procSet dst).state ≠ .free) : Ensures never (sendTo srcPid dst mtype contents) k fun sent after =>
      Sound off gone after ∧ Evolves Wakes k after ∧ (sent = true → (k.procSet dst).state.live = true) := by
  unfold sendTo
  apply Ensures.get
  cases refused : decide ((k.procSet dst).state = .zombie) ||
    (mtype = .reply && notWaitingForReply (k.procSet dst) srcPid) with
  | true => exact ⟨sound, .wakes_refl k, nofun⟩
  | false =>
    simp only [Bool.or_eq_false_iff, decide_eq_false_iff_not, Bool.and_eq_false_iff] at refused
    obtain ⟨notZombie, expected⟩ := refused
    have answers : mtype = .reply → (k.procSet dst).state = .waiting ∧ ((k.procSet dst).mboxes .reply).waiting = true ∧
        srcPid = (k.procSet dst).server := by
      intro reply
      have known := expected.resolve_left (not_not_intro reply)
      unfold notWaitingForReply at known
      simp only [Bool.or_eq_false_iff, decide_eq_false_iff_not, not_not, Bool.not_eq_false', ne_eq] at known
      exact ⟨known.1.1, known.1.2, known.2.symm⟩
    have live : (k.procSet dst).state.live = true := by
      cases state : (k.procSet dst).state with
      | free => exact absurd state used
      | zombie => exact absurd state notZombie
      | runnable => rfl
      | waiting => rfl
    apply Ensures.modify
    apply Ensures.modify
    cases waits : ((k.procSet dst).mboxes mtype).waiting with
    | false =>
      have notReply : mtype ≠ .reply := by
        rintro rfl
        rw [(answers rfl).2.1] at waits
        cases waits
      obtain ⟨kept, evolves⟩ := send_busy sound live waits notReply { src := srcPid, contents }
      exact ⟨kept.record _, evolves.record _, fun _ => live⟩
    | true =>
      have waiting : (k.procSet dst).state = .waiting := by
        cases state : (k.procSet dst).state with
        | waiting => rfl
        | free => exact absurd state used
        | zombie => exact absurd state notZombie
        | runnable =>
          rw [(sound.consistent dst).idle state mtype] at waits
          cases waits
      apply Ensures.bind (send_waited sound waiting waits (fun reply => (answers reply).2.2) _)
      rintro _ after ⟨kept, evolves⟩
      exact ⟨kept, evolves, fun _ => live⟩

theorem procSend_spec (sound : Sound off gone k) {srcPid dstPid : Pid} {mtype : MsgType} {contents : List UInt8} :
    Ensures never (procSend srcPid dstPid mtype contents) k fun sent after =>
      Sound off gone after ∧ Evolves Wakes k after ∧
        (sent = true → ∃ s, (after.procSet s).state.live = true ∧ (after.procSet s).pid = dstPid) := by
  unfold procSend
  apply Ensures.get
  cases found : k.procFind dstPid with
  | none => exact ⟨sound, .wakes_refl k, nofun⟩
  | some dst =>
    obtain ⟨used, named⟩ := Kernel.procFind_some found
    apply (sendTo_spec sound used).weaken
    rintro sent after ⟨kept, evolves, live⟩
    refine ⟨kept, evolves, fun yes => ⟨dst, ?_, (evolves.pid dst).trans named⟩⟩
    rw [(evolves.state dst).live]
    exact live yes

end Egos.Grass
