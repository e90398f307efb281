import Egos.Proofs.GrassLives

/-! What a device handler gets back from the kernel: whether a reply has been delivered,
and whether proc_kill has killed the process on whose stack the handler runs. -/

namespace Egos.Grass
open Library Library.Prog

variable {k : Kernel}

/-- The client waits for a reply of this server. -/
def Awaits (k : Kernel) (server client : Pid) : Prop :=
  ∃ p, k.procFind client = some p ∧ (k.procSet p).state = .waiting ∧ ((k.procSet p).mboxes .reply).waiting = true ∧
    (k.procSet p).server = server

theorem refuses_iff {p : Process} {server : Pid} :
    (decide (p.state = .zombie) || notWaitingForReply p server) = false ↔
      p.state = .waiting ∧ (p.mboxes .reply).waiting = true ∧ p.server = server := by
  unfold notWaitingForReply
  cases p.state <;> simp

/-- A reply is delivered to a client that waits for it, and to no other. -/
theorem procSend_reply (settled : Settled k) (server client : Pid) (contents : List UInt8) :
    Ensures never (procSend server client .reply contents) k fun sent after =>
      (Settled after ∧ Evolves Wakes k after) ∧ (sent = true ↔ Awaits k server client) := by
  have delivered : Ensures (fun _ => True) (procSend server client .reply contents) k fun sent _ => sent = true ↔
      Awaits k server client := by
    unfold procSend
    apply Ensures.get
    cases found : k.procFind client with
    | none =>
      refine iff_of_false Bool.false_ne_true ?_
      rintro ⟨p, here, _⟩
      cases found.symm.trans here
    | some dst =>
      have awaits : Awaits k server client ↔
          (decide ((k.procSet dst).state = .zombie) || notWaitingForReply (k.procSet dst) server) = false := by
        rw [refuses_iff]
        constructor
        · rintro ⟨p, here, waits⟩
          cases found.symm.trans here
          exact waits
        · exact fun waits => ⟨dst, found, waits⟩
      rw [awaits]
      unfold sendTo
      apply Ensures.get
      rw [show decide (MsgType.reply = MsgType.reply) = true from rfl, Bool.true_and]
      cases decide ((k.procSet dst).state = .zombie) || notWaitingForReply (k.procSet dst) server with
      | true => exact iff_of_false Bool.false_ne_true Bool.false_ne_true.symm
      | false =>
        apply Ensures.modify
        apply Ensures.modify
        apply Ensures.bind ((when_keeps (wakeReceiver_keeps lives_quiet dst .reply)).ensures _)
        exact fun _ _ _ => ⟨fun _ => rfl, fun _ => rfl⟩
  apply ((procSend_spec settled).both delivered).weaken
  rintro sent after ⟨⟨kept, evolves, _⟩, sends⟩
  exact ⟨⟨settle kept, evolves⟩, sends⟩

/-! Killing all the processes that can be interrupted. -/

/-- The process can be interrupted, and the killer may do so. -/
def Doomed (k : Kernel) (killer p : Slot) : Prop := (k.procSet p).interruptable = true ∧ mayZap k (some killer) p = true

def Kernel.badges (k : Kernel) : Slot → Bool × Uid := fun p => (k.procSet p).badge

private theorem badges_still : Still Kernel.badges :=
  { put := fun k _ _ alters => funext (Kernel.put_cases
    (fun q entry => entry.badge = (k.procSet q).badge) alters.badge fun _ _ => rfl)
    queues := fun _ _ => rfl
    nrunnable := fun _ _ => rfl
    lives := fun _ _ => rfl
    nprocs := fun _ _ => rfl
    free := fun _ _ => rfl }

private theorem doomed_badges {after : Kernel} (same : after.badges = k.badges) (killer p : Slot) :
    Doomed after killer p ↔ Doomed k killer p := by
  have here : ∀ q, (after.procSet q).interruptable = (k.procSet q).interruptable ∧
      (after.procSet q).uid = (k.procSet q).uid :=
    fun q => Prod.mk.inj (congrFun same q)
  unfold Doomed mayZap
  dsimp only
  rw [(here p).1, (here p).2, (here killer).2]

structure Killing (k now : Kernel) : Prop where
  settled : Settled now
  current : now.procCurrent = k.procCurrent
  badges : now.badges = k.badges

private theorem zapInterruptable_each {now : Kernel} (killing : Killing k now) (killer : Slot)
    (status : UInt32) (p : Slot) :
    Ensures never (zapInterruptable killer status p) now fun _ after => Killing k after ∧
      (Doomed k killer p → (after.procSet p).state.live = false) ∧ (¬ Doomed k killer p → after = now) ∧
      ∀ q, q ≠ p → Wakes (now.procSet q).state (after.procSet q).state := by
  rw [← doomed_badges killing.badges]
  unfold zapInterruptable
  apply Ensures.get
  cases chosen : decide ((now.procSet p).state ≠ .free) && (now.procSet p).interruptable with
  | false =>
    refine ⟨killing, fun doomed => ?_, fun _ => rfl, fun _ _ => .inl rfl⟩
    rw [doomed.1, Bool.and_true, decide_eq_false_iff_not, not_not] at chosen
    rw [chosen]
    rfl
  | true =>
    simp only [Bool.and_eq_true, decide_eq_true_eq] at chosen
    by_cases doomed : Doomed now killer p
    · apply ((procZap_spec killing.settled chosen.1).both
        ((procZap_keeps badges_still (some killer)).ensures now)).weaken
      rintro _ after ⟨zapped, same⟩
      exact ⟨⟨zapped.settled, zapped.evolves.current.trans killing.current, same.trans killing.badges⟩,
        fun _ => zapped.dead doomed.2, fun spared => absurd doomed spared, zapped.others⟩
    · have refused : mayZap now (some killer) p = false :=
        Bool.eq_false_of_not_eq_true fun allowed => doomed ⟨chosen.2, allowed⟩
      have nothing : procZap (some killer) p status now = .done () now := by
        unfold procZap
        rw [Prog.bind_done (get_run now), refused]
        rfl
      exact Ensures.returns nothing ⟨killing, fun dead => absurd dead doomed, fun _ => rfl, fun _ _ => .inl rfl⟩

private theorem Wakes.zombie_iff {before after : ProcState} (wakes : Wakes before after) :
    after = .zombie ↔ before = .zombie := by
  rcases wakes with rfl | ⟨rfl, rfl⟩
  · exact .rfl
  · exact ⟨nofun, nofun⟩

/-- The current process is dead afterwards if it was before, or if it is one of those killed. -/
private theorem zapAll_current (settled : Settled k) (killer : Slot) (status : UInt32) :
    Ensures never (forSlots (zapInterruptable killer status) procSlots) k fun _ after =>
      (Settled after ∧ after.procCurrent = k.procCurrent) ∧
        ((after.procSet k.procCurrent).state = .zombie ↔
            k.current.state = .zombie ∨ Doomed k killer k.procCurrent) := by
  by_cases doomed : Doomed k killer k.procCurrent
  · have each : ∀ p now, Killing k now → Ensures never (zapInterruptable killer status p) now fun _ after =>
        Killing k after ∧ (p = k.procCurrent → (after.procSet p).state.live = false) ∧
          ∀ q, (q = k.procCurrent → (now.procSet q).state.live = false) → q = k.procCurrent →
              (after.procSet q).state.live = false := by
      intro p now killing
      apply (zapInterruptable_each killing killer status p).weaken
      rintro _ after ⟨kills, dead, _, others⟩
      refine ⟨kills, fun self => dead (self ▸ doomed), fun q gone self => ?_⟩
      by_cases here : q = p
      · subst here
        exact dead (self ▸ doomed)
      · rw [(others q here).live]
        exact gone self
    apply (forSlots_each each procSlots ⟨settled, rfl, rfl⟩).weaken
    rintro _ after ⟨kills, dead, _⟩
    refine ⟨⟨kills.settled, kills.current⟩, fun _ => .inr doomed, fun _ => ?_⟩
    have gone := dead k.procCurrent (mem_procSlots _) rfl
    have used := kills.settled.alive
    unfold Kernel.current at used
    rw [kills.current] at used
    cases state : (after.procSet k.procCurrent).state with
    | zombie => rfl
    | free => exact absurd state used
    | runnable => rw [state] at gone; cases gone
    | waiting => rw [state] at gone; cases gone
  · have each : ∀ p now, (Killing k now ∧ ((now.procSet k.procCurrent).state = .zombie ↔ k.current.state = .zombie)) →
        Ensures never (zapInterruptable killer status p) now fun _ after =>
          Killing k after ∧ ((after.procSet k.procCurrent).state = .zombie ↔ k.current.state = .zombie) := by
      rintro p now ⟨killing, same⟩
      apply (zapInterruptable_each killing killer status p).weaken
      rintro _ after ⟨kills, _, spared, others⟩
      refine ⟨kills, ?_⟩
      by_cases self : k.procCurrent = p
      · rw [spared (self ▸ doomed)]
        exact same
      · exact (others _ self).zombie_iff.trans same
    apply (forSlots_spec each procSlots ⟨⟨settled, rfl, rfl⟩, .rfl⟩).weaken
    rintro _ after ⟨kills, same⟩
    exact ⟨⟨kills.settled, kills.current⟩, same.trans (or_iff_left doomed).symm⟩

/-- proc_kill of all processes returns if the current process is alive and not one of them. -/
def Survives (k : Kernel) (killer : Pid) : Prop :=
  ∀ slot, k.procFind killer = some slot → k.current.state ≠ .zombie ∧ ¬ Doomed k slot k.procCurrent

theorem procKill_returns (settled : Settled k) (killer : Pid) (status : UInt32) :
    Ensures never (procKill killer 0 status) k fun turn after => Settled after ∧
        (turn = .running ↔ Survives k killer) := by
  unfold procKill Survives
  apply Ensures.get
  cases found : k.procFind killer with
  | none => exact ⟨settled, fun _ => nofun, fun _ => rfl⟩
  | some slot =>
    change Ensures never (killAll slot status) k _
    unfold killAll
    apply Ensures.get
    apply Ensures.bind (zapAll_current settled slot status)
    rintro _ after ⟨⟨kept, current⟩, dies⟩
    refine ⟨kept, ?_⟩
    by_cases dead : (after.procSet k.procCurrent).state = .zombie
    · rw [if_pos dead]
      refine ⟨nofun, fun survives => ?_⟩
      obtain ⟨alive, spared⟩ := survives slot rfl
      rcases dies.mp dead with zombie | doomed
      · exact absurd zombie alive
      · exact absurd doomed spared
    · rw [if_neg dead]
      refine ⟨fun _ => ?_, fun _ => rfl⟩
      rintro _ ⟨⟩
      exact ⟨fun zombie => dead (dies.mpr (.inl zombie)), fun doomed => dead (dies.mpr (.inr doomed))⟩

end Egos.Grass
