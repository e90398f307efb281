import Egos.Proofs.PagingFrames

/-! Every reachable state accounts for all frames, as long as no eviction is completed
with another clock hand and no process dies in the middle of one. -/

namespace Egos.Paging
open Library Library.Prog Grass

section Death
variable {s : State} {p : Slot}

theorem procs_dead (q : Slot) :
    (s.dead p).procs q = if q = p then { s.procs p with alive := false, fault := .none } else s.procs q := by
  change Function.update s.procs p _ q = _
  rw [Function.update_apply]

theorem mem_freed {f : FrameNo} (alive : (s.procs p).alive = true) :
    (f ∈ (List.finRange VIRT_PAGES).filterMap fun page => (((s.dead p).procs p).pages page).frame?) ↔
        ∃ page, s.Holds ⟨p, page⟩ f := by
  simp only [List.mem_filterMap, List.mem_finRange, true_and, procs_dead, if_true, PageInfo.frame?_eq_some]
  exact ⟨fun ⟨page, valid⟩ => ⟨page, alive, valid⟩, fun ⟨page, _, valid⟩ => ⟨page, valid⟩⟩

theorem dead_holds (a : PagePtr) (f : FrameNo) : (s.dead p).Holds a f ↔ a.proc ≠ p ∧ s.Holds a f := by
  unfold State.Holds State.page
  rw [procs_dead]
  by_cases same : a.proc = p <;> simp [same]

theorem dead_evicts (a : PagePtr) (f : FrameNo) : (s.dead p).Evicts a f ↔ a.proc ≠ p ∧ s.Evicts a f := by
  unfold State.Evicts
  rw [procs_dead]
  by_cases same : a.proc = p <;> simp [same]

/-- A process that dies while it has the CPU gives it up. -/
theorem dead_running (running : s.mode ≠ .yielding → s.self.alive = true) (runs : (s.dead p).mode ≠ .yielding) :
    (s.dead p).self.alive = true := by
  have apart : s.current ≠ p := fun here => runs (if_pos here)
  have mode : (s.dead p).mode = s.mode := if_neg apart
  have self : (s.dead p).procs s.current = s.procs s.current := (procs_dead _).trans (if_neg apart)
  change ((s.dead p).procs s.current).alive = true
  rw [self]
  exact running fun yielding => runs (mode.trans yielding)

theorem Accounted.term {intact : Prop} (acc : Accounted intact none s) (alive : (s.procs p).alive = true)
    (guard : intact → ∀ page f block blocks source, (s.procs p).fault ≠ .writing page f block blocks source) :
    Accounted intact none ((s.dead p).released p (List.finRange VIRT_PAGES)) := by
  let freed := (List.finRange VIRT_PAGES).filterMap fun page => (((s.dead p).procs p).pages page).frame?
  let after := (s.dead p).released p (List.finRange VIRT_PAGES)
  have mem : ∀ f, f ∈ freed ↔ ∃ page, s.Holds ⟨p, page⟩ f := fun f => mem_freed alive
  have gone : ∀ f, f ∈ freed → after.frameInfo f = { s.frameInfo f with status := .free } := fun f inside =>
    if_pos inside
  have kept : ∀ f, f ∉ freed → after.frameInfo f = s.frameInfo f := fun f outside => if_neg outside
  have same : ∀ f, f ∉ freed → SameUse (s.frameInfo f) (after.frameInfo f) := fun f outside => kept f outside ▸ .refl _
  have holds : ∀ a f, after.Holds a f ↔ a.proc ≠ p ∧ s.Holds a f := dead_holds
  have evicts : ∀ a f, after.Evicts a f ↔ a.proc ≠ p ∧ s.Evicts a f := dead_evicts
  have inUse : ∀ f, f ∈ freed → s.InUse f := by
    intro f inside
    obtain ⟨page, held⟩ := (mem f).mp inside
    exact (acc.owned _ f held).2.1
  have unfree : ∀ f, f ∈ freed → f ∉ s.freeframes := by
    intro f inside free
    have status := ((acc.free f).mp free).2
    rcases inUse f inside with clash | clash
    · cases status.symm.trans clash
    · cases status.symm.trans clash
  have other : ∀ a f, a.proc ≠ p → s.Holds a f → f ∉ freed := by
    intro a f apart held inside
    obtain ⟨page, mine⟩ := (mem f).mp inside
    exact apart (congrArg PagePtr.proc (acc.holder_unique held mine))
  refine ⟨dead_running acc.running, ?_, ?_, ?_, ?_, ?_, ?_, ?_, ?_⟩
  · refine List.nodup_append.mpr ⟨acc.nodup, ?_, ?_⟩
    · refine List.Nodup.filterMap ?_ (List.nodup_finRange VIRT_PAGES)
      intro first second f left right
      rw [Option.mem_def, PageInfo.frame?_eq_some, procs_dead, if_pos rfl] at left right
      have same : (⟨p, first⟩ : PagePtr) = ⟨p, second⟩ := acc.holder_unique ⟨alive, left⟩ ⟨alive, right⟩
      exact congrArg PagePtr.page same
    · rintro f free g inside rfl
      exact unfree f inside free
  · intro f
    refine List.mem_append.trans ?_
    by_cases inside : f ∈ freed
    · rw [gone f inside]
      exact iff_of_true (.inr inside) ⟨nofun, rfl⟩
    · rw [kept f inside, ← acc.free f]
      exact or_iff_left inside
  · intro a f held
    obtain ⟨apart, held⟩ := (holds a f).mp held
    have outside := other a f apart held
    rw [(same f outside).inUse, kept f outside]
    exact acc.owned a f held
  · intro f _ use
    have outside : f ∉ freed := by
      intro inside
      unfold State.InUse at use
      rw [gone f inside] at use
      rcases use with clash | clash <;> cases clash
    obtain ⟨a, held⟩ := acc.owner f nofun ((same f outside).inUse.mp use)
    refine ⟨a, (holds a f).mpr ⟨?_, held⟩⟩
    rintro rfl
    exact outside ((mem f).mpr ⟨a.page, held⟩)
  · intro a f evicting
    obtain ⟨_, evicting⟩ := (evicts a f).mp evicting
    have pin := (acc.pinned a f evicting).2
    have outside : f ∉ freed := by
      intro inside
      rcases inUse f inside with clash | clash
      · cases pin.symm.trans clash
      · cases pin.symm.trans clash
    rw [kept f outside]
    exact ⟨nofun, pin⟩
  · exact fun a b f first second => acc.alone a b f ((evicts a f).mp first).2 ((evicts b f).mp second).2
  · exact fun a f g evicting held => acc.absent a f g ((evicts a f).mp evicting).2 ((holds a g).mp held).2
  · intro ok f _ pin
    have outside : f ∉ freed := by
      intro inside
      rw [gone f inside] at pin
      cases pin
    rw [kept f outside] at pin
    obtain ⟨a, evicting⟩ := acc.traced ok f nofun pin
    refine ⟨a, (evicts a f).mpr ⟨?_, evicting⟩⟩
    rintro rfl
    obtain ⟨_, _, _, _, stage⟩ := evicting
    exact guard ok _ _ _ _ _ stage

end Death

/-- An eviction is only completed with the clock hand where it was. -/
def HandKept (s : State) : Event → Prop
  | .resume => ∀ page frame block blocks source, s.self.fault = .writing page frame block blocks source →
      ¬ blocks < BLOCKS_PER_PAGE → s.clockHand = frame
  | _ => True

/-- No process is terminated in the middle of an eviction. -/
def Unkilled (s : State) : Event → Prop
  | .term p => ∀ page frame block blocks source, (s.procs p).fault ≠ .writing page frame block blocks source
  | _ => True

namespace Accounted
variable {intact : Prop} {s after : State}

private theorem create (acc : Accounted intact none s) {p : Slot} {user : Bool} {image : PageNo → Option Contents}
    (unused : (s.procs p).alive = false) (created : procCreate p user image s = .done () after) :
    Accounted intact none after := by
  cases created
  let fresh : Proc := { alive := true, user, pages := fun _ => .uninit, image, fault := .none }
  have procs : ∀ q, (s.setProc p fresh).procs q = if q = p then fresh else s.procs q := fun q =>
    Function.update_apply ..
  refine acc.keep (fun _ => ?_) rfl (fun _ => .refl _) ?_ ?_
  · exact congrArg Proc.alive ((procs p).trans (if_pos rfl))
  · intro a f
    change (((s.setProc p fresh).procs a.proc).alive = true ∧ ((s.setProc p fresh).procs a.proc).pages a.page = _) ↔ _
    unfold State.Holds
    rw [procs]
    by_cases here : a.proc = p
    · simp [here, unused, fresh]
    · simp only [here, if_false]
      exact .rfl
  · intro a f
    change (((s.setProc p fresh).procs a.proc).alive = true ∧ ∃ _ _ _, ((s.setProc p fresh).procs a.proc).fault = _) ↔ _
    unfold State.Evicts
    rw [procs]
    by_cases here : a.proc = p
    · simp [here, unused, fresh]
    · simp only [here, if_false]

theorem step {event : Event} (acc : Accounted intact none s) (hand : HandKept s event)
    (kills : intact → Unkilled s event)
    (step : Step s event after) : Accounted intact none after := by
  obtain ⟨enabled, ran⟩ := step
  have stored : ∀ page offset byte, s.mode ≠ .yielding → store page offset byte s = .done () after →
      Accounted intact none after := by
    intro page offset byte runs ran
    obtain ⟨i, entry, _, _, rfl⟩ := (store_does s page offset byte).done ran
    exact acc.same (fun _ => acc.running runs) rfl rfl rfl
  cases event with
  | toUser =>
    cases ran
    exact acc.same (fun _ => acc.running (by rw [enabled.1]; exact nofun)) rfl rfl rfl
  | trap =>
    cases ran
    have alive := acc.running (by rw [enabled]; exact nofun)
    dsimp only
    rw [tlbSync_rest]
    exact acc.same (fun _ => alive) rfl rfl rfl
  | userStore page offset byte => exact stored page offset byte (by rw [enabled.1]; exact nofun) ran
  | copyStore page offset byte => exact stored page offset byte (by rw [enabled.1]; exact nofun) ran
  | fault page =>
    have alive := acc.running (by rw [enabled.1]; exact nofun)
    exact acc.faulted alive enabled.2.2.1 ((procPagefault_does s page).done ran)
  | resume =>
    have alive := acc.running (by rw [enabled.1]; exact nofun)
    exact acc.resumed alive hand ((resumeFault_does s enabled.2).done ran)
  | switch proc =>
    cases ran
    dsimp only
    rw [tlbFlush_rest]
    exact acc.same (fun _ => enabled.2.2) rfl rfl rfl
  | term proc =>
    cases (procTerm_does s proc).done ran
    exact acc.term enabled.2 kills
  | create proc user image => exact acc.create enabled.2.2 ran

end Accounted

theorem booted_accounted {intact : Prop} : Accounted intact none booted := by
  refine ⟨fun _ => rfl, List.nodup_finRange _, ?_, ?_, ?_, ?_, ?_, ?_, ?_⟩
  · exact fun f => iff_of_true (List.mem_finRange f) ⟨nofun, rfl⟩
  · rintro a f ⟨_, clash⟩
    cases clash
  · rintro f _ (clash | clash) <;> cases clash
  · rintro a f ⟨_, _, _, _, clash⟩
    cases clash
  · rintro a b f ⟨_, _, _, _, clash⟩
    cases clash
  · rintro a f g ⟨_, _, _, _, clash⟩
    cases clash
  · rintro _ f _ clash
    cases clash

inductive Situation where
  | free
  | owned (page : PagePtr)
  | pinned (page : PagePtr)

def State.Situated (s : State) (f : FrameNo) : Situation → Prop
  | .free => s.freeframes.count f = 1 ∧ (s.frameInfo f).status = .free ∧ ∀ a, ¬ s.Holds a f
  | .owned page => s.InUse f ∧ f ∉ s.freeframes ∧ (s.frameInfo f).pi = some page ∧ s.Holds page f ∧
      ∀ a, s.Holds a f → a = page
  | .pinned page => (s.frameInfo f).status = .pinned ∧ f ∉ s.freeframes ∧ s.Evicts page f ∧ ∀ a, ¬ s.Holds a f

private theorem Accounted.situated {s : State} (acc : Accounted True none s) (f : FrameNo) :
    ∃! situation, s.Situated f situation := by
  have used : s.InUse f → ∃! situation, s.Situated f situation := by
    intro use
    obtain ⟨a, held⟩ := acc.owner f nofun use
    have unlisted : f ∉ s.freeframes := fun listed => by
      have free := ((acc.free f).mp listed).2
      rcases use with clash | clash
      · cases free.symm.trans clash
      · cases free.symm.trans clash
    refine ⟨.owned a, ⟨use, unlisted, (acc.owned a f held).2.2, held, fun b other => acc.holder_unique other held⟩, ?_⟩
    intro situation situated
    cases situation with
    | free => exact absurd held (situated.2.2 a)
    | owned b => exact congrArg Situation.owned (acc.holder_unique situated.2.2.2.1 held)
    | pinned b => exact absurd held (situated.2.2.2 a)
  cases status : (s.frameInfo f).status with
  | ref => exact used (.inl status)
  | unref => exact used (.inr status)
  | free =>
    have unused : ¬ s.InUse f := by
      rintro (clash | clash)
      · cases status.symm.trans clash
      · cases status.symm.trans clash
    have listed : f ∈ s.freeframes := (acc.free f).mpr ⟨nofun, status⟩
    refine ⟨.free, ⟨List.count_eq_one_of_mem acc.nodup listed, status, acc.unheld unused⟩, ?_⟩
    intro situation situated
    cases situation with
    | free => rfl
    | owned b => exact absurd situated.1 unused
    | pinned b => cases status.symm.trans situated.1
  | pinned =>
    have unused : ¬ s.InUse f := by
      rintro (clash | clash)
      · cases status.symm.trans clash
      · cases status.symm.trans clash
    obtain ⟨a, evicting⟩ := acc.traced trivial f nofun status
    have unlisted : f ∉ s.freeframes := fun listed => by cases status.symm.trans ((acc.free f).mp listed).2
    refine ⟨.pinned a, ⟨status, unlisted, evicting, acc.unheld unused⟩, ?_⟩
    intro situation situated
    cases situation with
    | free => cases status.symm.trans situated.2.1
    | owned b => exact absurd situated.1 unused
    | pinned b => exact congrArg Situation.pinned (acc.alone b a f situated.2.2.1 evicting)

def Undisturbed (s : State) (event : Event) : Prop := HandKept s event ∧ Unkilled s event

/-- No frame is lost and no frame is in two places. -/
theorem frames_accounted {events : List Event} {s : State}
    (run : Run (Guarded Undisturbed Step) booted events s) (f : FrameNo) :
    ∃! situation, s.Situated f situation := by
  have kept : ∀ before event after, Accounted True none before → Guarded Undisturbed Step before event after →
      Accounted True none after := fun _ _ _ acc step => acc.step step.1.1 (fun _ => step.1.2) step.2
  exact (run.invariant kept booted_accounted).situated f

section Lost

private def main : Slot := ⟨0, slot_zero⟩
private def first : Slot := ⟨1, slot_one⟩
private def second : Slot := ⟨2, by decide⟩
private def frame0 : FrameNo := ⟨0, by decide⟩

/-- Nobody dies, and the clock hand stays. -/
private def calm (s : State) : Event → Bool
  | .term _ => false
  | .resume =>
    match s.self.fault with
    | .writing _ frame .. => decide (s.clockHand = frame)
    | _ => true
  | _ => true

private def nextCalm (s : State) (event : Event) : Option State := if calm s event then s.next event else none

private theorem undisturbed_of_calm {s : State} {event : Event} (isCalm : calm s event = true) :
    Undisturbed s event := by
  cases event with
  | resume =>
    refine ⟨fun page frame block blocks source stage _ => ?_, trivial⟩
    simpa [calm, stage] using isCalm
  | term p => cases isCalm
  | _ => exact ⟨trivial, trivial⟩

private theorem step_of_nextCalm {s : State} {event : Event} {after : State} (next : nextCalm s event = some after) :
    Guarded Undisturbed Step s event after := by
  unfold nextCalm at next
  split at next
  · rename_i isCalm
    exact ⟨undisturbed_of_calm isCalm, step_of_next next⟩
  · cases next

/-- Memory is filled, and the first page has to make room. -/
def evictedFrame : List Event :=
  [.create first true fun _ => none] ++ ((List.finRange VIRT_PAGES).take 129).map .fault ++
    (List.replicate 4 [.switch main, .switch first, .resume]).flatten

private theorem evictedFrame_valid : (evictedFrame.foldlM nextCalm booted).any
    (fun s => decide (s.page ⟨first, ⟨128, by decide⟩⟩ = .valid frame0)) = true := by
  decide +kernel

theorem frames_accounted_fault :
    ∃ s : State, Run Step booted evictedFrame s ∧ s.page ⟨first, ⟨128, by decide⟩⟩ = .valid frame0 ∧
    ∃! situation, s.Situated frame0 situation := by
  obtain ⟨s, ran, valid⟩ := (Option.any_eq_true ..).mp evictedFrame_valid
  have run : Run (Guarded Undisturbed Step) booted evictedFrame s := .of_foldlM step_of_nextCalm ran
  exact ⟨s, Guarded.run run, of_decide_eq_true valid, frames_accounted run frame0⟩

/-- The first process fills memory and evicts frame 0; the second one faults before all of it is written. -/
private def twoFaults : List Event :=
  [.create first true fun _ => none, .switch main, .create second true fun _ => none, .switch first] ++
    ((List.finRange VIRT_PAGES).take 129).map .fault ++ [.switch second, .fault ⟨0, page_zero⟩] ++
    (List.replicate 4 [.switch first, .resume, .switch main]).flatten

/-- The frame is pinned, but nobody writes it and its page is elsewhere. -/
private def lost (s : State) (f : FrameNo) : Bool :=
  decide ((s.frameInfo f).status = .pinned) && (s.frameInfo f).pi.all (fun a => decide (s.page a ≠ .valid f)) &&
    (List.finRange Grass.MAX_PROCS).all fun p =>
      match (s.procs p).fault with
      | .writing _ frame .. => decide (frame ≠ f)
      | _ => true

private theorem lost_unsituated {s : State} {f : FrameNo} (isLost : lost s f = true) (situation : Situation) :
    ¬ s.Situated f situation := by
  unfold lost at isLost
  simp only [Bool.and_eq_true, decide_eq_true_eq, List.all_eq_true, Option.all_eq_true] at isLost
  obtain ⟨⟨pinned, elsewhere⟩, idle⟩ := isLost
  intro situated
  cases situation with
  | free => cases pinned.symm.trans situated.2.1
  | owned a => exact absurd situated.2.2.2.1.2 (elsewhere a situated.2.2.1)
  | pinned a =>
    obtain ⟨_, _, _, _, stage⟩ := situated.2.2.1
    have other := idle a.proc (List.mem_finRange _)
    rw [stage] at other
    exact absurd rfl (of_decide_eq_true other)

private theorem twoFaults_lost : (twoFaults.foldlM State.next booted).any (fun s => lost s frame0) = true := by
  decide +kernel

theorem frames_lost : ¬ ∀ events s, Run Step booted events s → ∀ f, ∃! situation, s.Situated f situation := by
  intro always
  obtain ⟨s, ran, isLost⟩ := (Option.any_eq_true ..).mp twoFaults_lost
  obtain ⟨situation, situated, _⟩ := always twoFaults s (.of_foldlM step_of_next ran) _
  exact lost_unsituated isLost situation situated

end Lost
end Egos.Paging
