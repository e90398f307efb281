import Egos.Proofs.PagingBlocks

/-! The entries of the TLB while a process runs: they map pages of that process to
the frames these are in. -/

namespace Egos.Paging
open Library Library.Prog Grass

structure Cached (s : State) : Prop where
  distinct : Distinct s.tlb
  entry : s.mode ≠ .yielding → ∀ i entry, s.tlb i = some entry → s.page ⟨s.current, entry.virt⟩ = .valid entry.phys
  flushed : s.mode ≠ .yielding → s.self.fault ≠ .none → ∀ i, s.tlb i = none
  kernel : ∀ a, (s.procs a.proc).alive = true → (s.procs a.proc).user = false → s.page a = .uninit

section Pages
variable {s after : State} {page : PageNo}

theorem page_mapped (f : FrameNo) (a : PagePtr) : (s.mapped page f).page a = s.page a := by
  rw [mapped_rest]
  rfl

theorem page_assigned (f : FrameNo) (a : PagePtr) :
    (s.assigned page f).page a = if a = ⟨s.current, page⟩ then .valid f else s.page a :=
  page_setPage ..

theorem Fills.page_eq {source : Option BlockNo} (fills : Fills s page source after) (a : PagePtr) :
    after.page a = s.page a := by
  cases fills with
  | zero frame => exact page_mapped frame a
  | init frame contents => exact page_setFault _ a
  | read frame block => exact page_setFault _ a

/-- A page fault changes its own page and takes the frame of another one. -/
theorem Faulted.page_uninit {intact : Prop} (faulted : Faulted s page after)
    (acc : Accounted intact none s) {a : PagePtr}
    (uninit : s.page a = .uninit) (other : a ≠ ⟨s.current, page⟩) : after.page a = .uninit := by
  cases faulted with
  | remap frame => exact (page_mapped frame a).trans uninit
  | take frame rest source after wanted free status fills =>
    rw [fills.page_eq, page_assigned]
    exact (if_neg other).trans uninit
  | evict source block rest swept victim wanted full blocks clock owner =>
    have held := acc.sweptVictim clock owner
    have apart : a ≠ victim := by
      rintro rfl
      cases uninit.symm.trans held.2
    have kept : (swept.pinned victim block rest).page a = swept.page a := (page_setPage ..).trans (if_neg apart)
    refine (page_setFault _ a).trans (kept.trans ?_)
    rw [clock.rest]
    exact uninit

theorem Resumed.page_eq (resumed : Resumed s after) {a : PagePtr} (other : a.proc ≠ s.current) :
    after.page a = s.page a := by
  cases resumed with
  | write page frame block blocks source => exact page_setFault _ a
  | finish page frame block blocks source after stage done fills =>
    have apart : a ≠ ⟨s.current, page⟩ := fun same => other (congrArg PagePtr.proc same)
    rw [fills.page_eq]
    exact (page_assigned _ a).trans ((if_neg apart).trans (page_setFault _ a))
  | init page frame place => exact (page_mapped place a).trans (page_setFault _ a)
  | read page frame block blocks => exact page_setFault _ a
  | last page frame block blocks place => exact (page_mapped place a).trans (page_setFault _ a)

end Pages

namespace Cached
variable {s after : State}

/-- Nothing is mapped. -/
theorem empty (none : ∀ i, s.tlb i = none)
    (kernel : ∀ a, (s.procs a.proc).alive = true → (s.procs a.proc).user = false → s.page a = .uninit) : Cached s where
  distinct i _ _ _ first := nomatch (none i).symm.trans first
  entry _ i _ there := nomatch (none i).symm.trans there
  flushed _ _ := none
  kernel := kernel

theorem mapped (cached : Cached s) (runs : s.mode ≠ .yielding) {page : PageNo} {f : FrameNo}
    (unmapped : Unmapped s.tlb f)
    (valid : s.page ⟨s.current, page⟩ = .valid f) (idle : s.self.fault = .none) : Cached (s.mapped page f) := by
  have procs : (s.mapped page f).procs = s.procs := by rw [mapped_rest]
  have current : (s.mapped page f).current = s.current := by rw [mapped_rest]
  refine ⟨mapped_distinct cached.distinct unmapped, ?_, ?_, ?_⟩
  · intro _ i entry there
    rw [page_mapped, current]
    rcases mapped_tlb there with ⟨_, rfl, rfl⟩ | ⟨_, there⟩
    · exact valid
    · exact cached.entry runs i entry there
  · intro _ faulting
    unfold State.self at faulting
    rw [procs, current] at faulting
    exact absurd idle faulting
  · intro a
    rw [page_mapped, procs]
    exact cached.kernel a

/-- The process gives up the CPU. -/
theorem block (cached : Cached s) (fault : Fault) : Cached (s.block fault) := by
  refine ⟨cached.distinct, fun runs => absurd rfl runs, fun runs => absurd rfl runs, ?_⟩
  intro a alive system
  refine (page_setFault fault a).trans (cached.kernel a ((alive_setFault fault _).symm.trans alive) ?_)
  exact ((Served.setFault s fault .yielding).user a.proc).symm.trans system

theorem fills (cached : Cached s) (runs : s.mode ≠ .yielding) (idle : s.self.fault = .none) {page : PageNo}
    {source : Option BlockNo} (unmapped : ∀ f, s.page ⟨s.current, page⟩ = .valid f → Unmapped s.tlb f)
    (fills : Fills s page source after) : Cached after := by
  cases fills with
  | zero frame valid image =>
    have zeroed : Cached (s.setFrame frame zeros) := ⟨cached.distinct, cached.entry, cached.flushed, cached.kernel⟩
    exact zeroed.mapped runs (unmapped frame valid) valid idle
  | init frame contents valid image => exact cached.block _
  | read frame block valid => exact cached.block _

theorem assigned (cached : Cached s) {page : PageNo} (user : s.self.user = true) (idle : s.self.fault = .none)
    (absent : ∀ i entry, s.tlb i = some entry → entry.virt ≠ page) (f : FrameNo) : Cached (s.assigned page f) := by
  refine ⟨cached.distinct, ?_, ?_, ?_⟩
  · intro runs i entry there
    have apart : (⟨s.current, entry.virt⟩ : PagePtr) ≠ ⟨s.current, page⟩ :=
      fun same => absent i entry there (congrArg PagePtr.page same)
    exact (page_assigned ..).trans ((if_neg apart).trans (cached.entry runs i entry there))
  · intro _ faulting
    exact absurd ((fault_setPage ..).trans idle) faulting
  · intro a alive system
    have served := Served.assigned s page f
    rw [served.alive] at alive
    rw [served.user] at system
    have apart : a ≠ ⟨s.current, page⟩ := by
      rintro rfl
      cases user.symm.trans system
    exact (page_assigned f a).trans ((if_neg apart).trans (cached.kernel a alive system))

section Unmapped
variable (acc : Accounted False none s) (runs : s.mode ≠ .yielding)
include acc runs

private theorem holds (cached : Cached s) {i : TlbIndex} {entry : TlbEntry} (there : s.tlb i = some entry) :
    s.Holds ⟨s.current, entry.virt⟩ entry.phys :=
  ⟨acc.running runs, cached.entry runs i entry there⟩

/-- The frame of a page that is not mapped is not mapped. -/
theorem unmappedOwn (cached : Cached s) {page : PageNo} (absent : s.tlbGetEntry page = none) {f : FrameNo}
    (valid : s.self.pages page = .valid f) : Unmapped s.tlb f := by
  rintro i entry there rfl
  have mine : s.Holds ⟨s.current, page⟩ entry.phys := ⟨acc.running runs, valid⟩
  have same := acc.holder_unique (cached.holds acc runs there) mine
  exact tlbGetEntry_none absent there (congrArg PagePtr.page same)

theorem unmappedFree (cached : Cached s) {f : FrameNo} (status : (s.frameInfo f).status = .free) :
    Unmapped s.tlb f := by
  rintro i entry there rfl
  rcases (acc.owned _ _ (cached.holds acc runs there)).2.1 with clash | clash
  · cases status.symm.trans clash
  · cases status.symm.trans clash

end Unmapped

theorem faulted (cached : Cached s) (acc : Accounted False none s) (runs : s.mode ≠ .yielding)
    (user : s.self.user = true)
    (idle : s.self.fault = .none) {page : PageNo} (absent : s.tlbGetEntry page = none)
    (faulted : Faulted s page after) :
    Cached after := by
  cases faulted with
  | remap frame valid status owner =>
    have marked : Cached (s.setInfo frame { s.frameInfo frame with status := .ref }) :=
      ⟨cached.distinct, cached.entry, cached.flushed, cached.kernel⟩
    exact marked.mapped runs (cached.unmappedOwn acc runs absent valid) valid idle
  | take frame rest source after wanted free status fills =>
    have popped : Cached { s with freeframes := rest } := ⟨cached.distinct, cached.entry, cached.flushed, cached.kernel⟩
    have assigned := popped.assigned user idle (fun i entry there => tlbGetEntry_none absent there) frame
    refine assigned.fills runs ((fault_setPage ..).trans idle) ?_ fills
    intro f valid
    cases ((page_assigned ..).trans (if_pos rfl)).symm.trans valid
    exact cached.unmappedFree acc runs status
  | evict source block rest swept victim wanted full blocks clock owner =>
    have moved := Faulted.evict source block rest swept victim wanted full blocks clock owner
    refine ⟨?_, fun yields => absurd rfl yields, fun yields => absurd rfl yields, ?_⟩
    · have tlb : swept.tlb = s.tlb := by rw [clock.rest]
      change Distinct swept.tlb
      rw [tlb]
      exact cached.distinct
    · intro a alive system
      rw [moved.served.alive] at alive
      rw [moved.served.user] at system
      refine moved.page_uninit acc (cached.kernel a alive system) ?_
      rintro rfl
      cases user.symm.trans system

/-- Pages of processes that are not user processes are never touched. -/
private theorem untouched (cached : Cached s) (user : s.self.user = true) (served : Served s after)
    (pages : ∀ a : PagePtr, a.proc ≠ s.current → after.page a = s.page a) (a : PagePtr)
    (alive : (after.procs a.proc).alive = true)
    (system : (after.procs a.proc).user = false) : after.page a = .uninit := by
  rw [served.alive] at alive
  rw [served.user] at system
  have other : a.proc ≠ s.current := by
    intro here
    rw [here] at system
    cases user.symm.trans system
  exact (pages a other).trans (cached.kernel a alive system)

theorem resumed (cached : Cached s) (runs : s.mode ≠ .yielding) (user : s.self.user = true)
    (faulting : s.self.fault ≠ .none)
    (resumed : Resumed s after) : Cached after := by
  have none := cached.flushed runs faulting
  have kernel := cached.untouched user resumed.served fun a => resumed.page_eq
  have ended : ∀ t : State, t.tlb = s.tlb → t.procs = s.procs → t.current = s.current → t.written = s.written →
      Cached (t.setFault .none) := by
    intro t tlb procs current written
    have served : Served s (t.setFault .none) := (Served.same current procs written).trans (.setFault t .none t.mode)
    have pages : ∀ a, (t.setFault .none).page a = s.page a := by
      intro a
      rw [page_setFault]
      unfold State.page
      rw [procs]
    exact .empty (fun i => (congrFun tlb i).trans (none i)) (cached.untouched user served fun a _ => pages a)
  cases resumed with
  | write page frame block blocks source stage more => exact .empty none kernel
  | read page frame block blocks stage more => exact .empty none kernel
  | finish page frame block blocks source after stage done fills =>
    have idle : (s.setFault .none).self.fault = .none := (fault_setFault ..).trans (if_pos rfl)
    have users : (s.setFault .none).self.user = true := ((Served.setFault s .none s.mode).user s.current).trans user
    have assigned : Cached ((s.setFault .none).assigned page s.clockHand) :=
      (ended s rfl rfl rfl rfl).assigned users idle (fun i entry there => nomatch (none i).symm.trans there) s.clockHand
    have advanced : Cached (advance ((s.setFault .none).assigned page s.clockHand)) :=
      ⟨assigned.distinct, assigned.entry, assigned.flushed, assigned.kernel⟩
    refine advanced.fills runs ((fault_setPage ..).trans idle) ?_ fills
    exact fun f _ i entry there => nomatch (none i).symm.trans there
  | init page frame place stage valid =>
    have filled := ended (s.setFrame frame (firstContents s.self.image page)) rfl rfl rfl rfl
    refine filled.mapped runs (fun i entry there => nomatch (none i).symm.trans there) ?_
      ((fault_setFault ..).trans (if_pos rfl))
    exact (page_setFault ..).trans valid
  | last page frame block blocks place stage done valid =>
    have copied := ended (blockRead s frame block (blocks - 1)) rfl rfl rfl rfl
    refine copied.mapped runs (fun i entry there => nomatch (none i).symm.trans there) ?_
      ((fault_setFault ..).trans (if_pos rfl))
    exact (page_setFault ..).trans valid

theorem stored (cached : Cached s) {i : TlbIndex} {entry : TlbEntry} (there : s.tlb i = some entry) (page : PageNo)
    (offset : Offset) (byte : UInt8) : Cached (s.stored i entry page offset byte) := by
  refine ⟨(now_store cached.distinct there).1, ?_, ?_, cached.kernel⟩
  · intro runs j copy mapped
    change Function.update s.tlb i _ j = some copy at mapped
    by_cases same : j = i
    · subst same
      rw [Function.update_self] at mapped
      cases mapped
      exact cached.entry runs j entry there
    · rw [Function.update_of_ne same] at mapped
      exact cached.entry runs j copy mapped
  · intro runs faulting
    cases (cached.flushed runs faulting i).symm.trans there

private theorem term (cached : Cached s) (p : Slot) : Cached ((s.dead p).released p (List.finRange VIRT_PAGES)) := by
  have alone : ∀ q, q ≠ p → (s.dead p).procs q = s.procs q := fun q other => (procs_dead q).trans (if_neg other)
  have running : (s.dead p).mode ≠ .yielding → s.current ≠ p ∧ s.mode ≠ .yielding := by
    intro runs
    have apart : s.current ≠ p := fun here => runs (if_pos here)
    have mode : (s.dead p).mode = s.mode := if_neg apart
    exact ⟨apart, mode ▸ runs⟩
  refine ⟨cached.distinct, ?_, ?_, ?_⟩
  · intro runs i entry there
    obtain ⟨apart, runs⟩ := running runs
    change ((s.dead p).procs s.current).pages entry.virt = _
    rw [alone _ apart]
    exact cached.entry runs i entry there
  · intro runs faulting
    obtain ⟨apart, runs⟩ := running runs
    change ((s.dead p).procs s.current).fault ≠ _ at faulting
    rw [alone _ apart] at faulting
    exact cached.flushed runs faulting
  · intro a alive system
    change ((s.dead p).procs a.proc).alive = true at alive
    change ((s.dead p).procs a.proc).user = false at system
    change ((s.dead p).procs a.proc).pages a.page = _
    have other : a.proc ≠ p := by
      intro same
      rw [procs_dead, if_pos same] at alive
      cases alive
    rw [alone _ other] at alive system ⊢
    exact cached.kernel a alive system

private theorem create (cached : Cached s) (runs : s.mode ≠ .yielding) (alive : s.self.alive = true)
    (system : s.self.user = false)
    {p : Slot} {user : Bool} {image : PageNo → Option Contents} (created : procCreate p user image s = .done () after) :
    Cached after := by
  have none : ∀ i, s.tlb i = none := by
    intro i
    cases there : s.tlb i with
    | none => rfl
    | some entry =>
      have uninit := cached.kernel ⟨s.current, entry.virt⟩ alive system
      cases uninit.symm.trans (cached.entry runs i entry there)
  cases created
  refine .empty none ?_
  intro a alive system
  change (Function.update s.procs p _ a.proc).alive = true at alive
  change (Function.update s.procs p _ a.proc).user = false at system
  change (Function.update s.procs p _ a.proc).pages a.page = _
  by_cases same : a.proc = p
  · rw [same, Function.update_self]
  · rw [Function.update_of_ne same] at alive system ⊢
    exact cached.kernel a alive system

theorem step {event : Event} (cached : Cached s) (serial : Serial s) (acc : Accounted False none s)
    (step : Step s event after) :
    Cached after := by
  obtain ⟨enabled, ran⟩ := step
  cases event with
  | toUser =>
    cases ran
    have runs : s.mode ≠ .yielding := by rw [enabled.1]; exact nofun
    exact ⟨cached.distinct, fun _ => cached.entry runs, fun _ => cached.flushed runs, cached.kernel⟩
  | trap =>
    cases ran
    have runs : s.mode ≠ .yielding := by rw [enabled]; exact nofun
    dsimp only
    rw [tlbSync_rest]
    exact ⟨cached.distinct, fun _ => cached.entry runs, fun _ => cached.flushed runs, cached.kernel⟩
  | userStore page offset byte =>
    obtain ⟨i, entry, there, _, rfl⟩ := (store_does s page offset byte).done ran
    exact cached.stored there page offset byte
  | copyStore page offset byte =>
    obtain ⟨i, entry, there, _, rfl⟩ := (store_does s page offset byte).done ran
    exact cached.stored there page offset byte
  | fault page =>
    have runs : s.mode ≠ .yielding := by rw [enabled.1]; exact nofun
    exact cached.faulted acc runs enabled.2.1 enabled.2.2.1 enabled.2.2.2 ((procPagefault_does s page).done ran)
  | resume =>
    have runs : s.mode ≠ .yielding := by rw [enabled.1]; exact nofun
    have user : s.self.user = true := by
      by_contra system
      exact enabled.2 (serial.kernel s.current (serial.lives _ enabled.2) (Bool.eq_false_iff.mpr system))
    exact cached.resumed runs user enabled.2 ((resumeFault_does s enabled.2).done ran)
  | switch proc =>
    cases ran
    dsimp only
    rw [tlbFlush_rest]
    exact .empty (fun _ => rfl) cached.kernel
  | term proc =>
    cases (procTerm_does s proc).done ran
    exact cached.term proc
  | create proc user image =>
    have runs : s.mode ≠ .yielding := by rw [enabled.1]; exact nofun
    exact cached.create runs (acc.running runs) enabled.2.1 ran

end Cached

theorem booted_cached : Cached booted := .empty (fun _ => rfl) fun _ _ _ => rfl

end Egos.Paging
