import Egos.Proofs.PagingTlb

/-! Where each physical frame is. A frame is on the free list, or belongs to one page,
or is pinned by one eviction. Between two of these it is spare for a moment. -/

namespace Egos.Paging
open Library Library.Prog Grass

namespace State

def InUse (s : State) (f : FrameNo) : Prop := (s.frameInfo f).status = .ref ∨ (s.frameInfo f).status = .unref

def Holds (s : State) (a : PagePtr) (f : FrameNo) : Prop := (s.procs a.proc).alive = true ∧ s.page a = .valid f

/-- A living process is writing the frame to the paging device to make room for the page. -/
def Evicts (s : State) (a : PagePtr) (f : FrameNo) : Prop :=
  (s.procs a.proc).alive = true ∧ ∃ block blocks source, (s.procs a.proc).fault = .writing a.page f block blocks source

end State

/-- `intact` says that no process has been terminated in the middle of an eviction. -/
structure Accounted (intact : Prop) (spare : Option FrameNo) (s : State) : Prop where
  running : s.mode ≠ .yielding → s.self.alive = true
  nodup : s.freeframes.Nodup
  free : ∀ f, f ∈ s.freeframes ↔ some f ≠ spare ∧ (s.frameInfo f).status = .free
  owned : ∀ a f, s.Holds a f → some f ≠ spare ∧ s.InUse f ∧ (s.frameInfo f).pi = some a
  owner : ∀ f, some f ≠ spare → s.InUse f → ∃ a, s.Holds a f
  pinned : ∀ a f, s.Evicts a f → some f ≠ spare ∧ (s.frameInfo f).status = .pinned
  alone : ∀ a b f, s.Evicts a f → s.Evicts b f → a = b
  absent : ∀ a f g, s.Evicts a f → ¬ s.Holds a g
  traced : intact → ∀ f, some f ≠ spare → (s.frameInfo f).status = .pinned → ∃ a, s.Evicts a f

structure SameUse (before after : FrameInfo) : Prop where
  pi : after.pi = before.pi
  free : after.status = .free ↔ before.status = .free
  pinned : after.status = .pinned ↔ before.status = .pinned

namespace SameUse

theorem refl (info : FrameInfo) : SameUse info info := ⟨rfl, .rfl, .rfl⟩

theorem inUse {s after : State} {f : FrameNo} (same : SameUse (s.frameInfo f) (after.frameInfo f)) :
    after.InUse f ↔ s.InUse f := by
  have free := same.free
  have pinned := same.pinned
  unfold State.InUse
  cases old : (s.frameInfo f).status <;> cases new : (after.frameInfo f).status <;> simp_all

theorem mark {info : FrameInfo} {status : FrameStatus} (use : info.status = .ref ∨ info.status = .unref)
    (mark : status = .ref ∨ status = .unref) : SameUse info { info with status } := by
  refine ⟨rfl, ?_, ?_⟩
  · rcases use with use | use <;> rcases mark with rfl | rfl <;> simp [use]
  · rcases use with use | use <;> rcases mark with rfl | rfl <;> simp [use]

theorem aged (info : FrameInfo) : SameUse info (aged info) := by
  unfold Paging.aged
  cases status : info.status with
  | ref => exact mark (.inl status) (.inr rfl)
  | free => exact refl info
  | unref => exact refl info
  | pinned => exact refl info

end SameUse

section Views
variable {s : State} {a : PagePtr} {f : FrameNo}

theorem procs_setFault (fault : Fault) (p : Slot) :
    (s.setFault fault).procs p = if p = s.current then { s.procs p with fault } else s.procs p := by
  change Function.update s.procs s.current _ p = _
  rw [Function.update_apply]
  split
  · rename_i same
    rw [same]
    rfl
  · rfl

@[simp] theorem alive_setFault (fault : Fault) (p : Slot) : ((s.setFault fault).procs p).alive = (s.procs p).alive := by
  rw [procs_setFault]
  split <;> rfl

@[simp] theorem page_setFault (fault : Fault) (a : PagePtr) : (s.setFault fault).page a = s.page a := by
  unfold State.page
  rw [procs_setFault]
  split <;> rfl

theorem fault_setFault (fault : Fault) (p : Slot) :
    ((s.setFault fault).procs p).fault = if p = s.current then fault else (s.procs p).fault := by
  rw [procs_setFault]
  split <;> rfl

theorem procs_setPage (victim : PagePtr) (info : PageInfo) (p : Slot) :
    (s.setPage victim info).procs p = if p = victim.proc
      then { s.procs p with pages := Function.update (s.procs p).pages victim.page info } else s.procs p := by
  change Function.update s.procs victim.proc _ p = _
  rw [Function.update_apply]
  split
  · rename_i same
    rw [same]
  · rfl

@[simp] theorem alive_setPage (victim : PagePtr) (info : PageInfo) (p : Slot) :
    ((s.setPage victim info).procs p).alive = (s.procs p).alive := by
  rw [procs_setPage]
  split <;> rfl

@[simp] theorem fault_setPage (victim : PagePtr) (info : PageInfo) (p : Slot) :
    ((s.setPage victim info).procs p).fault = (s.procs p).fault := by
  rw [procs_setPage]
  split <;> rfl

theorem page_setPage (victim : PagePtr) (info : PageInfo) (a : PagePtr) :
    (s.setPage victim info).page a = if a = victim then info else s.page a := by
  obtain ⟨p, g⟩ := a
  obtain ⟨q, h⟩ := victim
  unfold State.page
  rw [procs_setPage]
  simp only [PagePtr.mk.injEq]
  by_cases proc : p = q
  · by_cases page : g = h
    · simp [proc, page]
    · simp [proc, page]
  · simp [proc]

theorem holds_setFault (fault : Fault) : (s.setFault fault).Holds a f ↔ s.Holds a f := by
  unfold State.Holds
  rw [alive_setFault, page_setFault]

theorem evicts_setFault (fault : Fault) : (s.setFault fault).Evicts a f ↔ (s.procs a.proc).alive = true ∧
    ∃ block blocks source, (if a.proc = s.current then fault else (s.procs a.proc).fault) =
        .writing a.page f block blocks source := by
  unfold State.Evicts
  rw [alive_setFault, fault_setFault]

theorem holds_setPage (victim : PagePtr) (info : PageInfo) : (s.setPage victim info).Holds a f ↔
    (s.procs a.proc).alive = true ∧ (if a = victim then info else s.page a) = .valid f := by
  unfold State.Holds
  rw [alive_setPage, page_setPage]

theorem evicts_setPage (victim : PagePtr) (info : PageInfo) : (s.setPage victim info).Evicts a f ↔ s.Evicts a f := by
  unfold State.Evicts
  rw [alive_setPage, fault_setPage]

end Views

namespace Accounted
variable {intact : Prop} {spare : Option FrameNo} {s after : State}

/-- Steps that move no frame. -/
theorem keep (acc : Accounted intact spare s) (running : after.mode ≠ .yielding → after.self.alive = true)
    (free : after.freeframes = s.freeframes) (marks : ∀ f, SameUse (s.frameInfo f) (after.frameInfo f))
    (holds : ∀ a f, after.Holds a f ↔ s.Holds a f) (evicts : ∀ a f, after.Evicts a f ↔ s.Evicts a f) :
    Accounted intact spare after where
  running := running
  nodup := free ▸ acc.nodup
  free f := by rw [free, (marks f).free]; exact acc.free f
  owned a f held := by
    rw [(marks f).inUse, (marks f).pi]
    exact acc.owned a f ((holds a f).mp held)
  owner f other use := by
    obtain ⟨a, held⟩ := acc.owner f other ((marks f).inUse.mp use)
    exact ⟨a, (holds a f).mpr held⟩
  pinned a f evicting := by
    rw [(marks f).pinned]
    exact acc.pinned a f ((evicts a f).mp evicting)
  alone a b f first second := acc.alone a b f ((evicts a f).mp first) ((evicts b f).mp second)
  absent a f g evicting held := acc.absent a f g ((evicts a f).mp evicting) ((holds a g).mp held)
  traced kept f other pin := by
    obtain ⟨a, evicting⟩ := acc.traced kept f other ((marks f).pinned.mp pin)
    exact ⟨a, (evicts a f).mpr evicting⟩

/-- Nobody holds a frame that is not in use. -/
theorem unheld (acc : Accounted intact spare s) {f : FrameNo} (unused : ¬ s.InUse f) (a : PagePtr) : ¬ s.Holds a f :=
  fun held => unused (acc.owned a f held).2.1

theorem unevicted (acc : Accounted intact spare s) {f : FrameNo} (unpinned : (s.frameInfo f).status ≠ .pinned)
    (a : PagePtr) :
    ¬ s.Evicts a f :=
  fun evicting => unpinned (acc.pinned a f evicting).2

theorem holder_unique (acc : Accounted intact spare s) {a b : PagePtr} {f : FrameNo} (first : s.Holds a f)
    (second : s.Holds b f) :
    a = b :=
  Option.some.inj ((acc.owned a f first).2.2.symm.trans (acc.owned b f second).2.2)

/-- The page that a frame in use says it belongs to is in it. -/
theorem victim (acc : Accounted intact none s) {f : FrameNo} (use : s.InUse f) {victim : PagePtr}
    (owner : (s.frameInfo f).pi = some victim) : s.Holds victim f := by
  obtain ⟨a, held⟩ := acc.owner f nofun use
  cases Option.some.inj ((acc.owned a f held).2.2.symm.trans owner)
  exact held

/-- The first free frame is taken off the list. -/
theorem pop (acc : Accounted intact none s) {f : FrameNo} {rest : List FrameNo} (head : s.freeframes = f :: rest)
    (status : (s.frameInfo f).status = .free) : Accounted intact (some f) { s with freeframes := rest } := by
  have fresh : f ∉ rest := (List.nodup_cons.mp (head ▸ acc.nodup)).1
  have unused : ¬ s.InUse f := by
    unfold State.InUse
    rw [status]
    rintro (clash | clash) <;> cases clash
  have unpinned : (s.frameInfo f).status ≠ .pinned := by rw [status]; exact nofun
  refine ⟨acc.running, (List.nodup_cons.mp (head ▸ acc.nodup)).2, ?_, ?_, ?_, ?_, acc.alone, acc.absent, ?_⟩
  · intro g
    have known := acc.free g
    rw [head, List.mem_cons] at known
    constructor
    · intro inside
      refine ⟨?_, (known.mp (.inr inside)).2⟩
      rintro ⟨⟩
      exact fresh inside
    · rintro ⟨other, free⟩
      refine (known.mpr ⟨nofun, free⟩).resolve_left ?_
      rintro rfl
      exact other rfl
  · intro a g held
    refine ⟨?_, (acc.owned a g held).2⟩
    rintro ⟨⟩
    exact acc.unheld unused a held
  · exact fun g _ use => acc.owner g nofun use
  · intro a g evicting
    refine ⟨?_, (acc.pinned a g evicting).2⟩
    rintro ⟨⟩
    exact acc.unevicted unpinned a evicting
  · exact fun kept g _ pin => acc.traced kept g nofun pin

/-- The spare frame goes to a page of the current process. -/
theorem assign {f : FrameNo} {page : PageNo} (acc : Accounted intact (some f) s) (alive : s.self.alive = true)
    (absent : ∀ g, ¬ s.Holds ⟨s.current, page⟩ g) (idle : ∀ g, ¬ s.Evicts ⟨s.current, page⟩ g) :
    Accounted intact none (s.assigned page f) := by
  have here : (s.assigned page f).frameInfo f = { status := .ref, pi := some ⟨s.current, page⟩ } :=
    Function.update_self ..
  have others : ∀ g, g ≠ f → (s.assigned page f).frameInfo g = s.frameInfo g := fun g other =>
    Function.update_of_ne other ..
  have same : ∀ g, g ≠ f → SameUse (s.frameInfo g) ((s.assigned page f).frameInfo g) := fun g other =>
    others g other ▸ .refl _
  have evicts : ∀ a g, (s.assigned page f).Evicts a g ↔ s.Evicts a g := fun a g => evicts_setPage ..
  have mine : (s.assigned page f).Holds ⟨s.current, page⟩ f := (holds_setPage ..).mpr ⟨alive, if_pos rfl⟩
  have spared : ∀ {g : FrameNo}, some g ≠ some f ↔ g ≠ f := (Option.some_injective _).ne_iff
  have holds : ∀ a g, (s.assigned page f).Holds a g → a = ⟨s.current, page⟩ ∧ g = f ∨ a ≠ ⟨s.current, page⟩ ∧
      s.Holds a g := by
    intro a g held
    obtain ⟨lives, valid⟩ := (holds_setPage ..).mp held
    split at valid
    · rename_i same
      cases valid
      exact .inl ⟨same, rfl⟩
    · rename_i other
      exact .inr ⟨other, lives, valid⟩
  have keeps : ∀ a g, s.Holds a g → (s.assigned page f).Holds a g := by
    intro a g held
    refine (holds_setPage ..).mpr ⟨held.1, ?_⟩
    rw [if_neg]
    · exact held.2
    · rintro rfl
      exact absent g held
  refine ⟨?_, acc.nodup, ?_, ?_, ?_, ?_, ?_, ?_, ?_⟩
  · intro _
    exact (alive_setPage ..).trans alive
  · intro g
    by_cases taken : g = f
    · subst taken
      rw [here]
      exact ⟨fun inside => absurd rfl ((acc.free g).mp inside).1, fun free => nomatch free.2⟩
    · rw [others g taken]
      exact (acc.free g).trans (and_congr_left fun _ => iff_of_true (spared.mpr taken) nofun)
  · intro a g held
    refine ⟨nofun, ?_⟩
    rcases holds a g held with ⟨rfl, rfl⟩ | ⟨_, held⟩
    · exact ⟨.inl (congrArg FrameInfo.status here), congrArg FrameInfo.pi here⟩
    · obtain ⟨other, use⟩ := acc.owned a g held
      rw [(same g (spared.mp other)).inUse, others g (spared.mp other)]
      exact use
  · intro g _ use
    by_cases taken : g = f
    · subst taken
      exact ⟨_, mine⟩
    · obtain ⟨a, held⟩ := acc.owner g (spared.mpr taken) ((same g taken).inUse.mp use)
      exact ⟨a, keeps a g held⟩
  · intro a g evicting
    obtain ⟨other, pin⟩ := acc.pinned a g ((evicts a g).mp evicting)
    rw [others g (spared.mp other)]
    exact ⟨nofun, pin⟩
  · exact fun a b g first second => acc.alone a b g ((evicts a g).mp first) ((evicts b g).mp second)
  · intro a g h evicting held
    rcases holds a h held with ⟨rfl, _⟩ | ⟨_, held⟩
    · exact idle g ((evicts _ g).mp evicting)
    · exact acc.absent a g h ((evicts a g).mp evicting) held
  · intro kept g _ pin
    have taken : g ≠ f := by
      rintro rfl
      rw [here] at pin
      cases pin
    rw [others g taken] at pin
    obtain ⟨a, evicting⟩ := acc.traced kept g (spared.mpr taken) pin
    exact ⟨a, (evicts a g).mpr evicting⟩

/-- A frame in use is pinned and taken from its page. -/
theorem pin (acc : Accounted intact none s) (unref : (s.frameInfo s.clockHand).status = .unref) {victim : PagePtr}
    (owner : (s.frameInfo s.clockHand).pi = some victim) (block : BlockNo) (rest : List BlockNo) :
    Accounted intact (some s.clockHand) (s.pinned victim block rest) ∧
      ∀ a f, (s.pinned victim block rest).Holds a f → s.Holds a f := by
  have others : ∀ g, g ≠ s.clockHand → (s.pinned victim block rest).frameInfo g = s.frameInfo g :=
    fun g other => Function.update_of_ne other ..
  have same : ∀ g, g ≠ s.clockHand → SameUse (s.frameInfo g) ((s.pinned victim block rest).frameInfo g) :=
    fun g other => others g other ▸ .refl _
  have evicts : ∀ a g, (s.pinned victim block rest).Evicts a g ↔ s.Evicts a g := fun a g => evicts_setPage ..
  have spared : ∀ {g : FrameNo}, some g ≠ some s.clockHand ↔ g ≠ s.clockHand := (Option.some_injective _).ne_iff
  have holds : ∀ a g, (s.pinned victim block rest).Holds a g ↔ a ≠ victim ∧ s.Holds a g := by
    intro a g
    refine (holds_setPage ..).trans ?_
    by_cases hit : a = victim
    · simp [hit]
    · simp only [hit, ne_eq, not_false_eq_true, true_and]
      exact .rfl
  have unfree : (s.frameInfo s.clockHand).status ≠ .free := by rw [unref]; exact nofun
  have unpinned : (s.frameInfo s.clockHand).status ≠ .pinned := by rw [unref]; exact nofun
  have held := acc.victim (.inr unref) owner
  refine ⟨⟨?_, acc.nodup, ?_, ?_, ?_, ?_, ?_, ?_, ?_⟩, fun a f held => ((holds a f).mp held).2⟩
  · intro runs
    exact (alive_setPage ..).trans (acc.running runs)
  · intro g
    by_cases taken : g = s.clockHand
    · subst taken
      exact iff_of_false (fun inside => unfree ((acc.free _).mp inside).2) fun free => free.1 rfl
    · rw [others g taken]
      exact (acc.free g).trans (and_congr_left fun _ => iff_of_true nofun (spared.mpr taken))
  · intro b g other
    obtain ⟨apart, other⟩ := (holds b g).mp other
    have taken : g ≠ s.clockHand := by
      rintro rfl
      exact apart (acc.holder_unique other held)
    rw [(same g taken).inUse, others g taken]
    exact ⟨spared.mpr taken, (acc.owned b g other).2⟩
  · intro g taken use
    obtain ⟨b, other⟩ := acc.owner g nofun ((same g (spared.mp taken)).inUse.mp use)
    refine ⟨b, (holds b g).mpr ⟨?_, other⟩⟩
    rintro rfl
    cases held.2.symm.trans other.2
    exact taken rfl
  · intro b g evicting
    have taken : g ≠ s.clockHand := by
      rintro rfl
      exact acc.unevicted unpinned b ((evicts b _).mp evicting)
    rw [others g taken]
    exact ⟨spared.mpr taken, (acc.pinned b g ((evicts b g).mp evicting)).2⟩
  · exact fun a b g first second => acc.alone a b g ((evicts a g).mp first) ((evicts b g).mp second)
  · exact fun b g h evicting other => acc.absent b g h ((evicts b g).mp evicting) ((holds b h).mp other).2
  · intro kept g taken pin
    rw [others g (spared.mp taken)] at pin
    obtain ⟨b, evicting⟩ := acc.traced kept g nofun pin
    exact ⟨b, (evicts b g).mpr evicting⟩

/-- The current process begins to write the pinned frame. -/
theorem evict (acc : Accounted intact (some s.clockHand) s) (pin : (s.frameInfo s.clockHand).status = .pinned)
    (alive : s.self.alive = true) (idle : s.self.fault = .none) {page : PageNo}
    (absent : ∀ g, ¬ s.Holds ⟨s.current, page⟩ g)
    (source : Option BlockNo) (block : BlockNo) : Accounted intact none (s.evicting page source block) := by
  have holds : ∀ a g, (s.evicting page source block).Holds a g ↔ s.Holds a g := fun a g => holds_setFault ..
  have evicts : ∀ a g, (s.evicting page source block).Evicts a g ↔ a = ⟨s.current, page⟩ ∧ g = s.clockHand ∨
      s.Evicts a g := by
    rintro ⟨p, h⟩ g
    have view : (s.evicting page source block).Evicts ⟨p, h⟩ g ↔ (s.procs p).alive = true ∧ ∃ target blocks origin,
        (if p = s.current then .writing page s.clockHand block 1 source else (s.procs p).fault) =
          .writing h g target blocks origin := evicts_setFault _
    refine view.trans ?_
    by_cases here : p = s.current
    · subst here
      have none : ¬ s.Evicts ⟨s.current, h⟩ g := by
        rintro ⟨_, _, _, _, stage⟩
        cases idle.symm.trans stage
      simp only [if_true, none, or_false, PagePtr.mk.injEq, true_and]
      constructor
      · rintro ⟨_, _, _, _, same⟩
        cases same
        exact ⟨rfl, rfl⟩
      · rintro ⟨rfl, rfl⟩
        exact ⟨alive, _, _, _, rfl⟩
    · simp only [PagePtr.mk.injEq, here, false_and, false_or, if_false]
      exact .rfl
  have spared : ∀ {g : FrameNo}, some g ≠ some s.clockHand ↔ g ≠ s.clockHand := (Option.some_injective _).ne_iff
  refine ⟨fun runs => absurd rfl runs, acc.nodup, ?_, ?_, ?_, ?_, ?_, ?_, ?_⟩
  · intro g
    refine (acc.free g).trans ⟨fun free => ⟨nofun, free.2⟩, fun free => ⟨?_, free.2⟩⟩
    rintro ⟨⟩
    cases pin.symm.trans free.2
  · exact fun a g held => ⟨nofun, (acc.owned a g ((holds a g).mp held)).2⟩
  · intro g _ use
    have taken : g ≠ s.clockHand := by
      rintro rfl
      rcases use with clash | clash
      · cases pin.symm.trans clash
      · cases pin.symm.trans clash
    obtain ⟨a, held⟩ := acc.owner g (spared.mpr taken) use
    exact ⟨a, (holds a g).mpr held⟩
  · intro a g evicting
    refine ⟨nofun, ?_⟩
    rcases (evicts a g).mp evicting with ⟨_, rfl⟩ | evicting
    · exact pin
    · exact (acc.pinned a g evicting).2
  · intro a b g first second
    rcases (evicts a g).mp first with ⟨here, rfl⟩ | first
    · rcases (evicts b _).mp second with ⟨there, _⟩ | second
      · exact here.trans there.symm
      · exact absurd rfl (acc.pinned b _ second).1
    · rcases (evicts b g).mp second with ⟨_, rfl⟩ | second
      · exact absurd rfl (acc.pinned a _ first).1
      · exact acc.alone a b g first second
  · intro a g h evicting held
    rcases (evicts a g).mp evicting with ⟨rfl, _⟩ | evicting
    · exact absent h ((holds _ h).mp held)
    · exact acc.absent a g h evicting ((holds a h).mp held)
  · intro kept g _ pinned
    by_cases taken : g = s.clockHand
    · exact ⟨_, (evicts _ g).mpr (.inl ⟨rfl, taken⟩)⟩
    · obtain ⟨a, evicting⟩ := acc.traced kept g (spared.mpr taken) pinned
      exact ⟨a, (evicts a g).mpr (.inr evicting)⟩

/-- The frame has been written. -/
theorem unpin (acc : Accounted intact none s) {page : PageNo} {f : FrameNo} (writing : s.Evicts ⟨s.current, page⟩ f) :
    Accounted intact (some f) (s.setFault .none) := by
  have holds : ∀ a g, (s.setFault .none).Holds a g ↔ s.Holds a g := fun a g => holds_setFault ..
  have evicts : ∀ a g, (s.setFault .none).Evicts a g ↔ a.proc ≠ s.current ∧ s.Evicts a g := by
    intro a g
    refine (evicts_setFault ..).trans ?_
    by_cases here : a.proc = s.current
    · simp [here]
    · simp only [ne_eq, here, not_false_eq_true, true_and]
      exact .rfl
  have only : ∀ {a g}, s.Evicts a g → a.proc ≠ s.current → g ≠ f := by
    rintro a g evicting other rfl
    exact other (congrArg PagePtr.proc (acc.alone a _ g evicting writing))
  have pin := (acc.pinned _ f writing).2
  have spared : ∀ {g : FrameNo}, some g ≠ some f ↔ g ≠ f := (Option.some_injective _).ne_iff
  refine ⟨?_, acc.nodup, ?_, ?_, ?_, ?_, ?_, ?_, ?_⟩
  · intro runs
    exact (alive_setFault ..).trans (acc.running runs)
  · intro g
    refine (acc.free g).trans ⟨fun free => ⟨?_, free.2⟩, fun free => ⟨nofun, free.2⟩⟩
    rintro ⟨⟩
    cases pin.symm.trans free.2
  · intro a g held
    obtain ⟨_, use, owner⟩ := acc.owned a g ((holds a g).mp held)
    refine ⟨?_, use, owner⟩
    rintro ⟨⟩
    rcases use with clash | clash
    · cases pin.symm.trans clash
    · cases pin.symm.trans clash
  · intro g _ use
    obtain ⟨a, held⟩ := acc.owner g nofun use
    exact ⟨a, (holds a g).mpr held⟩
  · intro a g evicting
    obtain ⟨other, evicting⟩ := (evicts a g).mp evicting
    exact ⟨spared.mpr (only evicting other), (acc.pinned a g evicting).2⟩
  · exact fun a b g first second => acc.alone a b g ((evicts a g).mp first).2 ((evicts b g).mp second).2
  · exact fun a g h evicting held => acc.absent a g h ((evicts a g).mp evicting).2 ((holds a h).mp held)
  · intro kept g taken pinned
    obtain ⟨a, evicting⟩ := acc.traced kept g nofun pinned
    refine ⟨a, (evicts a g).mpr ⟨?_, evicting⟩⟩
    intro here
    obtain ⟨p, h⟩ := a
    cases here
    obtain ⟨_, _, _, _, stage⟩ := evicting
    obtain ⟨_, _, _, _, stage'⟩ := writing
    cases stage.symm.trans stage'
    exact taken rfl

/-- Only memory is different. -/
theorem same (acc : Accounted intact spare s) (running : after.mode ≠ .yielding → after.self.alive = true)
    (procs : after.procs = s.procs) (info : after.frameInfo = s.frameInfo) (free : after.freeframes = s.freeframes) :
    Accounted intact spare after := by
  refine acc.keep running free (fun f => info ▸ .refl _) ?_ ?_
  · intro a f
    unfold State.Holds State.page
    rw [procs]
  · intro a f
    unfold State.Evicts
    rw [procs]

/-- The current process reaches another stage of a page fault in which it evicts the same frame or none. -/
theorem stage (acc : Accounted intact spare s) (alive : s.self.alive = true) (fault : Fault) (mode : Mode)
    (evicts : ∀ page f, (∃ block blocks source, fault = .writing page f block blocks source) ↔
      ∃ block blocks source, s.self.fault = .writing page f block blocks source) :
    Accounted intact spare { s.setFault fault with mode } := by
  refine acc.keep (fun _ => (alive_setFault ..).trans alive) rfl (fun _ => .refl _) (fun a f => holds_setFault fault) ?_
  intro a f
  refine (evicts_setFault fault).trans ?_
  by_cases here : a.proc = s.current
  · simp only [here, if_true, State.Evicts, evicts]
    exact .rfl
  · simp only [here, if_false]
    exact .rfl

theorem mapped (acc : Accounted intact spare s) (alive : s.self.alive = true) (page : PageNo) (f : FrameNo) :
    Accounted intact spare (s.mapped page f) := by
  rw [mapped_rest]
  exact acc.same (fun _ => alive) rfl rfl rfl

private theorem none_iff {fault other : Fault}
    (quiet : ∀ page f block blocks source, fault ≠ .writing page f block blocks source)
    (still : ∀ page f block blocks source, other ≠ .writing page f block blocks source) (page : PageNo) (f : FrameNo) :
    (∃ block blocks source, fault = .writing page f block blocks source) ↔
      ∃ block blocks source, other = .writing page f block blocks source := by
  constructor
  · rintro ⟨_, _, _, same⟩
    exact (quiet _ _ _ _ _ same).elim
  · rintro ⟨_, _, _, same⟩
    exact (still _ _ _ _ _ same).elim

theorem fills (acc : Accounted intact none s) (alive : s.self.alive = true) (idle : s.self.fault = .none)
    {page : PageNo}
    {source : Option BlockNo} (fills : Fills s page source after) : Accounted intact none after := by
  have still : ∀ page f block blocks source, s.self.fault ≠ .writing page f block blocks source := by
    intro _ _ _ _ _
    rw [idle]
    exact nofun
  cases fills with
  | zero frame valid image =>
    have zeroed : Accounted intact none (s.setFrame frame zeros) := acc.same (fun _ => alive) rfl rfl rfl
    exact zeroed.mapped alive page frame
  | init frame contents valid image => exact acc.stage alive _ _ (none_iff nofun still)
  | read frame block valid => exact acc.stage alive _ _ (none_iff nofun still)

private theorem wanted_absent {page : PageNo} {source : Option BlockNo} (wanted : Wanted s page source) (f : FrameNo) :
    ¬ s.Holds ⟨s.current, page⟩ f := by
  rintro ⟨_, valid⟩
  have clash := wanted.symm.trans valid
  cases source with
  | none => cases clash
  | some block => cases clash

private theorem idle_evicts (idle : s.self.fault = .none) (page : PageNo) (f : FrameNo) :
    ¬ s.Evicts ⟨s.current, page⟩ f := by
  rintro ⟨_, _, _, _, stage⟩
  cases idle.symm.trans stage

theorem swept (acc : Accounted intact none s) (swept : Swept s after) : Accounted intact none after := by
  have rest := swept.rest
  refine acc.keep ?_ ?_ ?_ ?_ ?_
  · rw [rest]
    exact acc.running
  · rw [rest]
  · intro f
    rcases swept.info f with same | aged
    · exact same ▸ .refl _
    · exact aged ▸ .aged _
  · rw [rest]
    exact fun _ _ => .rfl
  · rw [rest]
    exact fun _ _ => .rfl

/-- A free frame goes to a page of the current process. -/
theorem taken (acc : Accounted intact none s) (alive : s.self.alive = true) (idle : s.self.fault = .none)
    {page : PageNo}
    {source : Option BlockNo} (wanted : Wanted s page source) {f : FrameNo} {rest : List FrameNo}
    (free : s.freeframes = f :: rest)
    (status : (s.frameInfo f).status = .free) : Accounted intact none ({ s with freeframes := rest }.assigned page f) :=
  (acc.pop free status).assign alive (wanted_absent wanted) (idle_evicts idle page)

/-- The frame that has been written goes to the page it was evicted for. -/
theorem finished (acc : Accounted intact none s) (alive : s.self.alive = true) {page : PageNo} {block : BlockNo}
    {blocks : Nat}
    {source : Option BlockNo} (stage : s.self.fault = .writing page s.clockHand block blocks source) :
    Accounted intact none (advance ((s.setFault .none).assigned page s.clockHand)) := by
  have writing : s.Evicts ⟨s.current, page⟩ s.clockHand := ⟨alive, block, blocks, source, stage⟩
  have lives : (s.setFault .none).self.alive = true := (alive_setFault ..).trans alive
  have rests : (s.setFault .none).self.fault = .none := (fault_setFault ..).trans (if_pos rfl)
  have absent : ∀ g, ¬ (s.setFault .none).Holds ⟨s.current, page⟩ g :=
    fun g held => acc.absent _ _ g writing ((holds_setFault ..).mp held)
  have assigned := (acc.unpin writing).assign lives absent (idle_evicts rests page)
  exact assigned.same (fun _ => (alive_setPage ..).trans lives) rfl rfl rfl

/-- The page that is evicted. -/
theorem sweptVictim (acc : Accounted intact none s) (swept : Swept s after) {victim : PagePtr}
    (owner : (after.frameInfo after.clockHand).pi = some victim) : s.Holds victim after.clockHand := by
  have held := (acc.swept swept).victim (.inr swept.unref) owner
  rw [swept.rest] at held
  exact held

theorem faulted (acc : Accounted intact none s) (alive : s.self.alive = true) (idle : s.self.fault = .none)
    {page : PageNo}
    (faulted : Faulted s page after) : Accounted intact none after := by
  cases faulted with
  | remap frame valid status owner =>
    have use := (acc.owned ⟨s.current, page⟩ frame ⟨alive, valid⟩).2.1
    have marked : Accounted intact none (s.setInfo frame { s.frameInfo frame with status := .ref }) := by
      refine acc.keep (fun _ => alive) rfl ?_ (fun _ _ => .rfl) fun _ _ => .rfl
      intro f
      by_cases same : f = frame
      · subst same
        change SameUse _ (Function.update s.frameInfo f _ f)
        rw [Function.update_self]
        exact .mark use (.inl rfl)
      · change SameUse _ (Function.update s.frameInfo frame _ f)
        rw [Function.update_of_ne same]
        exact .refl _
    exact marked.mapped alive page frame
  | take frame rest source after wanted free status fills =>
    exact (acc.taken alive idle wanted free status).fills ((alive_setPage ..).trans alive)
      ((fault_setPage ..).trans idle) fills
  | evict source block rest swept victim wanted full blocks clock owner =>
    have same : swept.procs = s.procs ∧ swept.current = s.current := by rw [clock.rest]; exact ⟨rfl, rfl⟩
    have self : swept.self = s.self := by unfold State.self; rw [same.1, same.2]
    obtain ⟨pinned, fewer⟩ := (acc.swept clock).pin clock.unref owner block rest
    rw [← self] at alive idle
    have pin : (swept.pinned victim block rest).frameInfo swept.clockHand =
        { swept.frameInfo swept.clockHand with status := .pinned } := Function.update_self ..
    refine pinned.evict (congrArg FrameInfo.status pin) ((alive_setPage ..).trans alive)
      ((fault_setPage ..).trans idle) ?_ source block
    · intro g held
      have held := fewer _ g held
      unfold State.Holds State.page at held
      rw [same.1] at held
      exact wanted_absent wanted g (same.2 ▸ held)

theorem resumed (acc : Accounted intact none s) (alive : s.self.alive = true)
    (hand : ∀ page frame block blocks source, s.self.fault = .writing page frame block blocks source →
      ¬ blocks < BLOCKS_PER_PAGE → s.clockHand = frame) (resumed : Resumed s after) : Accounted intact none after := by
  cases resumed with
  | write page frame block blocks source stage more =>
    have wrote : Accounted intact none (blockWrite s frame block blocks) := acc.same (fun _ => alive) rfl rfl rfl
    refine wrote.stage alive _ _ ?_
    intro g f
    constructor
    · rintro ⟨_, _, _, same⟩
      cases same
      exact ⟨block, blocks, source, stage⟩
    · rintro ⟨_, _, _, same⟩
      cases stage.symm.trans same
      exact ⟨block, blocks + 1, source, rfl⟩
  | finish page frame block blocks source after stage done fills =>
    have place := hand page frame block blocks source stage done
    subst place
    have lives : ((s.setFault .none).assigned page s.clockHand).self.alive = true :=
      (alive_setPage ..).trans ((alive_setFault ..).trans alive)
    have rests : ((s.setFault .none).assigned page s.clockHand).self.fault = .none :=
      (fault_setPage ..).trans ((fault_setFault ..).trans (if_pos rfl))
    exact (acc.finished alive stage).fills lives rests fills
  | init page frame place stage valid =>
    have still : ∀ page f block blocks source, s.self.fault ≠ .writing page f block blocks source := by
      intro _ _ _ _ _
      rw [stage]
      exact nofun
    have filled : Accounted intact none (s.setFrame frame (firstContents s.self.image page)) :=
      acc.same (fun _ => alive) rfl rfl rfl
    exact (filled.stage alive .none s.mode (none_iff nofun still)).mapped ((alive_setFault ..).trans alive) page place
  | read page frame block blocks stage more =>
    have still : ∀ page f block blocks source, s.self.fault ≠ .writing page f block blocks source := by
      intro _ _ _ _ _
      rw [stage]
      exact nofun
    have copied : Accounted intact none (blockRead s frame block (blocks - 1)) := acc.same (fun _ => alive) rfl rfl rfl
    exact copied.stage alive _ _ (none_iff nofun still)
  | last page frame block blocks place stage done valid =>
    have still : ∀ page f block blocks source, s.self.fault ≠ .writing page f block blocks source := by
      intro _ _ _ _ _
      rw [stage]
      exact nofun
    have copied : Accounted intact none (blockRead s frame block (blocks - 1)) := acc.same (fun _ => alive) rfl rfl rfl
    exact (copied.stage alive .none s.mode (none_iff nofun still)).mapped ((alive_setFault ..).trans alive) page place

end Accounted

end Egos.Paging
