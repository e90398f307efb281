import Egos.Proofs.PagingCache

/-! Where the contents of each page are: in the executable, in a frame (or the TLB's
copy of it), or on the paging device. A page that is being saved is still complete in
its frame; one that is being read is complete on the paging device. -/

namespace Egos.Paging
open Library Library.Prog Grass

def Fault.Loads : Fault → PageNo → Prop
  | .init page _, other => page = other
  | .reading page _ _ _, other => page = other
  | _, _ => False

def Fault.Saves (fault : Fault) (b : BlockNo) : Prop := ∃ page f blocks source, fault = .writing page f b blocks source

/-- The TLB's copy of a frame, if it has one, agrees with the frame in the first block. -/
def FirstBlockSynced (s : State) (f : FrameNo) : Prop :=
  ∀ i entry, s.tlb i = some entry → entry.phys = f → ∀ offset : Offset, offset.val < BLOCK_SIZE →
    entry.mem offset = s.frames f offset

def State.last (s : State) (a : PagePtr) : Contents := s.written a.proc a.page

structure Coherent (s : State) : Prop where
  fresh : ∀ a : PagePtr, (s.procs a.proc).alive = true → s.page a = .uninit →
    s.last a = firstContents (s.procs a.proc).image a.page
  valid : ∀ a f, s.Holds a f → ¬ (s.procs a.proc).fault.Loads a.page → s.now f = s.last a
  stored : ∀ a b, s.Stores a b → (∀ p, ¬ (s.procs p).fault.Saves b) → s.device b = s.last a
  saving : ∀ a b, s.Stores a b → ∀ p page f blocks source, (s.procs p).fault = .writing page f b blocks source →
    s.now f = s.last a ∧ ∀ i : Offset, i.val / BLOCK_SIZE < blocks → s.device b i = s.last a i
  init : ∀ p page f, (s.procs p).fault = .init page f →
    s.Holds ⟨p, page⟩ f ∧ s.last ⟨p, page⟩ = firstContents (s.procs p).image page
  reading : ∀ p page f b blocks, (s.procs p).fault = .reading page f b blocks →
    s.Holds ⟨p, page⟩ f ∧ s.device b = s.last ⟨p, page⟩ ∧
      ∀ i : Offset, i.val / BLOCK_SIZE < blocks - 1 → s.now f i = s.last ⟨p, page⟩ i

theorem Fault.Loads.unique {fault : Fault} {page other : PageNo} (loads : fault.Loads page) (also : fault.Loads other) :
    page = other := by
  cases fault with
  | none => cases loads
  | writing => cases loads
  | init => exact loads.symm.trans also
  | reading => exact loads.symm.trans also

theorem Fault.Loads.unsaved {fault : Fault} {page : PageNo} (loads : fault.Loads page) (b : BlockNo) :
    ¬ fault.Saves b := by
  rintro ⟨_, _, _, _, rfl⟩
  cases loads

namespace Coherent
variable {s after : State}

/-- Steps that change no contents. -/
theorem same (coherent : Coherent s) (procs : after.procs = s.procs) (now : after.now = s.now)
    (device : after.device = s.device)
    (written : after.written = s.written) : Coherent after := by
  have page : ∀ a, after.page a = s.page a := fun a => by unfold State.page; rw [procs]
  have last : ∀ a, after.last a = s.last a := fun a => by unfold State.last; rw [written]
  have holds : ∀ a f, after.Holds a f ↔ s.Holds a f := fun a f => by unfold State.Holds; rw [procs, page]
  have stores : ∀ a b, after.Stores a b ↔ s.Stores a b := fun a b => by unfold State.Stores; rw [procs, page]
  refine ⟨?_, ?_, ?_, ?_, ?_, ?_⟩
  · intro a
    rw [procs, page, last]
    exact coherent.fresh a
  · intro a f
    rw [holds, procs, now, last]
    exact coherent.valid a f
  · intro a b
    rw [stores, procs, device, last]
    exact coherent.stored a b
  · intro a b
    rw [stores, procs, now, device, last]
    exact coherent.saving a b
  · intro p page f
    rw [holds, procs, last]
    exact coherent.init p page f
  · intro p page f b blocks
    rw [holds, procs, now, device, last]
    exact coherent.reading p page f b blocks

theorem mapped (coherent : Coherent s) (distinct : Distinct s.tlb) {f : FrameNo} (unmapped : Unmapped s.tlb f)
    (page : PageNo) :
    Coherent (s.mapped page f) := by
  refine coherent.same ?_ (now_mapPage distinct unmapped) ?_ ?_ <;> rw [mapped_rest]

/-- With no page fault in progress, each page is in one place. -/
theorem of_quiet (quiet : Quiet s)
    (fresh : ∀ a : PagePtr, (s.procs a.proc).alive = true → s.page a = .uninit →
    s.last a = firstContents (s.procs a.proc).image a.page)
    (valid : ∀ a f, s.Holds a f → s.now f = s.last a) (stored : ∀ a b, s.Stores a b → s.device b = s.last a) :
    Coherent s where
  fresh := fresh
  valid a f held _ := valid a f held
  stored a b stores _ := stored a b stores
  saving _ _ _ p _ _ _ _ stage := nomatch (quiet p).symm.trans stage
  init p _ _ stage := nomatch (quiet p).symm.trans stage
  reading p _ _ _ _ stage := nomatch (quiet p).symm.trans stage

theorem quiet_valid (coherent : Coherent s) (quiet : Quiet s) (a : PagePtr) (f : FrameNo) (held : s.Holds a f) :
    s.now f = s.last a := by
  refine coherent.valid a f held ?_
  rw [quiet a.proc]
  exact id

theorem quiet_stored (coherent : Coherent s) (quiet : Quiet s) (a : PagePtr) (b : BlockNo) (stores : s.Stores a b) :
    s.device b = s.last a := by
  refine coherent.stored a b stores ?_
  rintro p ⟨_, _, _, _, stage⟩
  cases (quiet p).symm.trans stage

def filling (page : PageNo) (f : FrameNo) : Option BlockNo → Fault
  | none => .init page f
  | some block => .reading page f block 1

theorem filling_loads (page : PageNo) (f : FrameNo) (source : Option BlockNo) : (filling page f source).Loads page := by
  cases source <;> rfl

/-- A page of the current process gets a frame. -/
theorem assigned (coherent : Coherent s) (quiet : Quiet s) (alive : s.self.alive = true) {page : PageNo}
    {source : Option BlockNo}
    (wanted : Wanted s page source) (f : FrameNo) :
    Coherent ((s.assigned page f).setFault (filling page f source)) := by
  have page' : ∀ a, ((s.assigned page f).setFault (filling page f source)).page a =
      if a = ⟨s.current, page⟩ then .valid f else s.page a := fun a => (page_setFault _ a).trans (page_assigned f a)
  have alive' : ∀ p, (((s.assigned page f).setFault (filling page f source)).procs p).alive = (s.procs p).alive :=
    fun p => (alive_setFault _ p).trans (alive_setPage _ _ p)
  have served : Served s ((s.assigned page f).setFault (filling page f source)) :=
    (Served.assigned s page f).trans (.setFault _ _ s.mode)
  have fault : ∀ p, (((s.assigned page f).setFault (filling page f source)).procs p).fault =
      if p = s.current then filling page f source else .none := by
    intro p
    refine (fault_setFault _ p).trans ?_
    rw [show ((s.assigned page f).procs p).fault = .none from (fault_setPage _ _ p).trans (quiet p)]
    rfl
  have mine : ((s.assigned page f).setFault (filling page f source)).Holds ⟨s.current, page⟩ f :=
    ⟨(alive' s.current).trans alive, (page' _).trans (if_pos rfl)⟩
  refine ⟨?_, ?_, ?_, ?_, ?_, ?_⟩
  · intro a lives uninit
    rw [page'] at uninit
    split at uninit
    · cases uninit
    · rw [served.image]
      exact coherent.fresh a ((alive' _).symm.trans lives) uninit
  · intro a g held unloaded
    obtain ⟨lives, valid⟩ := held
    rw [page'] at valid
    split at valid
    · rename_i here
      subst here
      rw [fault, if_pos rfl] at unloaded
      exact absurd (filling_loads page f source) unloaded
    · exact coherent.quiet_valid quiet a g ⟨(alive' _).symm.trans lives, valid⟩
  · intro a b stores _
    obtain ⟨lives, stored⟩ := stores
    rw [page'] at stored
    split at stored
    · cases stored
    · exact coherent.quiet_stored quiet a b ⟨(alive' _).symm.trans lives, stored⟩
  · intro a b _ p g h blocks origin stage
    rw [fault] at stage
    split at stage
    · cases source <;> cases stage
    · cases stage
  · intro p g h stage
    rw [fault] at stage
    split at stage
    · rename_i here
      subst here
      cases source with
      | some block => cases stage
      | none =>
        cases stage
        rw [served.image]
        exact ⟨mine, coherent.fresh ⟨s.current, page⟩ alive wanted⟩
    · cases stage
  · intro p g h b blocks stage
    rw [fault] at stage
    split at stage
    · rename_i here
      subst here
      cases source with
      | none => cases stage
      | some block =>
        cases stage
        refine ⟨mine, coherent.quiet_stored quiet ⟨s.current, page⟩ b ⟨alive, wanted⟩, ?_⟩
        exact fun i inside => absurd inside (Nat.not_lt_zero _)
    · cases stage

/-- The frame of a page of the current process has its contents. -/
theorem complete (coherent : Coherent s) (others : ∀ p, p ≠ s.current → (s.procs p).fault = .none)
    {page : PageNo} {f : FrameNo}
    (loads : s.self.fault.Loads page) (alone : ∀ a, s.Holds a f → a = ⟨s.current, page⟩) (unmapped : Unmapped s.tlb f)
    {contents : Contents} (held : s.Holds ⟨s.current, page⟩ f) (final : contents = s.last ⟨s.current, page⟩) :
    Coherent ((s.setFrame f contents).setFault .none) := by
  have served : Served s ((s.setFrame f contents).setFault .none) :=
    (Served.same rfl rfl rfl : Served s (s.setFrame f contents)).trans (.setFault _ _ s.mode)
  have holds : ∀ a g, ((s.setFrame f contents).setFault .none).Holds a g ↔ s.Holds a g := fun a g => holds_setFault _
  have stores : ∀ a b, ((s.setFrame f contents).setFault .none).Stores a b ↔
    s.Stores a b := fun a b => stores_setFault _
  have now : ((s.setFrame f contents).setFault .none).now = Function.update s.now f contents := now_setFrame unmapped
  have quiet : Quiet ((s.setFrame f contents).setFault .none) := by
    intro p
    by_cases here : p = s.current
    · exact (fault_setFault _ p).trans (if_pos here)
    · exact (served.others p here).trans (others p here)
  refine of_quiet quiet ?_ ?_ ?_
  · intro a lives uninit
    rw [served.image]
    exact coherent.fresh a ((served.alive _).symm.trans lives) ((page_setFault _ a).symm.trans uninit)
  · intro a g held'
    have there := (holds a g).mp held'
    rw [now]
    by_cases same : g = f
    · subst same
      rw [Function.update_self, alone a there]
      exact final
    · rw [Function.update_of_ne same]
      refine coherent.valid a g there ?_
      by_cases here : a.proc = s.current
      · intro also
        obtain ⟨p, other⟩ := a
        cases here
        cases loads.unique also
        cases held.2.symm.trans there.2
        exact same rfl
      · rw [others a.proc here]
        exact id
  · intro a b there
    refine coherent.stored a b ((stores a b).mp there) ?_
    intro p
    by_cases here : p = s.current
    · rw [here]
      exact loads.unsaved b
    · rw [others p here]
      rintro ⟨_, _, _, _, clash⟩
      cases clash

section Stage
variable (others : ∀ p, p ≠ s.current → (s.procs p).fault = .none)
include others

/-- The stages after the current process has reached another one. -/
private theorem stages {t : State} (procs : t.procs = s.procs) (current : t.current = s.current)
    (fault : Fault) (p : Slot) :
    ((t.block fault).procs p).fault = if p = s.current then fault else .none := by
  refine (fault_setFault fault p).trans ?_
  rw [procs, current]
  by_cases here : p = s.current
  · rw [if_pos here, if_pos here]
  · rw [if_neg here, if_neg here, others p here]

/-- A block of a frame is read. -/
theorem readMore (coherent : Coherent s) {page : PageNo} {f : FrameNo} {b : BlockNo} {blocks : Nat}
    (stage : s.self.fault = .reading page f b blocks) (alone : ∀ a, s.Holds a f → a = ⟨s.current, page⟩)
    (unmapped : Unmapped s.tlb f) :
    Coherent ((blockRead s f b (blocks - 1)).block (.reading page f b (blocks + 1))) := by
  let t := blockRead s f b (blocks - 1)
  have served : Served s (t.block (.reading page f b (blocks + 1))) :=
    (Served.same rfl rfl rfl : Served s t).trans (.setFault ..)
  have fault := stages (t := t) others rfl rfl (.reading page f b (blocks + 1))
  have now : t.now = Function.update s.now f (copyBlock (blocks - 1) (s.device b) (s.frames f)) := now_setFrame unmapped
  obtain ⟨held, device, read⟩ := coherent.reading s.current page f b blocks stage
  refine ⟨?_, ?_, ?_, ?_, ?_, ?_⟩
  · intro a lives uninit
    rw [served.image]
    exact coherent.fresh a ((served.alive _).symm.trans lives) ((page_setFault _ a).symm.trans uninit)
  · intro a g held' unloaded
    have there : s.Holds a g := (holds_setFault _).mp held'
    rw [fault] at unloaded
    change t.now g = s.last a
    rw [now]
    have apart : g ≠ f := by
      rintro rfl
      rw [alone a there, if_pos rfl] at unloaded
      exact unloaded rfl
    rw [Function.update_of_ne apart]
    refine coherent.valid a g there ?_
    by_cases here : a.proc = s.current
    · rw [if_pos here] at unloaded
      rw [here]
      change ¬ s.self.fault.Loads a.page
      rw [stage]
      exact unloaded
    · rw [others a.proc here]
      exact id
  · intro a c there _
    refine coherent.stored a c ((stores_setFault _).mp there) ?_
    rintro p ⟨_, _, _, _, saves⟩
    by_cases here : p = s.current
    · subst here
      cases stage.symm.trans saves
    · cases (others p here).symm.trans saves
  · intro a c _ p g h n origin saves
    rw [fault] at saves
    split at saves <;> cases saves
  · intro p g h init
    rw [fault] at init
    split at init <;> cases init
  · intro p g h c n reads
    rw [fault] at reads
    split at reads
    · rename_i here
      subst here
      cases reads
      refine ⟨(holds_setFault _).mpr held, device, fun i inside => ?_⟩
      change t.now f i = s.last _ i
      rw [now, Function.update_self]
      unfold copyBlock
      split
      · rw [device]
      · rename_i later
        rw [← now_unmapped unmapped]
        exact read i (by omega)
    · cases reads

/-- A block of a pinned frame is written. -/
theorem writeMore (coherent : Coherent s) {page : PageNo} {f : FrameNo} {b : BlockNo} {blocks : Nat}
    {source : Option BlockNo}
    (stage : s.self.fault = .writing page f b blocks source) (unmapped : Unmapped s.tlb f) :
    Coherent ((blockWrite s f b blocks).block (.writing page f b (blocks + 1) source)) := by
  let t := blockWrite s f b blocks
  have served : Served s (t.block (.writing page f b (blocks + 1) source)) :=
    (Served.same rfl rfl rfl : Served s t).trans (.setFault ..)
  have fault := stages (t := t) others rfl rfl (.writing page f b (blocks + 1) source)
  refine ⟨?_, ?_, ?_, ?_, ?_, ?_⟩
  · intro a lives uninit
    rw [served.image]
    exact coherent.fresh a ((served.alive _).symm.trans lives) ((page_setFault _ a).symm.trans uninit)
  · intro a g there _
    refine coherent.valid a g ((holds_setFault _).mp there) ?_
    by_cases here : a.proc = s.current
    · rw [here]
      change ¬ s.self.fault.Loads a.page
      rw [stage]
      exact id
    · rw [others a.proc here]
      exact id
  · intro a c there unsaved
    have apart : c ≠ b := by
      rintro rfl
      exact unsaved s.current ⟨page, f, blocks + 1, source, (fault _).trans (if_pos rfl)⟩
    change Function.update s.device b _ c = s.last a
    rw [Function.update_of_ne apart]
    refine coherent.stored a c ((stores_setFault _).mp there) ?_
    rintro p ⟨_, _, _, _, saves⟩
    by_cases here : p = s.current
    · subst here
      cases stage.symm.trans saves
      exact apart rfl
    · cases (others p here).symm.trans saves
  · intro a c there p g h n origin saves
    rw [fault] at saves
    split at saves
    · rename_i here
      subst here
      cases saves
      obtain ⟨now, written⟩ := coherent.saving a b ((stores_setFault _).mp there) s.current page f blocks source stage
      refine ⟨now, fun i inside => ?_⟩
      change Function.update s.device b (copyBlock blocks (s.frames f) (s.device b)) b i = s.last a i
      rw [Function.update_self]
      unfold copyBlock
      split
      · rw [← now_unmapped unmapped, now]
      · rename_i later
        exact written i (by omega)
    · cases saves
  · intro p g h init
    rw [fault] at init
    split at init <;> cases init
  · intro p g h c n reads
    rw [fault] at reads
    split at reads <;> cases reads

/-- All of a pinned frame has been written. -/
theorem saved (coherent : Coherent s) {page : PageNo} {f : FrameNo}
    {b : BlockNo} {blocks : Nat} {source : Option BlockNo} (stage : s.self.fault = .writing page f b blocks source)
    (done : ¬ blocks < BLOCKS_PER_PAGE) : Coherent (s.setFault .none) := by
  have quiet : Quiet (s.setFault .none) := by
    intro p
    rw [fault_setFault]
    split
    · rfl
    · rename_i other
      exact others p other
  refine of_quiet quiet ?_ ?_ ?_
  · intro a lives uninit
    rw [(Served.setFault s .none s.mode).image]
    exact coherent.fresh a ((alive_setFault ..).symm.trans lives) ((page_setFault _ a).symm.trans uninit)
  · intro a g there
    refine coherent.valid a g ((holds_setFault _).mp there) ?_
    by_cases here : a.proc = s.current
    · rw [here]
      change ¬ s.self.fault.Loads a.page
      rw [stage]
      exact id
    · rw [others a.proc here]
      exact id
  · intro a c there
    have there := (stores_setFault _).mp there
    by_cases same : c = b
    · subst same
      have complete := (coherent.saving a c there s.current page f blocks source stage).2
      funext i
      refine complete i (Nat.lt_of_lt_of_le ?_ (Nat.le_of_not_lt done))
      have := i.isLt
      unfold PAGESIZE at this
      unfold BLOCK_SIZE BLOCKS_PER_PAGE PAGESIZE BLOCK_SIZE
      omega
    · refine coherent.stored a c there ?_
      rintro p ⟨g, h, n, origin, saves⟩
      by_cases here : p = s.current
      · subst here
        cases stage.symm.trans saves
        exact same rfl
      · cases (others p here).symm.trans saves

end Stage

private theorem firstBlock_now {f : FrameNo} (distinct : Distinct s.tlb) (synced : FirstBlockSynced s f)
    {offset : Offset}
    (first : offset.val / BLOCK_SIZE = 0) : s.frames f offset = s.now f offset := by
  by_cases mapped : ∃ i entry, s.tlb i = some entry ∧ entry.phys = f
  · obtain ⟨i, entry, there, rfl⟩ := mapped
    rw [now_mapped distinct there]
    refine (synced i entry there rfl offset ?_).symm
    exact (Nat.div_eq_zero_iff.mp first).resolve_left nofun
  · rw [now_unmapped fun i entry there same => mapped ⟨i, entry, there, same⟩]

/-- The first block of a frame that has been taken from its page is written. -/
theorem evict (coherent : Coherent s) (quiet : Quiet s) (blocks : Blocks s) (distinct : Distinct s.tlb)
    {block : BlockNo}
    {rest : List BlockNo} (head : s.freeblocks = block :: rest) {victim : PagePtr} (held : s.Holds victim s.clockHand)
    (synced : FirstBlockSynced s s.clockHand) (page : PageNo) (source : Option BlockNo) :
    Coherent ((s.pinned victim block rest).evicting page source block) := by
  let t := s.pinned victim block rest
  let after := t.evicting page source block
  have served : Served s after := by
    have pinned : Served s t :=
      (Served.same rfl rfl rfl : Served s { s with freeblocks := rest }).trans
      ((Served.setPage ..).trans (.same rfl rfl rfl))
    exact pinned.trans ((Served.same rfl rfl rfl : Served t (blockWrite t t.clockHand block 0)).trans (.setFault ..))
  have page' : ∀ a, after.page a = if a = victim then .onDisk block else s.page a :=
    fun a => (page_setFault _ a).trans (page_setPage victim _ a)
  have fault : ∀ p, (after.procs p).fault = if p = s.current then .writing page s.clockHand block 1 source
      else .none := by
    intro p
    refine (fault_setFault _ p).trans ?_
    rw [show ((blockWrite t t.clockHand block 0).procs p).fault = .none from (fault_setPage victim _ p).trans (quiet p)]
    rfl
  have device : after.device = Function.update s.device block (copyBlock 0 (s.frames s.clockHand) (s.device block)) :=
    rfl
  have free : block ∈ s.freeblocks := head ▸ List.mem_cons_self
  have unstored : ∀ a, ¬ s.Stores a block := fun a stores => blocks.stored a block stores free
  refine ⟨?_, ?_, ?_, ?_, ?_, ?_⟩
  · intro a lives uninit
    rw [page'] at uninit
    split at uninit
    · cases uninit
    · rw [served.image]
      exact coherent.fresh a ((served.alive _).symm.trans lives) uninit
  · intro a g there _
    obtain ⟨lives, valid⟩ := there
    rw [page'] at valid
    split at valid
    · cases valid
    · exact coherent.quiet_valid quiet a g ⟨(served.alive _).symm.trans lives, valid⟩
  · intro a b there unsaved
    obtain ⟨lives, stored⟩ := there
    rw [page'] at stored
    split at stored
    · cases stored
      exact absurd ⟨page, _, 1, source, (fault s.current).trans (if_pos rfl)⟩ (unsaved s.current)
    · have stores : s.Stores a b := ⟨(served.alive _).symm.trans lives, stored⟩
      have apart : b ≠ block := by
        rintro rfl
        exact unstored a stores
      rw [device, Function.update_of_ne apart]
      exact coherent.quiet_stored quiet a b stores
  · intro a b there p g f n origin saves
    rw [fault] at saves
    split at saves
    · cases saves
      obtain ⟨lives, stored⟩ := there
      rw [page'] at stored
      split at stored
      · rename_i hit
        subst hit
        have now := coherent.quiet_valid quiet a s.clockHand held
        refine ⟨now, fun i inside => ?_⟩
        have first : i.val / BLOCK_SIZE = 0 := Nat.lt_one_iff.mp inside
        rw [device, Function.update_self]
        refine (if_pos first).trans ?_
        rw [firstBlock_now distinct synced first]
        exact congrFun now i
      · exact absurd ⟨(served.alive _).symm.trans lives, stored⟩ (unstored a)
    · cases saves
  · intro p g f init
    rw [fault] at init
    split at init <;> cases init
  · intro p g f c n reads
    rw [fault] at reads
    split at reads <;> cases reads

private theorem setFault_cancel (idle : s.self.fault = .none) (fault : Fault) :
    ((s.setFault fault).setFault .none).procs = s.procs := by
  funext p
  rw [procs_setFault, procs_setFault]
  by_cases here : p = s.current
  · subst here
    simp only [State.setFault, State.setProc, if_true]
    change { s.self with fault := .none } = s.self
    rw [← idle]
  · have apart : ¬ p = (s.setFault fault).current := here
    rw [if_neg apart, if_neg here]

theorem fills {page : PageNo} {f : FrameNo} {source : Option BlockNo}
    (coherent : Coherent (s.setFault (filling page f source)))
    (quiet : Quiet s) (alone : ∀ a, s.Holds a f → a = ⟨s.current, page⟩) (held : s.Holds ⟨s.current, page⟩ f)
    (distinct : Distinct s.tlb) (unmapped : Unmapped s.tlb f) (fills : Fills s page source after) : Coherent after := by
  cases fills with
  | init frame contents valid image =>
    cases held.2.symm.trans valid
    exact coherent.same rfl rfl rfl rfl
  | read frame block valid =>
    cases held.2.symm.trans valid
    exact coherent.same rfl rfl rfl rfl
  | zero frame valid image =>
    cases held.2.symm.trans valid
    have here : (s.setFault (filling page f none)).self.fault = .init page f := (fault_setFault ..).trans (if_pos rfl)
    obtain ⟨there, known⟩ := coherent.init s.current page f here
    have blank : firstContents ((s.setFault (filling page f none)).procs s.current).image page = zeros := by
      have kept : ((s.setFault (filling page f none)).procs s.current).image = s.self.image :=
        (Served.setFault s (filling page f none) s.mode).image s.current
      unfold firstContents
      rw [kept, image]
      rfl
    have zeroed : Coherent (((s.setFault (filling page f none)).setFrame f zeros).setFault .none) := by
      refine coherent.complete ?_ ?_ ?_ unmapped there (known.trans blank).symm
      · exact fun p other => (fault_setFault ..).trans ((if_neg other).trans (quiet p))
      · rw [here]
        exact rfl
      · exact fun a other => alone a ((holds_setFault _).mp other)
    have same : Coherent (s.setFrame f zeros) :=
      zeroed.same (setFault_cancel (s := s.setFrame f zeros) (quiet s.current) (.init page f)).symm rfl rfl rfl
    exact same.mapped distinct unmapped page

/-- Filling the frame a page of the current process has just got. -/
private theorem assignedFills (coherent : Coherent s) (quiet : Quiet s) (alive : s.self.alive = true)
    {page : PageNo} {f : FrameNo}
    {source : Option BlockNo} (wanted : Wanted s page source) (acc : Accounted False none (s.assigned page f))
    (distinct : Distinct s.tlb) (unmapped : Unmapped s.tlb f) (filled : Fills (s.assigned page f) page source after) :
    Coherent after := by
  have held : (s.assigned page f).Holds ⟨s.current, page⟩ f :=
    ⟨(alive_setPage ..).trans alive, (page_assigned ..).trans (if_pos rfl)⟩
  exact (coherent.assigned quiet alive wanted f).fills (fun p => (fault_setPage ..).trans (quiet p))
    (fun a other => acc.holder_unique other held) held distinct unmapped filled

theorem faulted (coherent : Coherent s) (quiet : Quiet s) (acc : Accounted False none s) (blocks : Blocks s)
    (cached : Cached s)
    (runs : s.mode ≠ .yielding) {page : PageNo} (absent : s.tlbGetEntry page = none)
    (synced : (∀ f, s.self.pages page ≠ .valid f) → s.freeframes = [] → ∀ f, Chosen s f → FirstBlockSynced s f)
    (faulted : Faulted s page after) : Coherent after := by
  have alive := acc.running runs
  cases faulted with
  | remap frame valid status owner =>
    have marked : Coherent (s.setInfo frame { s.frameInfo frame with status := .ref }) := coherent.same rfl rfl rfl rfl
    exact marked.mapped cached.distinct (cached.unmappedOwn acc runs absent valid) page
  | take frame rest source after wanted free status fills =>
    have popped : Coherent { s with freeframes := rest } := coherent.same rfl rfl rfl rfl
    exact popped.assignedFills quiet alive wanted (acc.taken alive (quiet s.current) wanted free status) cached.distinct
      (cached.unmappedFree acc runs status) fills
  | evict source block rest swept victim wanted full head clock owner =>
    have elsewhere : ∀ f, s.self.pages page ≠ .valid f := by
      intro f valid
      have clash := wanted.symm.trans valid
      cases source <;> cases clash
    have clean := synced elsewhere full swept.clockHand clock.chosen
    have held := acc.sweptVictim clock owner
    have rest' := clock.rest
    have moved : Coherent swept := coherent.same (by rw [rest']) (by rw [rest']; rfl) (by rw [rest']) (by rw [rest'])
    have still : Blocks swept := blocks.same (by rw [rest']) (by rw [rest'])
    refine moved.evict ?_ still ?_ ?_ ?_ ?_ page source
    · intro p
      rw [rest']
      exact quiet p
    · rw [rest']
      exact cached.distinct
    · rw [rest']
      exact head
    · rw [rest']
      exact held
    · intro i entry there phys
      rw [rest'] at there
      have agrees := clean i entry there phys
      rw [rest']
      exact agrees

theorem resumed (coherent : Coherent s) (acc : Accounted False none s) (serial : Serial s) (cached : Cached s)
    (runs : s.mode ≠ .yielding) (faulting : s.self.fault ≠ .none) (resumed : Resumed s after) : Coherent after := by
  have alive := acc.running runs
  have others : ∀ p, p ≠ s.current → (s.procs p).fault = .none := fun p => serial.others faulting
  have unmapped : ∀ f, Unmapped s.tlb f := fun f i entry there =>
    nomatch (cached.flushed runs faulting i).symm.trans there
  cases resumed with
  | write page frame block blocks source stage more => exact coherent.writeMore others stage (unmapped frame)
  | finish page frame block blocks source after stage done fills =>
    have place := serial.hand _ _ _ _ _ _ stage
    subst place
    have ended := coherent.saved others stage done
    have quiet : Quiet (s.setFault .none) := by
      intro p
      rw [fault_setFault]
      split
      · rfl
      · rename_i other
        exact others p other
    have lives : (s.setFault .none).self.alive = true := (alive_setFault ..).trans alive
    have wanted : Wanted (s.setFault .none) page source :=
      (page_setFault _ ⟨s.current, page⟩).trans (serial.wanted _ _ _ _ _ _ stage)
    have advanced : Coherent (advance (s.setFault .none)) := ended.same rfl rfl rfl rfl
    exact advanced.assignedFills quiet lives wanted (acc.finished alive stage) cached.distinct
      (unmapped s.clockHand) fills
  | init page frame place stage valid =>
    obtain ⟨held, first⟩ := coherent.init s.current page frame stage
    cases held.2.symm.trans valid
    have loads : s.self.fault.Loads page := by
      rw [stage]
      exact rfl
    have done := coherent.complete others loads
      (fun a other => acc.holder_unique other held) (unmapped frame) held first.symm
    exact done.mapped cached.distinct (unmapped frame) page
  | read page frame block blocks stage more =>
    obtain ⟨held, _, _⟩ := coherent.reading s.current page frame block blocks stage
    exact coherent.readMore others stage (fun a other => acc.holder_unique other held) (unmapped frame)
  | last page frame block blocks place stage done valid =>
    obtain ⟨held, device, read⟩ := coherent.reading s.current page frame block blocks stage
    cases held.2.symm.trans valid
    have loads : s.self.fault.Loads page := by
      rw [stage]
      exact rfl
    have final : copyBlock (blocks - 1) (s.device block) (s.frames frame) = s.last ⟨s.current, page⟩ := by
      funext i
      unfold copyBlock
      split
      · rw [device]
      · rename_i earlier
        rw [← now_unmapped (unmapped frame)]
        refine read i ?_
        have := i.isLt
        unfold PAGESIZE at this
        unfold BLOCKS_PER_PAGE PAGESIZE BLOCK_SIZE at done
        unfold BLOCK_SIZE at earlier ⊢
        omega
    have whole := coherent.complete others loads
      (fun a other => acc.holder_unique other held) (unmapped frame) held final
    exact whole.mapped cached.distinct (unmapped frame) page

end Coherent
end Egos.Paging
