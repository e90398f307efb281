import Egos.Proofs.PagingSerial

/-! Which page each block of the paging device belongs to. The block a page has been
read from is not used again. -/

namespace Egos.Paging
open Library Library.Prog Grass

def State.Stores (s : State) (a : PagePtr) (b : BlockNo) : Prop := (s.procs a.proc).alive = true ∧ s.page a = .onDisk b

structure Blocks (s : State) : Prop where
  nodup : s.freeblocks.Nodup
  stored : ∀ a b, s.Stores a b → b ∉ s.freeblocks
  alone : ∀ a c b, s.Stores a b → s.Stores c b → a = c
  source : ∀ p page f b blocks, (s.procs p).fault = .reading page f b blocks → b ∉ s.freeblocks ∧ ∀ a, ¬ s.Stores a b

section Views
variable {s : State} {a : PagePtr} {b : BlockNo}

theorem stores_setFault (fault : Fault) : (s.setFault fault).Stores a b ↔ s.Stores a b := by
  unfold State.Stores
  rw [alive_setFault, page_setFault]

theorem stores_setPage (victim : PagePtr) (info : PageInfo) : (s.setPage victim info).Stores a b ↔
    (s.procs a.proc).alive = true ∧ (if a = victim then info else s.page a) = .onDisk b := by
  unfold State.Stores
  rw [alive_setPage, page_setPage]

theorem stores_assigned (page : PageNo) (f : FrameNo) :
    (s.assigned page f).Stores a b ↔ a ≠ ⟨s.current, page⟩ ∧ s.Stores a b := by
  refine (stores_setPage ..).trans ?_
  by_cases same : a = ⟨s.current, page⟩
  · simp [same]
  · simp only [same, if_false, ne_eq, not_false_eq_true, true_and]
    exact .rfl

end Views

namespace Blocks
variable {s after : State}

/-- Steps that move no block. -/
theorem keep (blocks : Blocks s) (free : after.freeblocks = s.freeblocks)
    (stores : ∀ a b, after.Stores a b → s.Stores a b)
    (reads : ∀ p page f b count, (after.procs p).fault = .reading page f b count →
      ∃ other, (s.procs p).fault = .reading page f b other) : Blocks after where
  nodup := free ▸ blocks.nodup
  stored a b stored := free ▸ blocks.stored a b (stores a b stored)
  alone a c b first second := blocks.alone a c b (stores a b first) (stores c b second)
  source p page f b count stage := by
    obtain ⟨other, before⟩ := reads p page f b count stage
    obtain ⟨used, unstored⟩ := blocks.source p page f b other before
    exact ⟨free ▸ used, fun a stored => unstored a (stores a b stored)⟩

theorem same (blocks : Blocks s) (procs : after.procs = s.procs) (free : after.freeblocks = s.freeblocks) :
    Blocks after := by
  refine blocks.keep free ?_ ?_
  · intro a b
    unfold State.Stores State.page
    rw [procs]
    exact id
  · rw [procs]
    exact fun p page f b count stage => ⟨count, stage⟩

/-- The current process reaches a stage in which it reads the same block or none. -/
theorem stage (blocks : Blocks s) (fault : Fault) (mode : Mode)
    (reads : ∀ page f b count, fault = .reading page f b count → ∃ other, s.self.fault = .reading page f b other) :
    Blocks { s.setFault fault with mode } := by
  refine blocks.keep rfl (fun a b => (stores_setFault fault).mp) ?_
  intro p page f b count stage
  have view : (if p = s.current then fault else (s.procs p).fault) = _ := (fault_setFault fault p).symm.trans stage
  split at view
  · rename_i here
    rw [here]
    exact reads page f b count view
  · exact ⟨count, view⟩

theorem mapped (blocks : Blocks s) (page : PageNo) (f : FrameNo) : Blocks (s.mapped page f) := by
  rw [mapped_rest]
  exact blocks.same rfl rfl

theorem assigned (blocks : Blocks s) (page : PageNo) (f : FrameNo) : Blocks (s.assigned page f) := by
  refine blocks.keep rfl (fun a b stored => ((stores_assigned page f).mp stored).2) ?_
  intro p g h b count stage
  exact ⟨count, (fault_setPage ..).symm.trans stage⟩

/-- Filling the frame of a page. The block to be read belongs to no page any more. -/
theorem fills (blocks : Blocks s) {page : PageNo} {source : Option BlockNo}
    (unstored : ∀ block, source = some block → block ∉ s.freeblocks ∧ ∀ a, ¬ s.Stores a block)
    (fills : Fills s page source after) : Blocks after := by
  cases fills with
  | zero frame valid image =>
    have zeroed : Blocks (s.setFrame frame zeros) := blocks.same rfl rfl
    exact zeroed.mapped page frame
  | init frame contents valid image => exact blocks.stage _ _ nofun
  | read frame block valid =>
    obtain ⟨used, free⟩ := unstored block rfl
    refine ⟨blocks.nodup, ?_, ?_, ?_⟩
    · exact fun a b stored => blocks.stored a b ((stores_setFault _).mp stored)
    · exact fun a c b first second => blocks.alone a c b ((stores_setFault _).mp first) ((stores_setFault _).mp second)
    · intro p g f b count stage
      have stage := (fault_setFault _ p).symm.trans stage
      split at stage
      · cases stage
        exact ⟨used, fun a stored => free a ((stores_setFault _).mp stored)⟩
      · obtain ⟨used, free⟩ := blocks.source p g f b count stage
        exact ⟨used, fun a stored => free a ((stores_setFault _).mp stored)⟩

/-- The block a page of the current process is brought in from is left to it. -/
private theorem brought (blocks : Blocks s) (alive : s.self.alive = true) {page : PageNo} {source : Option BlockNo}
    (wanted : Wanted s page source) (f : FrameNo) (block : BlockNo) (here : source = some block) :
    block ∉ (s.assigned page f).freeblocks ∧ ∀ a, ¬ (s.assigned page f).Stores a block := by
  subst here
  have mine : s.Stores ⟨s.current, page⟩ block := ⟨alive, wanted⟩
  refine ⟨blocks.stored _ block mine, fun a stored => ?_⟩
  obtain ⟨other, stored⟩ := (stores_assigned page f).mp stored
  exact other (blocks.alone a _ block stored mine)

/-- The first free block goes to the page whose frame is taken. -/
theorem evict (blocks : Blocks s) {block : BlockNo} {rest : List BlockNo} (head : s.freeblocks = block :: rest)
    (victim : PagePtr)
    (page : PageNo) (source : Option BlockNo) : Blocks ((s.pinned victim block rest).evicting page source block) := by
  have nodup := List.nodup_cons.mp (head ▸ blocks.nodup)
  have free : block ∈ s.freeblocks := head ▸ List.mem_cons_self
  have kept : ∀ b, b ∉ s.freeblocks → b ∉ rest := fun b used inside => used (head ▸ List.mem_cons_of_mem block inside)
  have stores : ∀ {a b}, ((s.pinned victim block rest).evicting page source block).Stores a b →
      a = victim ∧ b = block ∨ a ≠ victim ∧ s.Stores a b := by
    intro a b stored
    obtain ⟨lives, info⟩ := (stores_setPage (s := { s with freeblocks := rest }) ..).mp ((stores_setFault _).mp stored)
    split at info
    · rename_i same
      cases info
      exact .inl ⟨same, rfl⟩
    · rename_i other
      exact .inr ⟨other, lives, info⟩
  refine ⟨nodup.2, ?_, ?_, ?_⟩
  · intro a b stored
    rcases stores stored with ⟨_, rfl⟩ | ⟨_, stored⟩
    · exact nodup.1
    · exact kept b (blocks.stored a b stored)
  · intro a c b first second
    rcases stores first with ⟨rfl, rfl⟩ | ⟨_, left⟩
    · rcases stores second with ⟨rfl, _⟩ | ⟨_, right⟩
      · rfl
      · exact absurd free (blocks.stored c _ right)
    · rcases stores second with ⟨_, rfl⟩ | ⟨_, right⟩
      · exact absurd free (blocks.stored a _ left)
      · exact blocks.alone a c b left right
  · intro p g f b count stage
    have view : (if p = s.current then .writing page s.clockHand block 1 source else
        ((s.pinned victim block rest).procs p).fault) = _ := (fault_setFault _ p).symm.trans stage
    split at view
    · cases view
    · obtain ⟨used, unstored⟩ := blocks.source p g f b count ((fault_setPage victim _ p).symm.trans view)
      refine ⟨kept b used, fun a stored => ?_⟩
      rcases stores stored with ⟨_, rfl⟩ | ⟨_, stored⟩
      · exact used free
      · exact unstored a stored

theorem faulted (blocks : Blocks s) (alive : s.self.alive = true) {page : PageNo} (faulted : Faulted s page after) :
    Blocks after := by
  cases faulted with
  | remap frame =>
    have marked : Blocks (s.setInfo frame { s.frameInfo frame with status := .ref }) := blocks.same rfl rfl
    exact marked.mapped page frame
  | take frame rest source after wanted free status fills =>
    have popped : Blocks { s with freeframes := rest } := blocks.same rfl rfl
    exact (popped.assigned page frame).fills (popped.brought alive wanted frame) fills
  | evict source block rest swept victim wanted full head clock owner =>
    have moved : Blocks swept := by
      rw [clock.rest]
      exact blocks.same rfl rfl
    exact moved.evict (by rw [clock.rest]; exact head) victim page source

/-- The page an eviction is for is still where it was. -/
abbrev Waiting (s : State) : Prop :=
  ∀ page frame block count source, s.self.fault = .writing page frame block count source → Wanted s page source

theorem resumed (blocks : Blocks s) (alive : s.self.alive = true) (waiting : Waiting s) (resumed : Resumed s after) :
    Blocks after := by
  cases resumed with
  | write page frame block count source stage more =>
    have wrote : Blocks (blockWrite s frame block count) := blocks.same rfl rfl
    exact wrote.stage _ _ nofun
  | finish page frame block count source after stage done fills =>
    have ended : Blocks (s.setFault .none) := blocks.stage .none s.mode nofun
    have lives : (s.setFault .none).self.alive = true := (alive_setFault ..).trans alive
    have wanted : Wanted (s.setFault .none) page source :=
      (page_setFault .none ⟨s.current, page⟩).trans (waiting _ _ _ _ _ stage)
    have advanced : Blocks (advance ((s.setFault .none).assigned page s.clockHand)) :=
      (ended.assigned page s.clockHand).same rfl rfl
    exact advanced.fills (ended.brought lives wanted s.clockHand) fills
  | init page frame place stage valid =>
    have filled : Blocks (s.setFrame frame (firstContents s.self.image page)) := blocks.same rfl rfl
    exact (filled.stage .none s.mode nofun).mapped page place
  | read page frame block count stage more =>
    have copied : Blocks (blockRead s frame block (count - 1)) := blocks.same rfl rfl
    refine copied.stage _ _ ?_
    rintro g f b n ⟨⟩
    exact ⟨count, stage⟩
  | last page frame block count place stage done valid =>
    have copied : Blocks (blockRead s frame block (count - 1)) := blocks.same rfl rfl
    exact (copied.stage .none s.mode nofun).mapped page place

theorem term (blocks : Blocks s) {p : Slot} (alive : (s.procs p).alive = true) :
    Blocks ((s.dead p).released p (List.finRange VIRT_PAGES)) := by
  let freed := (List.finRange VIRT_PAGES).filterMap fun page => (((s.dead p).procs p).pages page).block?
  let after := (s.dead p).released p (List.finRange VIRT_PAGES)
  have mem : ∀ b, b ∈ freed → ∃ page, s.Stores ⟨p, page⟩ b := by
    intro b inside
    obtain ⟨page, _, stored⟩ := List.mem_filterMap.mp inside
    rw [PageInfo.block?_eq_some, procs_dead, if_pos rfl] at stored
    exact ⟨page, alive, stored⟩
  have stores : ∀ a b, after.Stores a b → a.proc ≠ p ∧ s.Stores a b := by
    intro a b stored
    change ((s.dead p).procs a.proc).alive = true ∧ ((s.dead p).procs a.proc).pages a.page = _ at stored
    rw [procs_dead] at stored
    by_cases same : a.proc = p
    · rw [if_pos same] at stored
      cases stored.1
    · rw [if_neg same] at stored
      exact ⟨same, stored⟩
  have kept : ∀ b, b ∉ s.freeblocks → (∀ page, ¬ s.Stores ⟨p, page⟩ b) → b ∉ after.freeblocks := by
    intro b used elsewhere inside
    rcases List.mem_append.mp inside with free | inside
    · exact used free
    · obtain ⟨page, stored⟩ := mem b inside
      exact elsewhere page stored
  refine ⟨?_, ?_, ?_, ?_⟩
  · refine List.nodup_append.mpr ⟨blocks.nodup, ?_, ?_⟩
    · refine List.Nodup.filterMap ?_ (List.nodup_finRange VIRT_PAGES)
      intro first second b left right
      rw [Option.mem_def, PageInfo.block?_eq_some, procs_dead, if_pos rfl] at left right
      have same : (⟨p, first⟩ : PagePtr) = ⟨p, second⟩ := blocks.alone _ _ b ⟨alive, left⟩ ⟨alive, right⟩
      exact congrArg PagePtr.page same
    · rintro b free c inside rfl
      obtain ⟨page, stored⟩ := mem b inside
      exact blocks.stored _ b stored free
  · intro a b stored
    obtain ⟨other, stored⟩ := stores a b stored
    refine kept b (blocks.stored a b stored) fun page mine => ?_
    exact other (congrArg PagePtr.proc (blocks.alone a _ b stored mine))
  · exact fun a c b first second => blocks.alone a c b (stores a b first).2 (stores c b second).2
  · intro q page f b count stage
    change ((s.dead p).procs q).fault = _ at stage
    rw [procs_dead] at stage
    by_cases same : q = p
    · rw [if_pos same] at stage
      cases stage
    · rw [if_neg same] at stage
      obtain ⟨used, unstored⟩ := blocks.source q page f b count stage
      exact ⟨kept b used fun page => unstored _, fun a stored => unstored a (stores a b stored).2⟩

private theorem create (blocks : Blocks s) {p : Slot} {user : Bool} {image : PageNo → Option Contents}
    (created : procCreate p user image s = .done () after) : Blocks after := by
  cases created
  let fresh : Proc := { alive := true, user, pages := fun _ => .uninit, image, fault := .none }
  have procs : ∀ q, (s.setProc p fresh).procs q = if q = p then fresh else s.procs q := fun q =>
    Function.update_apply ..
  refine blocks.keep rfl ?_ ?_
  · intro a b stored
    change ((s.setProc p fresh).procs a.proc).alive = true ∧
      ((s.setProc p fresh).procs a.proc).pages a.page = _ at stored
    rw [procs] at stored
    split at stored
    · cases stored.2
    · exact stored
  · intro q page f b count stage
    change ((s.setProc p fresh).procs q).fault = _ at stage
    rw [procs] at stage
    split at stage
    · cases stage
    · exact ⟨count, stage⟩

theorem step {event : Event} (blocks : Blocks s) (running : s.mode ≠ .yielding → s.self.alive = true)
    (waiting : Waiting s)
    (step : Step s event after) : Blocks after := by
  obtain ⟨enabled, ran⟩ := step
  cases event with
  | toUser =>
    cases ran
    exact blocks.same rfl rfl
  | trap =>
    cases ran
    dsimp only
    rw [tlbSync_rest]
    exact blocks.same rfl rfl
  | userStore page offset byte =>
    obtain ⟨i, entry, _, _, rfl⟩ := (store_does s page offset byte).done ran
    exact blocks.same rfl rfl
  | copyStore page offset byte =>
    obtain ⟨i, entry, _, _, rfl⟩ := (store_does s page offset byte).done ran
    exact blocks.same rfl rfl
  | fault page =>
    have alive := running (by rw [enabled.1]; exact nofun)
    exact blocks.faulted alive ((procPagefault_does s page).done ran)
  | resume =>
    have alive := running (by rw [enabled.1]; exact nofun)
    exact blocks.resumed alive waiting ((resumeFault_does s enabled.2).done ran)
  | switch proc =>
    cases ran
    dsimp only
    rw [tlbFlush_rest]
    exact blocks.same rfl rfl
  | term proc =>
    cases (procTerm_does s proc).done ran
    exact blocks.term enabled.2
  | create proc user image => exact blocks.create ran

end Blocks

theorem booted_blocks : Blocks booted := by
  have unstored : ∀ a b, ¬ booted.Stores a b := fun a b stored => nomatch (stored.2 : PageInfo.uninit = .onDisk b)
  have free : booted.freeblocks = List.finRange PG_DEV_SIZE := by simp only [booted]
  exact ⟨free ▸ List.nodup_finRange PG_DEV_SIZE, fun a b stored => absurd stored (unstored a b),
    fun a c b first => absurd first (unstored a b), nofun⟩

end Egos.Paging
