import Egos.Proofs.PagingBlocks
import Mathlib.Data.Set.Card

/-! Where each block of the paging device is. Nothing is lost as long as no page is
brought back: the block it was read from is not freed. -/

namespace Egos.Paging
open Library Library.Prog Grass

/-- Every block is free or stores a page. What the clock evicts is a page that has a frame. -/
structure Stocked (s : State) : Prop where
  running : s.mode ≠ .yielding → s.self.alive = true
  owner : ∀ f a, s.InUse f → (s.frameInfo f).pi = some a → s.Holds a f
  wanted : ∀ p page f block blocks source, (s.procs p).fault = .writing page f block blocks source →
    s.page ⟨p, page⟩ = .ofSource source
  place : ∀ b, b ∈ s.freeblocks ∨ ∃ a, s.Stores a b

namespace Stocked
variable {s after : State} {page : PageNo} {source : Option BlockNo} {f : FrameNo}

/-- Steps that move no page. -/
theorem same (stocked : Stocked s) (running : after.mode ≠ .yielding → after.self.alive = true)
    (procs : after.procs = s.procs)
    (marks : ∀ f, SameUse (s.frameInfo f) (after.frameInfo f)) (free : after.freeblocks = s.freeblocks) :
    Stocked after where
  running := running
  owner f a use pi := by
    have held := stocked.owner f a ((marks f).inUse.mp use) ((marks f).pi ▸ pi)
    unfold State.Holds State.page at held ⊢
    rwa [procs]
  wanted p page f block blocks source stage := by
    have info := stocked.wanted p page f block blocks source (procs ▸ stage)
    unfold State.page at info ⊢
    rwa [procs]
  place b := by
    have known := stocked.place b
    unfold State.Stores State.page at known ⊢
    rwa [procs, free]

/-- The current process reaches another stage of a page fault. -/
theorem stage (stocked : Stocked s) (alive : s.self.alive = true) (fault : Fault) (mode : Mode)
    (wanted : ∀ page f block blocks source, fault = .writing page f block blocks source → Wanted s page source) :
    Stocked { s.setFault fault with mode } where
  running _ := (alive_setFault ..).trans alive
  owner f a use pi := (holds_setFault fault).mpr (stocked.owner f a use pi)
  wanted p page f block blocks source stage := by
    refine (page_setFault fault ⟨p, page⟩).trans ?_
    have view : (if p = s.current then fault else (s.procs p).fault) = _ := (fault_setFault fault p).symm.trans stage
    split at view
    · rename_i here
      rw [here]
      exact wanted page f block blocks source view
    · exact stocked.wanted p page f block blocks source view
  place b := (stocked.place b).imp_right fun ⟨a, stored⟩ => ⟨a, (stores_setFault fault).mpr stored⟩

theorem mapped (stocked : Stocked s) (alive : s.self.alive = true) (page : PageNo) (f : FrameNo) :
    Stocked (s.mapped page f) := by
  rw [mapped_rest]
  exact stocked.same (fun _ => alive) rfl (fun _ => .refl _) rfl

/-- A new page gets a frame. -/
theorem assigned (stocked : Stocked s) (alive : s.self.alive = true) (idle : s.self.fault = .none)
    (fresh : s.self.pages page = .uninit) : Stocked (s.assigned page f) where
  running _ := (alive_setPage ..).trans alive
  owner g a use pi := by
    refine (holds_setPage ..).mpr ?_
    by_cases here : g = f
    · subst here
      have info : (s.assigned page g).frameInfo g = { status := .ref, pi := some ⟨s.current, page⟩ } :=
        Function.update_self ..
      rw [info] at pi
      cases pi
      exact ⟨alive, if_pos rfl⟩
    · have info : (s.assigned page f).frameInfo g = s.frameInfo g := Function.update_of_ne here ..
      unfold State.InUse at use
      rw [info] at use pi
      obtain ⟨lives, valid⟩ := stocked.owner g a use pi
      refine ⟨lives, (if_neg ?_).trans valid⟩
      rintro rfl
      cases fresh.symm.trans valid
  wanted p g h block blocks source stage := by
    have stage := (fault_setPage ..).symm.trans stage
    have info := stocked.wanted p g h block blocks source stage
    refine (page_setPage ..).trans ((if_neg ?_).trans info)
    rintro ⟨⟩
    cases idle.symm.trans stage
  place b := by
    refine (stocked.place b).imp_right ?_
    rintro ⟨a, stored⟩
    refine ⟨a, (stores_assigned page f).mpr ⟨?_, stored⟩⟩
    rintro rfl
    cases fresh.symm.trans stored.2

theorem fills (stocked : Stocked s) (alive : s.self.alive = true) (fills : Fills s page source after) :
    Stocked after := by
  cases fills with
  | zero frame valid image =>
    have zeroed : Stocked (s.setFrame frame zeros) := stocked.same (fun _ => alive) rfl (fun _ => .refl _) rfl
    exact zeroed.mapped alive page frame
  | init frame contents valid image => exact stocked.stage alive _ _ nofun
  | read frame block valid => exact stocked.stage alive _ _ nofun

theorem swept (stocked : Stocked s) (swept : Swept s after) : Stocked after := by
  have rest := swept.rest
  refine stocked.same ?_ (by rw [rest]) ?_ (by rw [rest])
  · rw [rest]
    exact stocked.running
  · intro f
    rcases swept.info f with same | aged
    · exact same ▸ .refl _
    · exact aged ▸ .aged _

/-- The first free block takes the page under the clock hand. -/
theorem pinned (stocked : Stocked s) (unref : (s.frameInfo s.clockHand).status = .unref) {victim : PagePtr}
    (owner : (s.frameInfo s.clockHand).pi = some victim) {block : BlockNo} {rest : List BlockNo}
    (head : s.freeblocks = block :: rest) :
    Stocked (s.pinned victim block rest) := by
  have held := stocked.owner _ victim (.inr unref) owner
  refine ⟨fun runs => (alive_setPage ..).trans (stocked.running runs), ?_, ?_, ?_⟩
  · intro g a use pi
    have apart : g ≠ s.clockHand := by
      rintro rfl
      have info : (s.pinned victim block rest).frameInfo s.clockHand =
          { s.frameInfo s.clockHand with status := .pinned } :=
        Function.update_self ..
      unfold State.InUse at use
      rw [info] at use
      rcases use with clash | clash <;> cases clash
    have info : (s.pinned victim block rest).frameInfo g = s.frameInfo g := Function.update_of_ne apart ..
    unfold State.InUse at use
    rw [info] at use pi
    obtain ⟨lives, valid⟩ := stocked.owner g a use pi
    refine (holds_setPage (s := { s with freeblocks := rest }) ..).mpr ⟨lives, (if_neg ?_).trans valid⟩
    rintro rfl
    cases held.2.symm.trans valid
    exact apart rfl
  · intro p g h b blocks source stage
    have stage := (fault_setPage (s := { s with freeblocks := rest }) ..).symm.trans stage
    have info := stocked.wanted p g h b blocks source stage
    refine (page_setPage (s := { s with freeblocks := rest }) ..).trans ((if_neg ?_).trans info)
    rintro rfl
    have clash := held.2.symm.trans info
    cases source <;> cases clash
  · intro b
    by_cases here : b = block
    · subst here
      exact .inr ⟨victim, (stores_setPage (s := { s with freeblocks := rest }) ..).mpr ⟨held.1, if_pos rfl⟩⟩
    · rcases stocked.place b with free | ⟨a, stored⟩
      · rw [head] at free
        exact .inl ((List.mem_cons.mp free).resolve_left here)
      · refine .inr ⟨a, (stores_setPage (s := { s with freeblocks := rest }) ..).mpr ⟨stored.1,
          (if_neg ?_).trans stored.2⟩⟩
        rintro rfl
        cases held.2.symm.trans stored.2

/-- A page fault of a page that is new, or for which no frame is free. -/
theorem faulted (stocked : Stocked s) (alive : s.self.alive = true) (idle : s.self.fault = .none)
    (new : s.freeframes ≠ [] → ∀ block, s.self.pages page ≠ .onDisk block) (faulted : Faulted s page after) :
    Stocked after := by
  cases faulted with
  | remap frame valid status owner =>
    let marked := s.setInfo frame { s.frameInfo frame with status := .ref }
    have remapped : Stocked marked := by
      refine { stocked with owner := ?_ }
      intro g a use pi
      by_cases here : g = frame
      · subst here
        have info : marked.frameInfo g = { s.frameInfo g with status := .ref } := Function.update_self ..
        rw [info] at pi
        cases owner.symm.trans pi
        exact ⟨alive, valid⟩
      · have info : marked.frameInfo g = s.frameInfo g := Function.update_of_ne here ..
        unfold State.InUse at use
        rw [info] at use pi
        exact stocked.owner g a use pi
    exact remapped.mapped alive page frame
  | take frame rest source after wanted free status fills =>
    have fresh : s.self.pages page = .uninit := by
      cases source with
      | none => exact wanted
      | some block => exact absurd wanted (new (by rw [free]; exact nofun) block)
    have popped : Stocked { s with freeframes := rest } := stocked.same (fun _ => alive) rfl (fun _ => .refl _) rfl
    exact (popped.assigned alive idle fresh).fills ((alive_setPage ..).trans alive) fills
  | evict source block rest swept victim wanted full head clock owner =>
    have procs : swept.procs = s.procs := by rw [clock.rest]
    have current : swept.current = s.current := by rw [clock.rest]
    have self : swept.self = s.self := by unfold State.self; rw [procs, current]
    have blocks : swept.freeblocks = block :: rest := by rw [clock.rest]; exact head
    have moved := stocked.swept clock
    have pinned := moved.pinned clock.unref owner blocks
    rw [← self] at alive
    have lives : (swept.pinned victim block rest).self.alive = true := (alive_setPage ..).trans alive
    have wrote : Stocked (blockWrite (swept.pinned victim block rest) swept.clockHand block 0) :=
      pinned.same (fun _ => lives) rfl (fun _ => .refl _) rfl
    refine wrote.stage lives _ _ ?_
    rintro _ _ _ _ _ ⟨⟩
    -- the page that is evicted is another one, since it has a frame
    have held := moved.owner _ victim (.inr clock.unref) owner
    have view := page_setPage (s := { swept with freeblocks := rest }) victim (.onDisk block) ⟨swept.current, page⟩
    refine view.trans ((if_neg ?_).trans ?_)
    · rintro rfl
      have valid : s.self.pages page = .valid swept.clockHand := self ▸ held.2
      have clash := valid.symm.trans wanted
      cases source <;> cases clash
    · change swept.self.pages page = _
      rw [self]
      exact wanted

/-- The rest of a page fault, when no eviction is completed for a page on the paging device. -/
theorem resumed (stocked : Stocked s) (alive : s.self.alive = true)
    (new : ∀ page f block blocks source, s.self.fault = .writing page f block blocks source →
    ¬ blocks < BLOCKS_PER_PAGE →
      ∀ b, s.self.pages page ≠ .onDisk b) (resumed : Resumed s after) : Stocked after := by
  cases resumed with
  | write page frame block blocks source stage more =>
    have wrote : Stocked (blockWrite s frame block blocks) := stocked.same (fun _ => alive) rfl (fun _ => .refl _) rfl
    refine wrote.stage alive _ _ ?_
    rintro _ _ _ _ _ ⟨⟩
    exact stocked.wanted _ _ _ _ _ _ stage
  | finish page frame block blocks source after stage done fills =>
    have ended : Stocked (s.setFault .none) := stocked.stage alive .none s.mode nofun
    have lives : (s.setFault .none).self.alive = true := (alive_setFault ..).trans alive
    have rests : (s.setFault .none).self.fault = .none := (fault_setFault ..).trans (if_pos rfl)
    have wanted := stocked.wanted _ _ _ _ _ _ stage
    have fresh : (s.setFault .none).self.pages page = .uninit := by
      refine (page_setFault .none ⟨s.current, page⟩).trans (wanted.trans ?_)
      cases source with
      | none => rfl
      | some b => exact absurd wanted (new _ _ _ _ _ stage done b)
    have given : Stocked ((s.setFault .none).assigned page s.clockHand) := ended.assigned lives rests fresh
    have alive : ((s.setFault .none).assigned page s.clockHand).self.alive = true := (alive_setPage ..).trans lives
    have advanced : Stocked (advance ((s.setFault .none).assigned page s.clockHand)) :=
      given.same (fun _ => alive) rfl (fun _ => .refl _) rfl
    exact advanced.fills alive fills
  | init page frame place stage valid =>
    have filled : Stocked (s.setFrame frame (firstContents s.self.image page)) :=
      stocked.same (fun _ => alive) rfl (fun _ => .refl _) rfl
    exact (filled.stage alive .none s.mode nofun).mapped ((alive_setFault ..).trans alive) page place
  | read page frame block blocks stage more =>
    have copied : Stocked (blockRead s frame block (blocks - 1)) :=
      stocked.same (fun _ => alive) rfl (fun _ => .refl _) rfl
    exact copied.stage alive _ _ nofun
  | last page frame block blocks place stage done valid =>
    have copied : Stocked (blockRead s frame block (blocks - 1)) :=
      stocked.same (fun _ => alive) rfl (fun _ => .refl _) rfl
    exact (copied.stage alive .none s.mode nofun).mapped ((alive_setFault ..).trans alive) page place

/-- The blocks of a process that dies are free again. -/
theorem term (stocked : Stocked s) {p : Slot} (alive : (s.procs p).alive = true) :
    Stocked ((s.dead p).released p (List.finRange VIRT_PAGES)) := by
  let after := (s.dead p).released p (List.finRange VIRT_PAGES)
  refine ⟨dead_running stocked.running, ?_, ?_, ?_⟩
  · intro f a use pi
    have outside : f ∉ (List.finRange VIRT_PAGES).filterMap fun page => (((s.dead p).procs p).pages page).frame? := by
      intro inside
      have info : after.frameInfo f = { s.frameInfo f with status := .free } := if_pos inside
      unfold State.InUse at use
      rw [info] at use
      rcases use with clash | clash <;> cases clash
    have info : after.frameInfo f = s.frameInfo f := if_neg outside
    unfold State.InUse at use
    rw [info] at use pi
    have held := stocked.owner f a use pi
    refine (dead_holds a f).mpr ⟨?_, held⟩
    rintro rfl
    exact outside ((mem_freed alive).mpr ⟨a.page, held⟩)
  · intro q page f block blocks source stage
    change ((s.dead p).procs q).fault = _ at stage
    rw [procs_dead] at stage
    by_cases same : q = p
    · rw [if_pos same] at stage
      cases stage
    · rw [if_neg same] at stage
      change ((s.dead p).procs q).pages page = _
      rw [procs_dead, if_neg same]
      exact stocked.wanted q page f block blocks source stage
  · intro b
    rcases stocked.place b with free | ⟨a, lives, stored⟩
    · exact .inl (List.mem_append_left _ free)
    · by_cases same : a.proc = p
      · refine .inl (List.mem_append_right _ (List.mem_filterMap.mpr ⟨a.page, List.mem_finRange _, ?_⟩))
        rw [PageInfo.block?_eq_some, procs_dead, if_pos rfl]
        exact same ▸ stored
      · refine .inr ⟨a, ?_⟩
        change ((s.dead p).procs a.proc).alive = true ∧ ((s.dead p).procs a.proc).pages a.page = _
        rw [procs_dead, if_neg same]
        exact ⟨lives, stored⟩

private theorem create (stocked : Stocked s) {p : Slot} {user : Bool} {image : PageNo → Option Contents}
    (unused : (s.procs p).alive = false) (created : procCreate p user image s = .done () after) : Stocked after := by
  cases created
  let fresh : Proc := { alive := true, user, pages := fun _ => .uninit, image, fault := .none }
  have procs : ∀ q, (s.setProc p fresh).procs q = if q = p then fresh else s.procs q := fun q =>
    Function.update_apply ..
  have apart : ∀ {a : PagePtr}, (s.procs a.proc).alive = true → a.proc ≠ p := by
    rintro a lives rfl
    cases unused.symm.trans lives
  refine ⟨fun _ => congrArg Proc.alive ((procs p).trans (if_pos rfl)), ?_, ?_, ?_⟩
  · intro f a use pi
    have held := stocked.owner f a use pi
    change ((s.setProc p fresh).procs a.proc).alive = true ∧ ((s.setProc p fresh).procs a.proc).pages a.page = _
    rw [procs, if_neg (apart held.1)]
    exact held
  · intro q page f block blocks source stage
    change ((s.setProc p fresh).procs q).fault = _ at stage
    change ((s.setProc p fresh).procs q).pages page = _
    rw [procs] at stage ⊢
    split at stage
    · cases stage
    · rename_i other
      rw [if_neg other]
      exact stocked.wanted q page f block blocks source stage
  · intro b
    refine (stocked.place b).imp_right ?_
    rintro ⟨a, stored⟩
    refine ⟨a, ?_⟩
    change ((s.setProc p fresh).procs a.proc).alive = true ∧ ((s.setProc p fresh).procs a.proc).pages a.page = _
    rw [procs, if_neg (apart stored.1)]
    exact stored

end Stocked

/-- No page that is on the paging device is given a frame. -/
def NoPageIn (s : State) : Event → Prop
  | .fault page => s.freeframes ≠ [] → ∀ block, s.self.pages page ≠ .onDisk block
  | .resume => ∀ page f block blocks source, s.self.fault = .writing page f block blocks source →
      ¬ blocks < BLOCKS_PER_PAGE →
      ∀ b, s.self.pages page ≠ .onDisk b
  | _ => True

theorem Stocked.step {s after : State} {event : Event} (stocked : Stocked s) (new : NoPageIn s event)
    (step : Step s event after) :
    Stocked after := by
  obtain ⟨enabled, ran⟩ := step
  have stored : ∀ page offset byte, s.mode ≠ .yielding → store page offset byte s = .done () after → Stocked after := by
    intro page offset byte runs ran
    obtain ⟨i, entry, _, _, rfl⟩ := (store_does s page offset byte).done ran
    exact stocked.same (fun _ => stocked.running runs) rfl (fun _ => .refl _) rfl
  cases event with
  | toUser =>
    cases ran
    exact stocked.same (fun _ => stocked.running (by rw [enabled.1]; exact nofun)) rfl (fun _ => .refl _) rfl
  | trap =>
    cases ran
    have alive := stocked.running (by rw [enabled]; exact nofun)
    dsimp only
    rw [tlbSync_rest]
    exact stocked.same (fun _ => alive) rfl (fun _ => .refl _) rfl
  | userStore page offset byte => exact stored page offset byte (by rw [enabled.1]; exact nofun) ran
  | copyStore page offset byte => exact stored page offset byte (by rw [enabled.1]; exact nofun) ran
  | fault page =>
    have alive := stocked.running (by rw [enabled.1]; exact nofun)
    exact stocked.faulted alive enabled.2.2.1 new ((procPagefault_does s page).done ran)
  | resume =>
    have alive := stocked.running (by rw [enabled.1]; exact nofun)
    exact stocked.resumed alive new ((resumeFault_does s enabled.2).done ran)
  | switch proc =>
    cases ran
    dsimp only
    rw [tlbFlush_rest]
    exact stocked.same (fun _ => enabled.2.2) rfl (fun _ => .refl _) rfl
  | term proc =>
    cases (procTerm_does s proc).done ran
    exact stocked.term enabled.2
  | create proc user image => exact stocked.create enabled.2.2 ran

theorem booted_stocked : Stocked booted := by
  have free : booted.freeblocks = List.finRange PG_DEV_SIZE := by simp only [booted]
  refine ⟨fun _ => rfl, ?_, ?_, fun b => .inl (free ▸ List.mem_finRange b)⟩
  · rintro f a (clash | clash) _ <;> cases clash
  · intro p page f block blocks source writing
    cases writing

inductive Place where
  | free
  | page (page : PagePtr)

def State.Placed (s : State) (b : BlockNo) : Place → Prop
  | .free => s.freeblocks.count b = 1 ∧ ∀ a, ¬ s.Stores a b
  | .page page => s.Stores page b ∧ b ∉ s.freeblocks ∧ ∀ a, s.Stores a b → a = page

theorem Stocked.placed {s : State} (stocked : Stocked s) (blocks : Blocks s) (b : BlockNo) :
    ∃! place, s.Placed b place := by
  rcases stocked.place b with free | ⟨a, stored⟩
  · have unstored : ∀ a, ¬ s.Stores a b := fun a stored => blocks.stored a b stored free
    refine ⟨.free, ⟨List.count_eq_one_of_mem blocks.nodup free, unstored⟩, ?_⟩
    intro place placed
    cases place with
    | free => rfl
    | page c => exact absurd placed.1 (unstored c)
  · have used := blocks.stored a b stored
    refine ⟨.page a, ⟨stored, used, fun c other => blocks.alone c a b other stored⟩, ?_⟩
    intro place placed
    cases place with
    | free => exact absurd stored (placed.2 a)
    | page c => exact congrArg Place.page (blocks.alone c a b placed.1 stored)

/-- When no block is free, as many pages are on the paging device as it has room for. -/
theorem Stocked.full {s : State} (stocked : Stocked s) (blocks : Blocks s) (full : s.freeblocks = []) :
    {a | ∃ b, s.Stores a b}.ncard = PG_DEV_SIZE := by
  have holder : ∀ b, ∃ a, s.Stores a b := fun b => (stocked.place b).resolve_left (by rw [full]; exact List.not_mem_nil)
  choose page stores using holder
  have distinct : Function.Injective page := by
    intro b c same
    have first := (stores b).2
    rw [same, (stores c).2] at first
    exact (PageInfo.onDisk.inj first).symm
  have all : {a | ∃ b, s.Stores a b} = Set.range page := by
    refine Set.ext fun a => ⟨?_, ?_⟩
    · rintro ⟨b, stored⟩
      exact ⟨b, blocks.alone _ _ b (stores b) stored⟩
    · rintro ⟨b, rfl⟩
      exact ⟨b, stores b⟩
  rw [all, Set.ncard_range_of_injective distinct, Nat.card_fin]

/-- No block is lost and no block is in two places. -/
theorem blocks_in_place {events : List Event} {s : State} (run : Run (Guarded NoPageIn Step) booted events s) :
    (∀ b, ∃! place, s.Placed b place) ∧ (s.freeblocks = [] → {a | ∃ b, s.Stores a b}.ncard = PG_DEV_SIZE) := by
  have kept : ∀ before event after, Stocked before ∧ Blocks before → Guarded NoPageIn Step before event after →
      Stocked after ∧ Blocks after := by
    rintro before event after ⟨stocked, blocks⟩ ⟨new, step⟩
    exact ⟨stocked.step new step, blocks.step stocked.running
      (fun _ _ _ _ _ stage => stocked.wanted _ _ _ _ _ _ stage) step⟩
  obtain ⟨stocked, blocks⟩ := run.invariant kept ⟨booted_stocked, booted_blocks⟩
  exact ⟨stocked.placed blocks, stocked.full blocks⟩

section PageIn

private def editor : Slot := ⟨1, slot_one⟩
private def idler : Slot := ⟨0, slot_zero⟩

private def onDevice : PageInfo → Bool
  | .onDisk _ => true
  | _ => false

private def nextNew (s : State) (event : Event) : Option State :=
  match event with
  | .resume => none
  | .fault page => if onDevice (s.self.pages page) then none else s.next event
  | _ => s.next event

private theorem step_of_nextNew {s : State} {event : Event} {after : State} (next : nextNew s event = some after) :
    Guarded NoPageIn Step s event after := by
  unfold nextNew at next
  cases event with
  | resume => cases next
  | fault page =>
    dsimp only at next
    split at next
    · cases next
    · rename_i new
      refine ⟨fun _ block stored => new ?_, step_of_next next⟩
      rw [stored]
      rfl
  | _ => exact ⟨trivial, step_of_next next⟩

private def oneEviction : List Event :=
  [.create editor true fun _ => none] ++ ((List.finRange VIRT_PAGES).take 129).map .fault

private theorem oneEviction_runs : (oneEviction.foldlM nextNew booted).any (fun s =>
    decide (s.page ⟨editor, ⟨0, by decide⟩⟩ = .onDisk ⟨0, by decide⟩)) = true := by
  decide +kernel

theorem blocks_in_place_eviction : ∃ s : State, s.page ⟨editor, ⟨0, by decide⟩⟩ = .onDisk ⟨0, by decide⟩ ∧
    ∀ b, ∃! place, s.Placed b place := by
  obtain ⟨s, ran, stored⟩ := (Option.any_eq_true ..).mp oneEviction_runs
  have run : Run (Guarded NoPageIn Step) booted oneEviction s := .of_foldlM step_of_nextNew ran
  exact ⟨s, of_decide_eq_true stored, (blocks_in_place run).1⟩

private def oneReturn : List Event :=
  let again : List Event := [.switch idler, .switch editor, .resume]
  oneEviction ++ (List.replicate 4 again).flatten ++ [.fault ⟨0, page_zero⟩] ++ (List.replicate 4 again).flatten

private def nowhere (s : State) (b : BlockNo) : Bool :=
  decide (s.freeblocks.count b = 0) && (List.finRange Grass.MAX_PROCS).all fun p =>
    !(s.procs p).alive || (List.finRange VIRT_PAGES).all fun page => decide ((s.procs p).pages page ≠ .onDisk b)

private theorem nowhere_unplaced {s : State} {b : BlockNo} (lost : nowhere s b = true) (place : Place) :
    ¬ s.Placed b place := by
  unfold nowhere at lost
  simp only [Bool.and_eq_true, decide_eq_true_eq, List.all_eq_true, Bool.or_eq_true, Bool.not_eq_true'] at lost
  intro placed
  cases place with
  | free => cases lost.1.symm.trans placed.1
  | page a =>
    obtain ⟨alive, stored⟩ := placed.1
    rcases lost.2 a.proc (List.mem_finRange _) with dead | elsewhere
    · cases dead.symm.trans alive
    · exact elsewhere a.page (List.mem_finRange _) stored

private theorem oneReturn_lost :
    (oneReturn.foldlM State.next booted).any (fun s => nowhere s ⟨0, by decide⟩) = true := by
  decide +kernel

theorem block_lost : ¬ ∀ events s, Run Step booted events s → ∀ b, ∃! place, s.Placed b place := by
  intro always
  obtain ⟨s, ran, lost⟩ := (Option.any_eq_true ..).mp oneReturn_lost
  obtain ⟨place, placed, _⟩ := always oneReturn s (.of_foldlM step_of_next ran) _
  exact nowhere_unplaced lost place placed

end PageIn
end Egos.Paging
