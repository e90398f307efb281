import Egos.Proofs.PagingClock

/-! The steps of the paging code as changes of the state: what a page fault does
before it gives up the CPU, what it does when it gets the CPU back, and what the
death of a process releases. -/

namespace Egos.Paging
open Library Library.Prog Grass

namespace State

def mapped (s : State) (page : PageNo) (frame : FrameNo) : State :=
  { s.tlbMap s.tlbIndex page frame with tlbIndex := nextEntry s.tlbIndex, mode := .kernel }

def assigned (s : State) (page : PageNo) (frame : FrameNo) : State :=
  (s.setInfo frame { status := .ref, pi := some ⟨s.current, page⟩ }).setPage ⟨s.current, page⟩ (.valid frame)

/-- The frame under the clock hand is pinned and its page is on the paging device. -/
def pinned (s : State) (victim : PagePtr) (block : BlockNo) (rest : List BlockNo) : State :=
  ({ s with freeblocks := rest }.setPage victim (.onDisk block)).setInfo s.clockHand
    { s.frameInfo s.clockHand with status := .pinned }

def evicting (s : State) (page : PageNo) (source : Option BlockNo) (block : BlockNo) : State :=
  (blockWrite s s.clockHand block 0).block (.writing page s.clockHand block 1 source)

@[simp] theorem self_setFault (s : State) (fault : Fault) : (s.setFault fault).self = { s.self with fault } :=
  Function.update_self ..

@[simp] theorem self_block (s : State) (fault : Fault) : (s.block fault).self = { s.self with fault } :=
  Function.update_self ..

end State

/-- A page that is brought in is new, or on the paging device. -/
def PageInfo.ofSource : Option BlockNo → PageInfo
  | none => uninit
  | some block => onDisk block

def Wanted (s : State) (page : PageNo) (source : Option BlockNo) : Prop := s.self.pages page = .ofSource source

inductive Fills (s : State) (page : PageNo) : Option BlockNo → State → Prop where
  | zero (frame) : s.self.pages page = .valid frame → s.self.image page = none →
      Fills s page none ((s.setFrame frame zeros).mapped page frame)
  | init (frame contents) : s.self.pages page = .valid frame → s.self.image page = some contents →
      Fills s page none (s.block (.init page frame))
  | read (frame block) : s.self.pages page = .valid frame →
      Fills s page (some block) (s.block (.reading page frame block 1))

inductive Faulted (s : State) (page : PageNo) : State → Prop where
  | remap (frame) : s.self.pages page = .valid frame → (s.frameInfo frame).status ≠ .free →
      (s.frameInfo frame).pi = some ⟨s.current, page⟩ →
      Faulted s page ((s.setInfo frame { s.frameInfo frame with status := .ref }).mapped page frame)
  | take (frame rest source after) : Wanted s page source → s.freeframes = frame :: rest →
      (s.frameInfo frame).status = .free →
      Fills ({ s with freeframes := rest }.assigned page frame) page source after → Faulted s page after
  | evict (source block rest swept victim) : Wanted s page source → s.freeframes = [] → s.freeblocks = block :: rest →
      Swept s swept → (swept.frameInfo swept.clockHand).pi = some victim →
      Faulted s page ((swept.pinned victim block rest).evicting page source block)

inductive Resumed (s : State) : State → Prop where
  | write (page frame block blocks source) : s.self.fault = .writing page frame block blocks source →
      blocks < BLOCKS_PER_PAGE →
      Resumed s ((blockWrite s frame block blocks).block (.writing page frame block (blocks + 1) source))
  | finish (page frame block blocks source after) : s.self.fault = .writing page frame block blocks source →
      ¬ blocks < BLOCKS_PER_PAGE → Fills (advance ((s.setFault .none).assigned page s.clockHand)) page source after →
        Resumed s after
  | init (page frame place) : s.self.fault = .init page frame → s.self.pages page = .valid place →
      Resumed s (((s.setFrame frame (firstContents s.self.image page)).setFault .none).mapped page place)
  | read (page frame block blocks) : s.self.fault = .reading page frame block blocks → blocks < BLOCKS_PER_PAGE →
      Resumed s ((blockRead s frame block (blocks - 1)).block (.reading page frame block (blocks + 1)))
  | last (page frame block blocks place) : s.self.fault = .reading page frame block blocks →
      ¬ blocks < BLOCKS_PER_PAGE →
      s.self.pages page = .valid place → Resumed s
        (((blockRead s frame block (blocks - 1)).setFault .none).mapped page place)

namespace PageInfo

def frame? : PageInfo → Option FrameNo
  | valid frame => some frame
  | _ => none

def block? : PageInfo → Option BlockNo
  | onDisk block => some block
  | _ => none

theorem frame?_eq_some {info : PageInfo} {frame : FrameNo} : info.frame? = some frame ↔ info = .valid frame := by
  cases info <;> simp [frame?]

theorem block?_eq_some {info : PageInfo} {block : BlockNo} : info.block? = some block ↔ info = .onDisk block := by
  cases info <;> simp [block?]

end PageInfo

def State.released (s : State) (proc : Slot) (pages : List PageNo) : State :=
  { s with
    frameInfo := fun f => if f ∈ pages.filterMap fun page => ((s.procs proc).pages page).frame?
      then { s.frameInfo f with status := .free } else s.frameInfo f
    freeframes := s.freeframes ++ pages.filterMap fun page => ((s.procs proc).pages page).frame?
    freeblocks := s.freeblocks ++ pages.filterMap fun page => ((s.procs proc).pages page).block? }

def State.dead (s : State) (proc : Slot) : State :=
  { s.setProc proc { s.procs proc with alive := false, fault := .none } with
    mode := if s.current = proc then .yielding else s.mode }

abbrev Does {α : Type} (program : Pager α) (s : State) (does : State → Prop) : Prop :=
  Ensures (fun _ => True) program s fun _ => does

private theorem ensure_does {α : Type} {condition : Bool} {function text : String} {next : Unit → Pager α} {s : State}
    {does : State → Prop} (rest : condition = true → Does (next ()) s does) :
    Does (ensure condition function text >>= next) s does := by
  cases condition with
  | false => trivial
  | true => exact rest rfl

private theorem mapPage_does {s : State} {page : PageNo} {does : State → Prop}
    (next : ∀ frame, s.self.pages page = .valid frame → does (s.mapped page frame)) : Does (mapPage page) s does := by
  apply Ensures.get
  cases info : s.self.pages page with
  | uninit => trivial
  | onDisk block => trivial
  | valid frame => exact next frame info

private theorem fillFrame_fills (s : State) (page : PageNo) (source : Option BlockNo) :
    Does (fillFrame page source) s (Fills s page source) := by
  apply Ensures.get
  cases info : s.self.pages page with
  | uninit => trivial
  | onDisk block => trivial
  | valid frame =>
    cases source with
    | some block => exact .read frame block info
    | none =>
      apply Ensures.get
      cases image : s.self.image page with
      | some contents => exact .init frame contents info image
      | none =>
        apply Ensures.modify
        apply mapPage_does
        intro place valid
        cases info.symm.trans valid
        exact .zero frame info image

private theorem startEviction_does {s swept : State} {page : PageNo} {source : Option BlockNo} {block : BlockNo}
    {rest : List BlockNo} (wanted : Wanted s page source) (full : s.freeframes = [])
    (blocks : s.freeblocks = block :: rest)
    (clock : Swept s swept) : Does (startEviction page source block rest) swept (Faulted s page) := by
  apply Ensures.modify
  apply Ensures.get
  cases owner : (swept.frameInfo swept.clockHand).pi with
  | none => trivial
  | some victim => exact .evict source block rest swept victim wanted full blocks clock owner

private theorem allocAndFill_does {s : State} {page : PageNo} {source : Option BlockNo}
    (wanted : Wanted s page source) :
    Does (allocAndFill page source) s (Faulted s page) := by
  apply Ensures.get
  cases free : s.freeframes with
  | cons frame rest =>
    apply ensure_does
    intro status
    apply Ensures.modify
    apply Ensures.modify
    exact (fillFrame_fills _ page source).weaken fun _ after fills =>
      .take frame rest source after wanted free (of_decide_eq_true status) fills
  | nil =>
    apply Ensures.bind (runClock_swept s)
    intro _ swept clock
    cases blocks : s.freeblocks with
    | nil => trivial
    | cons block rest => exact startEviction_does wanted free blocks clock

theorem procPagefault_does (s : State) (page : PageNo) : Does (procPagefault page) s (Faulted s page) := by
  apply Ensures.get
  apply ensure_does
  intro _
  cases info : s.self.pages page with
  | uninit => exact allocAndFill_does info
  | onDisk block => exact allocAndFill_does info
  | valid frame =>
    apply ensure_does
    intro status
    apply ensure_does
    intro owner
    apply Ensures.modify
    apply mapPage_does
    intro place valid
    cases info.symm.trans valid
    exact .remap frame info (of_decide_eq_true status) (of_decide_eq_true owner)

theorem resumeFault_does (s : State) (blocked : s.self.fault ≠ .none) : Does resumeFault s (Resumed s) := by
  apply Ensures.get
  cases stage : s.self.fault with
  | none => exact absurd stage blocked
  | writing page frame block blocks source =>
    dsimp only
    cases more : decide (blocks < BLOCKS_PER_PAGE) with
    | true => exact .write page frame block blocks source stage (of_decide_eq_true more)
    | false =>
      apply Ensures.modify
      have ended : endEviction page (s.setFault .none) =
        .done () (advance ((s.setFault .none).assigned page s.clockHand)) := rfl
      apply Ensures.bind_returns ended
      exact (fillFrame_fills _ page source).weaken fun _ after fills =>
        .finish page frame block blocks source after stage (of_decide_eq_false more) fills
  | init page frame =>
    apply Ensures.modify
    apply mapPage_does
    intro place valid
    rw [State.self_setFault] at valid
    exact .init page frame place stage valid
  | reading page frame block blocks =>
    dsimp only
    apply Ensures.modify
    cases more : decide (blocks < BLOCKS_PER_PAGE) with
    | true => exact .read page frame block blocks stage (of_decide_eq_true more)
    | false =>
      apply Ensures.modify
      apply mapPage_does
      intro place valid
      rw [State.self_setFault] at valid
      exact .last page frame block blocks place stage (of_decide_eq_false more) valid

private theorem releasePage_does (s : State) (proc : Slot) (page : PageNo) :
    Does (releasePage proc page) s fun after => after = s.released proc [page] := by
  apply Ensures.get
  have here : s.page ⟨proc, page⟩ = (s.procs proc).pages page := rfl
  cases info : s.page ⟨proc, page⟩ with
  | uninit => simp [State.released, ← here, info, PageInfo.frame?, PageInfo.block?, Ensures]
  | onDisk block => simp [State.released, ← here, info, PageInfo.frame?, PageInfo.block?, Ensures]
  | valid frame =>
    apply ensure_does
    intro _
    apply Ensures.modify
    have marks : Function.update s.frameInfo frame { s.frameInfo frame with status := .free } =
        (s.released proc [page]).frameInfo := by
      funext f
      by_cases same : f = frame
      · subst same
        simp [State.released, ← here, info, PageInfo.frame?]
      · simp [State.released, ← here, info, PageInfo.frame?, same]
    simp [State.released, ← here, info, PageInfo.frame?, PageInfo.block?, Ensures, State.setInfo, marks]

private theorem released_released (s : State) (proc : Slot) (first second : List PageNo) :
    (s.released proc first).released proc second = s.released proc (first ++ second) := by
  have marks : ((s.released proc first).released proc second).frameInfo =
      (s.released proc (first ++ second)).frameInfo := by
    funext f
    unfold State.released
    simp only [List.filterMap_append, List.mem_append]
    by_cases early : f ∈ first.filterMap fun page => ((s.procs proc).pages page).frame?
    · simp only [early, if_true, true_or, ite_self]
    · simp only [early, if_false, false_or]
  unfold State.released at marks ⊢
  simp only [List.filterMap_append, List.append_assoc, State.mk.injEq, true_and, and_true] at marks ⊢
  exact marks

private theorem releasePages_does (proc : Slot) (pages : List PageNo) (s : State) :
    Does (releasePages proc pages) s fun after => after = s.released proc pages := by
  induction pages generalizing s with
  | nil => simp [releasePages, State.released, Ensures]
  | cons page rest ih =>
    apply Ensures.bind (releasePage_does s proc page)
    rintro _ _ rfl
    apply (ih _).weaken
    rintro _ _ rfl
    exact released_released s proc [page] rest

theorem procTerm_does (s : State) (proc : Slot) :
    Does (procTerm proc) s fun after => after = (s.dead proc).released proc (List.finRange VIRT_PAGES) := by
  apply Ensures.modify
  exact releasePages_does proc _ _

end Egos.Paging
