import Egos.Grass.Process
import Egos.Library.Transition

/-! Paging in process.c and tlb.c under HW_PAGING. A page fault runs up to the next
call that gives up the CPU; what it does afterwards is kept in `Fault`. The CPU is
given up in every block_write of frame_write, every block_read of frame_read and
in the file_read of frame_init, and the process that gets it flushes the TLB. -/

namespace Egos.Paging
open Library Grass

def VIRT_PAGES : Nat := 256

def PHYS_FRAMES : Nat := 128

def PG_DEV_SIZE : Nat := 1024

def TLB_SIZE : Nat := 16

def PAGESIZE : Nat := 4096

def BLOCK_SIZE : Nat := 1024

def BLOCKS_PER_PAGE : Nat := PAGESIZE / BLOCK_SIZE

/-- A page of the virtual address space, counted from VIRT_BASE. -/
abbrev PageNo := Fin VIRT_PAGES
abbrev FrameNo := Fin PHYS_FRAMES

theorem page_zero : 0 < VIRT_PAGES := by decide

/-- A place for one page on the paging device. -/
abbrev BlockNo := Fin PG_DEV_SIZE
abbrev TlbIndex := Fin TLB_SIZE
abbrev Offset := Fin PAGESIZE
abbrev Contents := Offset → UInt8

def zeros : Contents := fun _ => 0

inductive PageInfo where
  | uninit
  | valid (frame : FrameNo)
  | onDisk (block : BlockNo)
  deriving DecidableEq

inductive FrameStatus where
  | free
  | unref
  | ref
  | pinned
  deriving DecidableEq

/-- `struct page_info *` -/
structure PagePtr where
  proc : Slot
  page : PageNo
  deriving DecidableEq

structure FrameInfo where
  status : FrameStatus
  pi : Option PagePtr
  deriving DecidableEq

/-- A TLB entry in use, with the memory at its virtual address. Every page is
mapped for reading and writing. -/
structure TlbEntry where
  virt : PageNo
  phys : FrameNo
  mem : Contents

/-- Where proc_pagefault has given up the CPU. -/
inductive Fault where
  | none
  /-- In frame_write for `page`, after the given number of calls of block_write. The
  page comes from `source` on the paging device, or is new. -/
  | writing (page : PageNo) (frame : FrameNo) (block : BlockNo) (blocks : Nat) (source : Option BlockNo)
  /-- In the file_read of frame_init. -/
  | init (page : PageNo) (frame : FrameNo)
  /-- In frame_read, after the given number of calls of block_read. -/
  | reading (page : PageNo) (frame : FrameNo) (block : BlockNo) (blocks : Nat)
  deriving DecidableEq

/-- The executable of a user process is kept as the pages it fills; the other
pages start as zeros. -/
structure Proc where
  alive : Bool
  user : Bool
  pages : PageNo → PageInfo
  image : PageNo → Option Contents
  fault : Fault

inductive Mode where
  /-- The current process executes user code. -/
  | user
  | kernel
  /-- The current process has given up the CPU. -/
  | yielding
  deriving DecidableEq

/-- The ghost `written` is what user code and copy_user have last stored in a page. -/
structure State where
  procs : Slot → Proc
  current : Slot
  mode : Mode
  frameInfo : FrameNo → FrameInfo
  freeframes : List FrameNo
  freeblocks : List BlockNo
  clockHand : FrameNo
  frames : FrameNo → Contents
  device : BlockNo → Contents
  tlb : TlbIndex → Option TlbEntry
  tlbIndex : TlbIndex
  written : Slot → PageNo → Contents

inductive Halt where
  | assertion (function condition : String)
  | panic (message : String)
  deriving DecidableEq

abbrev Pager := Prog State Halt

namespace State

def self (s : State) : Proc := s.procs s.current

def page (s : State) (pi : PagePtr) : PageInfo := (s.procs pi.proc).pages pi.page

def setProc (s : State) (p : Slot) (record : Proc) : State :=
  { s with procs := Function.update s.procs p record }

def setPage (s : State) (pi : PagePtr) (info : PageInfo) : State :=
  s.setProc pi.proc { s.procs pi.proc with pages := Function.update (s.procs pi.proc).pages pi.page info }

def setFault (s : State) (fault : Fault) : State :=
  s.setProc s.current { s.self with fault }

def setInfo (s : State) (f : FrameNo) (info : FrameInfo) : State :=
  { s with frameInfo := Function.update s.frameInfo f info }

def setFrame (s : State) (f : FrameNo) (contents : Contents) : State :=
  { s with frames := Function.update s.frames f contents }

/-- Give up the CPU in the middle of a page fault. -/
def block (s : State) (fault : Fault) : State :=
  { s.setFault fault with mode := .yielding }

/-! tlb.c -/

def tlbSyncEntry (s : State) (i : TlbIndex) : State :=
  match s.tlb i with
  | none => s
  | some entry => s.setFrame entry.phys entry.mem

def tlbFlushEntry (s : State) (i : TlbIndex) : State :=
  { s.tlbSyncEntry i with tlb := Function.update s.tlb i none }

def tlbSync (s : State) : State := (List.finRange TLB_SIZE).foldl tlbSyncEntry s

def tlbFlush (s : State) : State := (List.finRange TLB_SIZE).foldl tlbFlushEntry s

def tlbMap (s : State) (i : TlbIndex) (virt : PageNo) (phys : FrameNo) : State :=
  let s := s.tlbFlushEntry i
  { s with tlb := Function.update s.tlb i (some { virt, phys, mem := s.frames phys }) }

def tlbGetEntry (s : State) (virt : PageNo) : Option TlbIndex :=
  (List.finRange TLB_SIZE).find? fun i => (s.tlb i).any fun entry => entry.virt = virt

end State

/-- The block with the given number is taken from the first page. -/
def copyBlock (number : Nat) (src dst : Contents) : Contents :=
  fun i => if i.val / BLOCK_SIZE = number then src i else dst i

def nextFrame (f : FrameNo) : FrameNo := ⟨(f.val + 1) % PHYS_FRAMES, Nat.mod_lt _ (Nat.zero_lt_succ _)⟩

def nextEntry (i : TlbIndex) : TlbIndex := ⟨(i.val + 1) % TLB_SIZE, Nat.mod_lt _ (Nat.zero_lt_succ _)⟩

def ensure (condition : Bool) (function text : String) : Pager Unit :=
  match condition with
  | true => pure ()
  | false => .halt (.assertion function text)

/-- Map the page to the frame. -/
def mapPage (page : PageNo) : Pager Unit := do
  let s ← .get
  match s.self.pages page with
  | .valid frame =>
    .modify fun s => { s.tlbMap s.tlbIndex page frame with tlbIndex := nextEntry s.tlbIndex, mode := .kernel }
  | _ => .halt (.assertion "proc_pagefault" "p->pages[rel_page].status == PI_VALID")

def frameInit (page : PageNo) (frame : FrameNo) : Pager Unit := do
  let s ← .get
  match s.self.image page with
  | none =>
    .modify (·.setFrame frame zeros)
    mapPage page
  | some _ => .modify (·.block (.init page frame))

def frameRead (page : PageNo) (frame : FrameNo) (block : BlockNo) : Pager Unit :=
  .modify (·.block (.reading page frame block 1))

/-- The part of proc_pagefault after proc_frame_alloc. -/
def fillFrame (page : PageNo) (source : Option BlockNo) : Pager Unit := do
  let s ← .get
  match s.self.pages page, source with
  | .valid frame, none => frameInit page frame
  | .valid frame, some block => frameRead page frame block
  | _, _ => .halt (.assertion "proc_pagefault" "p->pages[rel_page].status == PI_VALID")

def advance (s : State) : State := { s with clockHand := nextFrame s.clockHand }

/-- Run the clock algorithm up to a frame that can be released. -/
def runClock : Nat → Pager Unit
  | 0 => .halt (.panic "proc_frame_alloc: out of frames")
  | rounds + 1 => do
    let s ← .get
    match (s.frameInfo s.clockHand).status with
    | .pinned =>
      .modify advance
      runClock rounds
    | .ref =>
      ensure (s.frameInfo s.clockHand).pi.isSome "proc_frame_alloc" "proc_frame_info[clock_hand].pi != 0"
      .modify fun s => advance (s.setInfo s.clockHand { s.frameInfo s.clockHand with status := .unref })
      runClock rounds
    | .unref => pure ()
    | .free => .halt (.assertion "proc_frame_alloc" "0")

/-- The block with the given number goes from the frame to the paging device. -/
def blockWrite (s : State) (frame : FrameNo) (block : BlockNo) (number : Nat) : State :=
  { s with device := Function.update s.device block (copyBlock number (s.frames frame) (s.device block)) }

def blockRead (s : State) (frame : FrameNo) (block : BlockNo) (number : Nat) : State :=
  s.setFrame frame (copyBlock number (s.device block) (s.frames frame))

/-- Save the frame under the clock hand, up to the first block_write. -/
def startEviction (page : PageNo) (source : Option BlockNo) (block : BlockNo) (rest : List BlockNo) : Pager Unit := do
  .modify fun s => { s with freeblocks := rest }
  let s ← .get
  match (s.frameInfo s.clockHand).pi with
  | none => .halt (.assertion "proc_frame_alloc" "proc_frame_info[clock_hand].pi")
  | some victim =>
    .modify (·.setPage victim (.onDisk block))
    .modify fun s => s.setInfo s.clockHand { s.frameInfo s.clockHand with status := .pinned }
    .modify fun s => (blockWrite s s.clockHand block 0).block (.writing page s.clockHand block 1 source)

/-- Assign a frame to a page of the current process. -/
def assignFrame (page : PageNo) (frame : FrameNo) : Pager Unit :=
  .modify fun s => (s.setInfo frame { status := .ref, pi := some ⟨s.current, page⟩ }).setPage ⟨s.current,
    page⟩ (.valid frame)

/-- What proc_frame_alloc does after frame_write. -/
def endEviction (page : PageNo) : Pager Unit := do
  let s ← .get
  assignFrame page s.clockHand
  .modify advance

/-- proc_frame_alloc and, if it need not write a frame first, the rest of proc_pagefault. -/
def allocAndFill (page : PageNo) (source : Option BlockNo) : Pager Unit := do
  let s ← .get
  match s.freeframes with
  | frame :: rest =>
    ensure ((s.frameInfo frame).status = .free) "proc_frame_alloc" "proc_frame_info[frame_no].status == FI_FREE"
    .modify fun s => { s with freeframes := rest }
    assignFrame page frame
    fillFrame page source
  | [] =>
    runClock (2 * PHYS_FRAMES)
    match s.freeblocks with
    | [] => .halt (.assertion "proc_frame_alloc" "0")
    | block :: rest => startEviction page source block rest

/-- A fault at a legal address. -/
def procPagefault (page : PageNo) : Pager Unit := do
  let s ← .get
  ensure (s.tlbGetEntry page).isNone "proc_pagefault" "0"
  match s.self.pages page with
  | .uninit => allocAndFill page none
  | .valid frame =>
    ensure ((s.frameInfo frame).status ≠ .free) "proc_pagefault" "proc_frame_info[frame].status != FI_FREE"
    ensure ((s.frameInfo frame).pi = some ⟨s.current, page⟩) "proc_pagefault"
      "proc_frame_info[frame].pi == &p->pages[rel_page]"
    .modify fun s => s.setInfo frame { s.frameInfo frame with status := .ref }
    mapPage page
  | .onDisk block => allocAndFill page (some block)

/-- A process gets the CPU back in the middle of a page fault. -/
def resumeFault : Pager Unit := do
  let s ← .get
  match s.self.fault with
  | .none => pure ()
  | .writing page frame block blocks source =>
    match decide (blocks < BLOCKS_PER_PAGE) with
    | true =>
      .modify fun s => (blockWrite s frame block blocks).block (.writing page frame block (blocks + 1) source)
    | false =>
      .modify (·.setFault .none)
      endEviction page
      fillFrame page source
  | .init page frame =>
    .modify fun s => (s.setFrame frame ((s.self.image page).getD zeros)).setFault .none
    mapPage page
  | .reading page frame block blocks =>
    .modify fun s => blockRead s frame block (blocks - 1)
    match decide (blocks < BLOCKS_PER_PAGE) with
    | true => .modify (·.block (.reading page frame block (blocks + 1)))
    | false =>
      .modify (·.setFault .none)
      mapPage page

/-- The release of one page in proc_term. -/
def releasePage (proc : Slot) (page : PageNo) : Pager Unit := do
  let s ← .get
  match s.page ⟨proc, page⟩ with
  | .uninit => pure ()
  | .valid frame =>
    ensure ((s.frameInfo frame).status ≠ .free) "proc_term" "proc_frame_info[frame].status != FI_FREE"
    .modify fun s => s.setInfo frame { s.frameInfo frame with status := .free }
    .modify fun s => { s with freeframes := s.freeframes ++ [frame] }
  | .onDisk block => .modify fun s => { s with freeblocks := s.freeblocks ++ [block] }

def releasePages (proc : Slot) : List PageNo → Pager Unit
  | [] => pure ()
  | page :: rest => do
    releasePage proc page
    releasePages proc rest

/-- proc_term, as far as paging is concerned. The current process gives up the CPU
when it has died. -/
def procTerm (proc : Slot) : Pager Unit := do
  .modify fun s => { s.setProc proc { s.procs proc with alive := false, fault := .none } with
    mode := if s.current = proc then .yielding else s.mode }
  releasePages proc (List.finRange VIRT_PAGES)

/-- The first contents of a page. -/
def firstContents (image : PageNo → Option Contents) (page : PageNo) : Contents := (image page).getD zeros

/-- A slot is cleared for a new process, which starts in ctx_entry. -/
def procCreate (proc : Slot) (user : Bool) (image : PageNo → Option Contents) : Pager Unit :=
  .modify fun s => { s.setProc proc { alive := true, user, pages := fun _ => .uninit, image, fault := .none } with
    written := Function.update s.written proc (firstContents image)
    current := proc }

/-- proc_after_switch -/
def switchTo (proc : Slot) : Pager Unit :=
  .modify fun s => { s.tlbFlush with current := proc, mode := .kernel }

/-- A store at a mapped address goes to the memory behind the TLB entry. -/
def store (page : PageNo) (offset : Offset) (byte : UInt8) : Pager Unit := do
  let s ← .get
  match s.tlbGetEntry page with
  | none => .halt (.panic "not mapped")
  | some i =>
    .modify fun s => { s with
      tlb := Function.update s.tlb i ((s.tlb i).map
        fun entry => { entry with mem := Function.update entry.mem offset byte })
      written := Function.update s.written s.current
        (Function.update (s.written s.current) page (Function.update (s.written s.current page) offset byte)) }

/-- What a load reads at a mapped address. -/
def State.load (s : State) (page : PageNo) (offset : Offset) : Option UInt8 :=
  (s.tlbGetEntry page).bind fun i => (s.tlb i).map fun entry => entry.mem offset

inductive Event where
  /-- The interrupt handler of the process returns to user code. -/
  | toUser
  /-- An interrupt or a trap saves the TLB and enters the kernel. -/
  | trap
  /-- A store by user code. -/
  | userStore (page : PageNo) (offset : Offset) (byte : UInt8)
  /-- A store by copy_user. -/
  | copyStore (page : PageNo) (offset : Offset) (byte : UInt8)
  /-- proc_pagefault, for user code or copy_user. -/
  | fault (page : PageNo)
  | resume
  | switch (proc : Slot)
  | term (proc : Slot)
  | create (proc : Slot) (user : Bool) (image : PageNo → Option Contents)

def Event.perform : Event → Pager Unit
  | toUser => .modify fun s => { s with mode := .user }
  | trap => .modify fun s => { s.tlbSync with mode := .kernel }
  | userStore page offset byte => store page offset byte
  | copyStore page offset byte => store page offset byte
  | fault page => procPagefault page
  | resume => resumeFault
  | switch proc => switchTo proc
  | term proc => procTerm proc
  | create proc user image => procCreate proc user image

/-- When an event can happen. Only user processes have pages; processes are created
by the main process and the spawn server, which are not user processes. -/
def Enabled (s : State) : Event → Prop
  | .toUser => s.mode = .kernel ∧ s.self.user = true ∧ s.self.fault = .none
  | .trap => s.mode = .user
  | .userStore page _ _ => s.mode = .user ∧ (s.tlbGetEntry page).isSome
  | .copyStore page _ _ => s.mode = .kernel ∧ s.self.fault = .none ∧ (s.tlbGetEntry page).isSome
  | .fault page => s.mode = .kernel ∧ s.self.user = true ∧ s.self.fault = .none ∧ s.tlbGetEntry page = none
  | .resume => s.mode = .kernel ∧ s.self.fault ≠ .none
  | .switch proc => (s.mode = .yielding ∨ s.mode = .kernel ∧ s.self.fault = .none) ∧ proc ≠ s.current ∧
      (s.procs proc).alive = true
  | .term proc => (s.mode = .kernel ∧ s.self.fault = .none ∨ s.mode = .yielding) ∧ (s.procs proc).alive = true
  | .create proc _ _ => s.mode = .kernel ∧ s.self.user = false ∧ (s.procs proc).alive = false

instance (s : State) : (event : Event) → Decidable (Enabled s event)
  | .toUser => inferInstanceAs (Decidable (_ ∧ _ ∧ _))
  | .trap => inferInstanceAs (Decidable (_ = _))
  | .userStore .. => inferInstanceAs (Decidable (_ ∧ _))
  | .copyStore .. => inferInstanceAs (Decidable (_ ∧ _ ∧ _))
  | .fault _ => inferInstanceAs (Decidable (_ ∧ _ ∧ _ ∧ _))
  | .resume => inferInstanceAs (Decidable (_ ∧ _))
  | .switch _ => inferInstanceAs (Decidable ((_ ∨ _ ∧ _) ∧ _ ∧ _))
  | .term _ => inferInstanceAs (Decidable ((_ ∧ _ ∨ _) ∧ _))
  | .create .. => inferInstanceAs (Decidable (_ ∧ _ ∧ _))

def Step (before : State) (event : Event) (after : State) : Prop :=
  Enabled before event ∧ event.perform before = .done () after

def State.next (s : State) (event : Event) : Option State :=
  if Enabled s event then
    match event.perform s with
    | .done _ after => some after
    | .halted .. => none
  else none

theorem step_of_next {s : State} {event : Event} {after : State} (next : s.next event = some after) :
    Step s event after := by
  unfold State.next at next
  split at next
  · rename_i enabled
    split at next
    · rename_i ran
      cases next
      exact ⟨enabled, ran⟩
    · cases next
  · cases next

/-- After proc_initialize: the main process runs, and all frames and blocks are free. -/
def booted : State :=
  { procs := fun p => { alive := p.val = 0, user := false, pages := fun _ => .uninit, image := fun _ => none, fault := .none }
    current := ⟨0, slot_zero⟩
    mode := .kernel
    frameInfo := fun _ => { status := .free, pi := none }
    freeframes := List.finRange PHYS_FRAMES
    freeblocks := List.finRange PG_DEV_SIZE
    clockHand := ⟨0, Nat.zero_lt_succ _⟩
    frames := fun _ => zeros
    device := fun _ => zeros
    tlb := fun _ => none
    tlbIndex := ⟨0, Nat.zero_lt_succ _⟩
    written := fun _ _ => zeros }

end Egos.Paging
