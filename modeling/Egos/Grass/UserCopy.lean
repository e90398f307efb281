import Egos.Grass.Paging

/-! copy_user in procsys.c, byte by byte. A user process copies between its own memory and
the kernel; in a page fault it may give up the CPU, and then anything of Paging happens. -/

namespace Egos.UserCopy
open Library Grass Paging

/-- `address_t` on x86_64. -/
abbrev Address := UInt64

def VIRT_BASE : Address := 0x1000000000

def VIRT_TOP : Address := VIRT_BASE + 256 * 4096

/-- The type `page_no` of earth.h has 32 bits: what is passed for it is cut. -/
def pageNo (virt : Address) : UInt32 := (virt / 4096).toUInt32

def InRange (virt : Address) : Prop := VIRT_BASE ≤ virt ∧ virt < VIRT_TOP

instance (virt : Address) : Decidable (InRange virt) := inferInstanceAs (Decidable (_ ∧ _))

/-- `rel_page` in proc_pagefault. -/
def relPage (virt : Address) : PageNo :=
  ⟨((virt - VIRT_BASE) / 4096).toNat % VIRT_PAGES, Nat.mod_lt _ (Nat.zero_lt_succ _)⟩

def pageOffset (virt : Address) : Offset := ⟨(virt % 4096).toNat % PAGESIZE, Nat.mod_lt _ (Nat.zero_lt_succ _)⟩

/-- `abs_page` of a page of the user's address space, as the TLB stores it. -/
def absPage (page : PageNo) : UInt32 := pageNo VIRT_BASE + UInt32.ofNat page.val

/-- tlb_get_entry on absolute page numbers. -/
def tlbGetEntry (s : Paging.State) (virt : UInt32) : Option TlbIndex :=
  (List.finRange TLB_SIZE).find? fun i => (s.tlb i).any fun entry => absPage entry.virt = virt

inductive CuDir where
  | fromUser
  | toUser
  deriving DecidableEq

inductive Phase where
  /-- At the head of the loop. -/
  | loop
  /-- In proc_pagefault. -/
  | faulting
  /-- The process was terminated. -/
  | gone
  deriving DecidableEq

/-- The system, and the local variables of one call of copy_user by the process `proc`.
`virt` is the pointer into user memory. -/
structure State where
  pager : Paging.State
  proc : Slot
  dir : CuDir
  virt : Address
  size : UInt32
  i : UInt32
  phase : Phase

abbrev Copier := Prog State Paging.Halt

/-- What copy_user does with an address. -/
inductive Action where
  | copied (virt : Address)
  | faulted (virt : Address)
  | killed (virt : Address)
  deriving DecidableEq

def pager (program : Pager Unit) : Copier Unit := fun s =>
  match program s.pager with
  | .done _ after => .done () { s with pager := after }
  | .halted reason after => .halted reason { s with pager := after }

/-- `*dst++ = *src++`. What lies outside of the user's address space is not modelled. -/
def copyByte (byte : UInt8) : Copier Action := do
  let s ← .get
  match s.dir, decide (InRange s.virt) with
  | .toUser, true => pager (Paging.store (relPage s.virt) (pageOffset s.virt) byte)
  | _, _ => pure ()
  .modify fun s => { s with virt := s.virt + 1, i := s.i + 1, phase := .loop }
  pure (.copied s.virt)

/-- The call of proc_pagefault. A terminated process never gets the CPU back. -/
def pagefault : Copier Action := do
  let s ← .get
  match decide (InRange s.virt) with
  | true =>
    pager (procPagefault (relPage s.virt))
    .modify ({ · with phase := .faulting })
    pure (.faulted s.virt)
  | false =>
    pager (procTerm s.proc)
    .modify ({ · with phase := .gone })
    pure (.killed s.virt)

/-- One turn of the loop, up to the page fault or after it. -/
def copyUser (byte : UInt8) : Copier Action := do
  let s ← .get
  match s.phase with
  | .loop =>
    match tlbGetEntry s.pager (pageNo s.virt) with
    | some _ => copyByte byte
    | none => pagefault
  | _ => copyByte byte

/-- The process is executing copy_user. -/
def State.Copying (s : State) : Prop :=
  s.pager.current = s.proc ∧ s.pager.mode = .kernel ∧ s.pager.self.fault = .none ∧
    match s.phase with
    | .loop => s.i < s.size
    | .faulting => True
    | .gone => False

inductive Label where
  | copy (action : Action)
  | other (event : Paging.Event)

/-- The process may be killed while it waits in a page fault. -/
def State.phaseAfter (s : State) : Paging.Event → Phase
  | .term proc => if proc = s.proc then .gone else s.phase
  | _ => s.phase

inductive Step : State → Label → State → Prop where
  | copy {s action after} (byte : UInt8) : s.Copying → copyUser byte s = .done action after →
      Step s (.copy action) after
  | other {s event after} : ¬ s.Copying → Paging.Step s.pager event after →
      Step s (.other event) { s with pager := after, phase := s.phaseAfter event }

/-- The current process calls copy_user. -/
def call (s : Paging.State) (dir : CuDir) (virt : Address) (size : UInt32) : State where
  pager := s
  proc := s.current
  dir
  virt
  size
  i := 0
  phase := .loop

/-- In every run, copy_user copies only inside the user's address space, and where it is
about to leave it, it terminates the process instead. -/
def Confined (start : State) : Prop :=
  ∀ labels s, Run Step start labels s → (∀ virt, .copy (.copied virt) ∈ labels → InRange virt) ∧
    (¬ InRange s.virt → ∀ action after, Step s (.copy action) after →
      action = .killed s.virt ∧ after.phase = .gone ∧ (after.pager.procs after.proc).alive = false)

end Egos.UserCopy
