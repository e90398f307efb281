import Egos.Grass.UserCopy
import Egos.Proofs.PagingTlb
import Mathlib.Algebra.Group.Nat.Defs

/-! Which pointers make copy_user leave the user's address space. The lookup sees 32 bits
of the page number only, and the check of proc_pagefault comes after it. -/

namespace Egos.UserCopy
open Library Library.Prog Grass Paging

variable {α : Type}

private theorem base_toNat : VIRT_BASE.toNat = 2 ^ 36 := rfl

private theorem top_toNat : VIRT_TOP.toNat = 2 ^ 36 + 2 ^ 20 := rfl

private theorem absPage_toNat (page : PageNo) : (absPage page).toNat = 2 ^ 24 + page.val := by
  have small : page.val < 256 := page.isLt
  unfold absPage
  have base : (pageNo VIRT_BASE).toNat = 2 ^ 24 := rfl
  rw [UInt32.toNat_add, UInt32.toNat_ofNat', base]
  omega

private theorem tlbGetEntry_some {s : Paging.State} {virt : UInt32} {i : TlbIndex}
    (found : tlbGetEntry s virt = some i) :
    ∃ entry, s.tlb i = some entry ∧ absPage entry.virt = virt := by
  have hit := List.find?_some found
  obtain ⟨entry, there, same⟩ := (Option.any_eq_true ..).mp hit
  exact ⟨entry, there, of_decide_eq_true same⟩

/-- The first page behind the user's address space is never found in the TLB. -/
private theorem top_unmapped (s : Paging.State) : tlbGetEntry s (pageNo VIRT_TOP) = none := by
  cases found : tlbGetEntry s (pageNo VIRT_TOP) with
  | none => rfl
  | some i =>
    obtain ⟨entry, _, same⟩ := tlbGetEntry_some found
    have numbers := congrArg UInt32.toNat same
    have top : (pageNo VIRT_TOP).toNat = 2 ^ 24 + 256 := rfl
    have small : entry.virt.val < 256 := entry.virt.isLt
    rw [absPage_toNat, top] at numbers
    omega

/-- The only way out of the address space is across its end. -/
private theorem succ_inRange {virt : Address} (inside : InRange virt) : InRange (virt + 1) ∨ virt + 1 = VIRT_TOP := by
  obtain ⟨low, high⟩ := inside
  rw [UInt64.le_iff_toNat_le, base_toNat] at low
  rw [UInt64.lt_iff_toNat_lt, top_toNat] at high
  have next : (virt + 1).toNat = virt.toNat + 1 := by
    rw [UInt64.toNat_add, UInt64.toNat_one]
    omega
  by_cases last : virt.toNat + 1 = 2 ^ 36 + 2 ^ 20
  · exact .inr (UInt64.toNat_inj.mp (next.trans last))
  · refine .inl ⟨?_, ?_⟩
    · rw [UInt64.le_iff_toNat_le, base_toNat, next]
      omega
    · rw [UInt64.lt_iff_toNat_lt, top_toNat, next]
      omega

abbrev Performs (program : Copier α) (s : State) (post : α → State → Prop) : Prop :=
  Ensures (fun _ => True) program s post

/-- What a part of the page fault does to the rest of the state. -/
private theorem pager_performs {program : Pager Unit} {s : State} {does : Paging.State → Prop}
    (known : Does program s.pager does) :
    Performs (pager program) s fun _ after => after = { s with pager := after.pager } ∧ does after.pager := by
  unfold Performs Ensures pager
  unfold Does Ensures at known
  cases ran : program s.pager with
  | done value after =>
    rw [ran] at known
    exact ⟨rfl, known⟩
  | halted reason after => trivial

private theorem copyByte_performs (byte : UInt8) (s : State) :
    Performs (copyByte byte) s fun action after =>
      action = .copied s.virt ∧ after.virt = s.virt + 1 ∧ after.phase = .loop := by
  apply Ensures.get
  cases dir : s.dir with
  | fromUser => exact ⟨rfl, rfl, rfl⟩
  | toUser =>
    cases inside : decide (InRange s.virt) with
    | false => exact ⟨rfl, rfl, rfl⟩
    | true =>
      have stored : Does (Paging.store (relPage s.virt) (pageOffset s.virt) byte) s.pager fun _ => True :=
        (store_does ..).weaken fun _ _ _ => trivial
      apply Ensures.bind (pager_performs stored)
      rintro _ after ⟨same, _⟩
      rw [same]
      exact ⟨rfl, rfl, rfl⟩

private theorem pagefault_performs (s : State) :
    Performs pagefault s fun action after =>
      (action = .faulted s.virt ∧ after.virt = s.virt ∧ after.phase = .faulting ∧ InRange s.virt) ∨
      (action = .killed s.virt ∧ after.phase = .gone ∧ (after.pager.procs after.proc).alive = false ∧
          ¬ InRange s.virt) := by
  apply Ensures.get
  cases inside : decide (InRange s.virt) with
  | true =>
    apply Ensures.bind (pager_performs (procPagefault_does s.pager (relPage s.virt)))
    rintro _ after ⟨same, _⟩
    rw [same]
    exact .inl ⟨rfl, rfl, rfl, of_decide_eq_true inside⟩
  | false =>
    apply Ensures.bind (pager_performs (procTerm_does s.pager s.proc))
    rintro _ after ⟨same, dead⟩
    rw [same, dead]
    refine .inr ⟨rfl, rfl, ?_, of_decide_eq_false inside⟩
    simp [Paging.State.released, Paging.State.dead, Paging.State.setProc]

/-- What one turn of the loop can do. -/
private theorem copyUser_performs (byte : UInt8) {s : State} (copying : s.Copying) :
    Performs (copyUser byte) s fun action after =>
      (action = .copied s.virt ∧ after.virt = s.virt + 1 ∧ after.phase = .loop ∧
        (s.phase = .faulting ∨ s.phase = .loop ∧ tlbGetEntry s.pager (pageNo s.virt) ≠ none)) ∨
      (action = .faulted s.virt ∧ after.virt = s.virt ∧ after.phase = .faulting ∧ InRange s.virt) ∨
      (action = .killed s.virt ∧ after.phase = .gone ∧ (after.pager.procs after.proc).alive = false ∧
          ¬ InRange s.virt) := by
  obtain ⟨_, _, _, active⟩ := copying
  apply Ensures.get
  cases phase : s.phase with
  | gone =>
    rw [phase] at active
    exact active.elim
  | faulting =>
    apply (copyByte_performs byte s).weaken
    rintro _ _ ⟨copied, next, again⟩
    exact .inl ⟨copied, next, again, .inl rfl⟩
  | loop =>
    cases found : tlbGetEntry s.pager (pageNo s.virt) with
    | none => exact (pagefault_performs s).weaken fun _ _ => .inr
    | some i =>
      apply (copyByte_performs byte s).weaken
      rintro _ _ ⟨copied, next, again⟩
      exact .inl ⟨copied, next, again, .inr ⟨rfl, nofun⟩⟩

/-- The pointer is outside of the user's address space, but the low 32 bits of its page
number are those of a page that is mapped. -/
def Aliased (s : Paging.State) (virt : Address) : Prop :=
  ¬ InRange virt ∧ ∃ i entry, s.tlb i = some entry ∧ absPage entry.virt = pageNo virt

/-- Where a call that started well can be. A call that starts outside faults at once. -/
def Tame (s : State) : Prop :=
  s.phase = .gone ∨ InRange s.virt ∨
    s.phase = .loop ∧ (s.virt = VIRT_TOP ∨ ¬ s.i < s.size ∨ s.Copying ∧ tlbGetEntry s.pager (pageNo s.virt) = none)

/-- A tame call looks up no page outside of the address space that is mapped. -/
private theorem Tame.inRange {s : State} (tame : Tame s) (copying : s.Copying)
    (reaches : s.phase = .faulting ∨ s.phase = .loop ∧ tlbGetEntry s.pager (pageNo s.virt) ≠ none) :
    InRange s.virt := by
  obtain ⟨_, _, _, active⟩ := copying
  rcases tame with gone | inside | ⟨loop, outside⟩
  · rw [gone] at active
    exact active.elim
  · exact inside
  · rcases reaches with faulting | ⟨_, mapped⟩
    · rw [loop] at faulting
      cases faulting
    · rw [loop] at active
      rcases outside with top | past | ⟨_, unmapped⟩
      · rw [top] at mapped
        exact absurd (top_unmapped s.pager) mapped
      · exact absurd active past
      · exact absurd unmapped mapped

private theorem phaseAfter_cases (s : State) (event : Paging.Event) :
    s.phaseAfter event = .gone ∨ s.phaseAfter event = s.phase := by
  unfold State.phaseAfter
  split
  · split
    · exact .inl rfl
    · exact .inr rfl
  · exact .inr rfl

private theorem tame_step {s after : State} {label : Label} (tame : Tame s) (step : Step s label after) :
    Tame after ∧ (∀ virt, label = .copy (.copied virt) → InRange virt) := by
  cases step with
  | copy byte copying ran =>
    rcases (copyUser_performs byte copying).done ran with ⟨rfl, next, loop, reaches⟩ | ⟨rfl, same, _,
      inside⟩ | ⟨rfl, gone, _⟩
    · have inside := tame.inRange copying reaches
      refine ⟨?_, ?_⟩
      · unfold Tame
        rw [next]
        rcases succ_inRange inside with still | top
        · exact .inr (.inl still)
        · exact .inr (.inr ⟨loop, .inl top⟩)
      · rintro virt ⟨⟩
        exact inside
    · refine ⟨.inr (.inl ?_), nofun⟩
      rw [same]
      exact inside
    · exact ⟨.inl gone, nofun⟩
  | other idle moved =>
    refine ⟨?_, nofun⟩
    rcases phaseAfter_cases s _ with gone | same
    · exact .inl gone
    · rcases tame with gone | inside | ⟨loop, top | past | ⟨copying, _⟩⟩
      · exact .inl (same.trans gone)
      · exact .inr (.inl inside)
      · exact .inr (.inr ⟨same.trans loop, .inl top⟩)
      · exact .inr (.inr ⟨same.trans loop, .inr (.inl past)⟩)
      · exact absurd copying idle

private theorem tame_confined {start : State} (tame : Tame start) : Confined start := by
  intro labels s run
  have kept : ∀ labels before label after, (Tame before ∧ ∀ virt, .copy (.copied virt) ∈ labels → InRange virt) →
      Step before label after → Tame after ∧ ∀ virt, .copy (.copied virt) ∈ labels ++ [label] → InRange virt := by
    rintro labels before label after ⟨tame, copies⟩ step
    obtain ⟨next, last⟩ := tame_step tame step
    refine ⟨next, fun virt member => ?_⟩
    rcases List.mem_append.mp member with earlier | now
    · exact copies virt earlier
    · exact last virt (List.mem_singleton.mp now).symm
  obtain ⟨tame, copies⟩ := run.history kept ⟨tame, nofun⟩
  refine ⟨copies, fun outside action after step => ?_⟩
  cases step with
  | copy byte copying ran =>
    rcases (copyUser_performs byte copying).done ran with ⟨_, _, _, reaches⟩ | ⟨_, _, _, inside⟩ | ⟨killed,
      gone, dead, _⟩
    · exact absurd (tame.inRange copying reaches) outside
    · exact absurd inside outside
    · exact ⟨killed, gone, dead⟩

section Calls
variable {s : Paging.State} (kernel : s.mode = .kernel) (idle : s.self.fault = .none) (dir : CuDir)
    {virt : Address} {size : UInt32}
include kernel idle

private theorem call_copying (some : size ≠ 0) : (call s dir virt size).Copying :=
  ⟨rfl, kernel, idle, UInt32.pos_iff_ne_zero.mpr some⟩

/-- The first byte is already copied from or to the outside. -/
private theorem aliased_escapes (some : size ≠ 0) (aliased : Aliased s virt) : ¬ Confined (call s dir virt size) := by
  obtain ⟨outside, i, entry, there, same⟩ := aliased
  have copying : (call s dir virt size).Copying := call_copying kernel idle dir some
  have found : tlbGetEntry s (pageNo virt) ≠ none := by
    intro none
    have misses := List.find?_eq_none.mp none i (List.mem_finRange i)
    rw [there] at misses
    simp [same] at misses
  obtain ⟨j, hit⟩ := Option.ne_none_iff_exists'.mp found
  have ran : copyUser 0 (call s dir virt size) =
      .done (.copied virt) { call s dir virt size with virt := virt + 1, i := 0 + 1 } := by
    unfold copyUser
    rw [bind_done (get_run _)]
    simp only [call, hit]
    unfold copyByte
    rw [bind_done (get_run _)]
    simp only [decide_eq_false outside]
    cases dir <;> rfl
  intro confined
  exact outside ((confined _ _ (.snoc .nil (.copy 0 copying ran))).1 virt List.mem_cons_self)

private theorem call_tame (good : size = 0 ∨ ¬ Aliased s virt) : Tame (call s dir virt size) := by
  by_cases inside : InRange virt
  · exact .inr (.inl inside)
  · refine .inr (.inr ⟨rfl, .inr ?_⟩)
    by_cases nothing : size = 0
    · exact .inl (Nat.not_lt_zero _ <| UInt32.lt_iff_toNat_lt.mp <| nothing ▸ ·)
    · refine .inr ⟨call_copying kernel idle dir nothing, ?_⟩
      cases found : tlbGetEntry s (pageNo virt) with
      | none => exact found
      | some i =>
        obtain ⟨entry, there, same⟩ := tlbGetEntry_some found
        exact absurd ⟨inside, i, entry, there, same⟩ (good.resolve_left nothing)

/-- copy_user stays inside the user's address space exactly if it copies nothing or its
pointer is not an alias of a page that is mapped when it is called. -/
theorem copy_user_confined (virt : Address) (size : UInt32) :
    Confined (call s dir virt size) ↔ size = 0 ∨ ¬ Aliased s virt := by
  constructor
  · intro confined
    by_cases nothing : size = 0
    · exact .inl nothing
    · exact .inr fun aliased => aliased_escapes kernel idle dir nothing aliased confined
  · exact fun good => tame_confined (call_tame kernel idle dir good)

end Calls

private def user : Slot := ⟨1, slot_one⟩
private def page0 : PageNo := ⟨0, page_zero⟩

private def firstPage : List Paging.Event := [.create user true fun _ => none, .fault page0]

private def mapsFirst (s : Paging.State) : Bool :=
  decide (s.mode = .kernel) && decide (s.self.fault = .none) && (s.tlb ⟨0, by decide⟩).any
    fun entry => entry.virt = page0

private theorem firstPage_maps : (firstPage.foldlM Paging.State.next booted).any mapsFirst = true := by
  decide +kernel

private theorem mapsFirst_iff {s : Paging.State} (maps : mapsFirst s = true) :
    s.mode = .kernel ∧ s.self.fault = .none ∧ ∃ entry, s.tlb ⟨0, by decide⟩ = some entry ∧ entry.virt = page0 := by
  unfold mapsFirst at maps
  simp only [Bool.and_eq_true, decide_eq_true_eq] at maps
  obtain ⟨entry, there, same⟩ := (Option.any_eq_true ..).mp maps.2
  exact ⟨maps.1.1, maps.1.2, entry, there, of_decide_eq_true same⟩

/-- A buffer that runs past the end of the user's address space. -/
theorem copy_user_confined_end :
    ∃ s, Run Paging.Step booted firstPage s ∧ Confined (call s .fromUser (VIRT_TOP - 2) 5) := by
  obtain ⟨s, ran, maps⟩ := (Option.any_eq_true ..).mp firstPage_maps
  obtain ⟨kernel, idle, _⟩ := mapsFirst_iff maps
  refine ⟨s, .of_foldlM step_of_next ran, ?_⟩
  exact (copy_user_confined kernel idle .fromUser (VIRT_TOP - 2) 5).mpr (.inr fun aliased => aliased.1 (by decide))

/-- One byte at 2^44 above the base of the address space. -/
theorem copy_user_escapes :
    ∃ s, Run Paging.Step booted firstPage s ∧ s.mode = .kernel ∧ s.self.fault = .none ∧
      ¬ Confined (call s .toUser (VIRT_BASE + 0x100000000000) 1) := by
  obtain ⟨s, ran, maps⟩ := (Option.any_eq_true ..).mp firstPage_maps
  obtain ⟨kernel, idle, entry, there, same⟩ := mapsFirst_iff maps
  refine ⟨s, .of_foldlM step_of_next ran, kernel, idle, ?_⟩
  refine aliased_escapes kernel idle .toUser (by decide) ⟨by decide, _, entry, there, ?_⟩
  rw [same]
  rfl

end Egos.UserCopy
