import Egos.Proofs.PagingMoves

/-! The TLB as a write-back cache of frames. What a frame holds now is the copy of
the entry that maps it or, if there is none, what the frame itself holds. -/

namespace Egos.Paging
open Library Library.Prog Grass

def Distinct (tlb : TlbIndex → Option TlbEntry) : Prop :=
  ∀ i j first second, tlb i = some first → tlb j = some second → first.phys = second.phys → i = j

def Unmapped (tlb : TlbIndex → Option TlbEntry) (f : FrameNo) : Prop := ∀ i entry, tlb i = some entry → entry.phys ≠ f

private def copyOf (entry : TlbEntry) (f : FrameNo) : Option Contents := if entry.phys = f then some entry.mem else none

def State.now (s : State) (f : FrameNo) : Contents :=
  ((List.finRange TLB_SIZE).findSome? fun i => (s.tlb i).bind fun entry => copyOf entry f).getD (s.frames f)

theorem now_unmapped {s : State} {f : FrameNo} (unmapped : Unmapped s.tlb f) : s.now f = s.frames f := by
  unfold State.now
  have none : (List.finRange TLB_SIZE).findSome? (fun i => (s.tlb i).bind fun entry => copyOf entry f) = none := by
    apply List.findSome?_eq_none_iff.mpr
    intro i _
    cases mapped : s.tlb i with
    | none => rfl
    | some entry => exact if_neg (unmapped i entry mapped)
  rw [none]
  rfl

theorem now_mapped {s : State} {i : TlbIndex} {entry : TlbEntry} (distinct : Distinct s.tlb)
    (mapped : s.tlb i = some entry) :
    s.now entry.phys = entry.mem := by
  unfold State.now
  cases found : (List.finRange TLB_SIZE).findSome? fun i => (s.tlb i).bind fun other => copyOf other entry.phys with
  | none =>
    have absent := List.findSome?_eq_none_iff.mp found i (List.mem_finRange i)
    rw [mapped] at absent
    exact absurd ((if_pos rfl).symm.trans absent) nofun
  | some contents =>
    obtain ⟨j, _, copied⟩ := List.exists_of_findSome?_eq_some found
    obtain ⟨other, there, copied⟩ := Option.bind_eq_some_iff.mp copied
    unfold copyOf at copied
    split at copied
    · rename_i same
      cases distinct j i other entry there mapped same
      cases there.symm.trans mapped
      cases copied
      rfl
    · cases copied

/-- Entries for other frames do not matter. -/
theorem now_congr {s after : State} {f : FrameNo}
    (entries : ∀ i entry, entry.phys = f → (after.tlb i = some entry ↔ s.tlb i = some entry))
    (frames : after.frames f = s.frames f) : after.now f = s.now f := by
  have same : ∀ i, (after.tlb i).bind (fun entry => copyOf entry f) = (s.tlb i).bind fun entry => copyOf entry f := by
    intro i
    apply Option.ext
    intro contents
    simp only [Option.bind_eq_some_iff, copyOf, Option.ite_none_right_eq_some]
    constructor
    · rintro ⟨entry, there, here, copied⟩
      exact ⟨entry, (entries i entry here).mp there, here, copied⟩
    · rintro ⟨entry, there, here, copied⟩
      exact ⟨entry, (entries i entry here).mpr there, here, copied⟩
  unfold State.now
  simp only [same, frames]

section WriteBack

private structure WritesBack (step : State → TlbIndex → State) : Prop where
  frames : ∀ s i, (step s i).frames = (s.tlbSyncEntry i).frames
  here : ∀ s i, (step s i).tlb i = s.tlb i ∨ (step s i).tlb i = none
  others : ∀ s i j, j ≠ i → (step s i).tlb j = s.tlb j

private theorem syncEntry_tlb (s : State) (i : TlbIndex) : (s.tlbSyncEntry i).tlb = s.tlb := by
  unfold State.tlbSyncEntry
  split <;> rfl

private theorem writesBack_sync : WritesBack State.tlbSyncEntry :=
  ⟨fun _ _ => rfl, fun s i => .inl (congrFun (syncEntry_tlb s i) i), fun s i j _ => congrFun (syncEntry_tlb s i) j⟩

private theorem writesBack_flush : WritesBack State.tlbFlushEntry :=
  ⟨fun _ _ => rfl, fun _ _ => .inr (Function.update_self ..), fun _ _ _ other => Function.update_of_ne other ..⟩

variable {step : State → TlbIndex → State} (writes : WritesBack step)
include writes

private theorem WritesBack.sub {s : State} {i j : TlbIndex} {entry : TlbEntry}
    (mapped : (step s i).tlb j = some entry) :
    s.tlb j = some entry := by
  by_cases same : j = i
  · subst same
    rcases writes.here s j with kept | dropped
    · rw [← kept]; exact mapped
    · rw [dropped] at mapped; cases mapped
  · rw [← writes.others s i j same]
    exact mapped

private theorem WritesBack.distinct {s : State} {i : TlbIndex} (distinct : Distinct s.tlb) : Distinct (step s i).tlb :=
  fun j k _ _ first second => distinct j k _ _ (writes.sub first) (writes.sub second)

private theorem WritesBack.unmapped {f : FrameNo} (order : List TlbIndex) (s : State)
    (none : ∀ i ∈ order, ∀ entry, s.tlb i = some entry → entry.phys ≠ f) :
    (order.foldl step s).frames f = s.frames f := by
  induction order generalizing s with
  | nil => rfl
  | cons i rest ih =>
    have later : ∀ j ∈ rest, ∀ entry, (step s i).tlb j = some entry → entry.phys ≠ f :=
      fun j member entry mapped => none j (List.mem_cons_of_mem i member) entry (writes.sub mapped)
    rw [List.foldl_cons, ih (step s i) later, writes.frames]
    unfold State.tlbSyncEntry
    cases mapped : s.tlb i with
    | none => rfl
    | some entry => exact Function.update_of_ne (none i List.mem_cons_self entry mapped).symm ..

private theorem WritesBack.mapped {i : TlbIndex} {entry : TlbEntry} (order : List TlbIndex)
    (nodup : order.Nodup) (s : State)
    (distinct : Distinct s.tlb) (member : i ∈ order) (mapped : s.tlb i = some entry) :
    (order.foldl step s).frames entry.phys = entry.mem := by
  induction order generalizing s with
  | nil => cases member
  | cons j rest ih =>
    rw [List.foldl_cons]
    have fresh := (List.nodup_cons.mp nodup).1
    by_cases same : i = j
    · subst same
      have only : ∀ k ∈ rest, ∀ other, (step s i).tlb k = some other → other.phys ≠ entry.phys := by
        intro k member other there clash
        cases distinct k i other entry (writes.sub there) mapped clash
        exact fresh member
      rw [writes.unmapped rest _ only, writes.frames]
      unfold State.tlbSyncEntry
      rw [mapped]
      exact Function.update_self ..
    · have kept : (step s j).tlb i = some entry := (writes.others s j i same).trans mapped
      exact ih (List.nodup_cons.mp nodup).2 _ (writes.distinct distinct)
        ((List.mem_cons.mp member).resolve_left same) kept

/-- Afterwards each frame holds what it held before, and no entry knows more. -/
private theorem WritesBack.frames_now {s : State} (distinct : Distinct s.tlb) :
    ((List.finRange TLB_SIZE).foldl step s).frames = s.now := by
  funext f
  by_cases mapped : ∃ i entry, s.tlb i = some entry ∧ entry.phys = f
  · obtain ⟨i, entry, mapped, rfl⟩ := mapped
    rw [now_mapped distinct mapped]
    exact writes.mapped _ (List.nodup_finRange TLB_SIZE) s distinct (List.mem_finRange i) mapped
  · have unmapped : Unmapped s.tlb f := fun i entry there same => mapped ⟨i, entry, there, same⟩
    rw [now_unmapped unmapped]
    exact writes.unmapped _ s fun i _ => unmapped i

end WriteBack

private theorem syncEntry_rest (s : State) (i : TlbIndex) :
    s.tlbSyncEntry i = { s with frames := (s.tlbSyncEntry i).frames } := by
  unfold State.tlbSyncEntry
  split <;> rfl

theorem tlbFlushEntry_rest (s : State) (i : TlbIndex) :
    s.tlbFlushEntry i = { s with frames := (s.tlbSyncEntry i).frames, tlb := Function.update s.tlb i none } := by
  unfold State.tlbFlushEntry
  rw [syncEntry_rest]

theorem tlbSync_rest (s : State) : s.tlbSync = { s with frames := s.tlbSync.frames } := by
  have fold : ∀ (order : List TlbIndex) (s : State),
      order.foldl State.tlbSyncEntry s = { s with frames := (order.foldl State.tlbSyncEntry s).frames } := by
    intro order
    induction order with
    | nil => exact fun _ => rfl
    | cons i rest ih =>
      intro s
      rw [List.foldl_cons, ih, syncEntry_rest]
  exact fold _ s

theorem tlbFlush_rest (s : State) : s.tlbFlush = { s with frames := s.tlbFlush.frames, tlb := fun _ => none } := by
  have fold : ∀ (order : List TlbIndex) (s : State), order.foldl State.tlbFlushEntry s =
      { s with frames := (order.foldl State.tlbFlushEntry s).frames, tlb := fun i => if i ∈ order then none else s.tlb i } := by
    intro order
    induction order with
    | nil => exact fun _ => rfl
    | cons i rest ih =>
      intro s
      have dropped : (fun j => if j ∈ rest then none else (s.tlbFlushEntry i).tlb j) =
          fun j => if j ∈ i :: rest then none else s.tlb j := by
        funext j
        rw [tlbFlushEntry_rest]
        by_cases same : j = i <;> simp [same]
      rw [List.foldl_cons, ih, dropped, tlbFlushEntry_rest]
  have all := fold (List.finRange TLB_SIZE) s
  simp only [List.mem_finRange, if_true] at all
  exact all

theorem tlbSync_eq {s : State} (distinct : Distinct s.tlb) : s.tlbSync = { s with frames := s.now } := by
  rw [tlbSync_rest]
  exact congrArg (fun frames => ({ s with frames } : State)) (writesBack_sync.frames_now distinct)

theorem tlbFlush_eq {s : State} (distinct : Distinct s.tlb) :
    s.tlbFlush = { s with frames := s.now, tlb := fun _ => none } := by
  rw [tlbFlush_rest]
  exact congrArg (fun frames => ({ s with frames, tlb := fun _ => none } : State))
    (writesBack_flush.frames_now distinct)

theorem now_tlbSync {s : State} (distinct : Distinct s.tlb) : s.tlbSync.now = s.now := by
  rw [tlbSync_eq distinct]
  funext f
  by_cases mapped : ∃ i entry, s.tlb i = some entry ∧ entry.phys = f
  · obtain ⟨i, entry, mapped, rfl⟩ := mapped
    rw [now_mapped distinct mapped]
    exact now_mapped (s := { s with frames := s.now }) distinct mapped
  · exact now_unmapped fun i entry there same => mapped ⟨i, entry, there, same⟩

theorem now_tlbFlush {s : State} (distinct : Distinct s.tlb) : s.tlbFlush.now = s.now := by
  rw [tlbFlush_eq distinct]
  funext f
  exact now_unmapped nofun

private theorem now_flushEntry {s : State} {i : TlbIndex} (distinct : Distinct s.tlb) :
    (s.tlbFlushEntry i).now = s.now := by
  have kept := writesBack_flush.distinct (i := i) distinct
  funext f
  by_cases mapped : ∃ j entry, s.tlb j = some entry ∧ entry.phys = f
  · obtain ⟨j, entry, mapped, rfl⟩ := mapped
    rw [now_mapped distinct mapped]
    by_cases same : j = i
    · subst same
      rw [now_unmapped, writesBack_flush.frames]
      · unfold State.tlbSyncEntry
        rw [mapped]
        exact Function.update_self ..
      · intro k other there clash
        cases distinct k j other entry (writesBack_flush.sub there) mapped clash
        rw [tlbFlushEntry_rest] at there
        cases (Function.update_self ..).symm.trans there
    · exact now_mapped kept ((writesBack_flush.others s i j same).trans mapped)
  · have unmapped : Unmapped s.tlb f := fun j entry there same => mapped ⟨j, entry, there, same⟩
    rw [now_unmapped unmapped, now_unmapped fun j entry there => unmapped j entry (writesBack_flush.sub there),
      writesBack_flush.frames]
    unfold State.tlbSyncEntry
    cases here : s.tlb i with
    | none => rfl
    | some entry => exact Function.update_of_ne (unmapped i entry here).symm ..

section Mapped
variable {s : State} {page : PageNo} {f : FrameNo}

theorem mapped_rest (s : State) (page : PageNo) (f : FrameNo) : s.mapped page f =
    { s with frames := (s.mapped page f).frames, tlb := (s.mapped page f).tlb, tlbIndex := nextEntry s.tlbIndex, mode := .kernel } := by
  unfold State.mapped State.tlbMap
  rw [tlbFlushEntry_rest]

/-- The entries after a page has been mapped. -/
theorem mapped_tlb {i : TlbIndex} {entry : TlbEntry} (there : (s.mapped page f).tlb i = some entry) :
    i = s.tlbIndex ∧ entry.virt = page ∧ entry.phys = f ∨ i ≠ s.tlbIndex ∧ s.tlb i = some entry := by
  change Function.update (s.tlbFlushEntry s.tlbIndex).tlb s.tlbIndex _ i = some entry at there
  by_cases same : i = s.tlbIndex
  · subst same
    rw [Function.update_self] at there
    cases there
    exact .inl ⟨rfl, rfl, rfl⟩
  · rw [Function.update_of_ne same] at there
    exact .inr ⟨same, writesBack_flush.sub there⟩

theorem mapped_distinct (distinct : Distinct s.tlb) (unmapped : Unmapped s.tlb f) : Distinct (s.mapped page f).tlb := by
  intro i j first second left right same
  rcases mapped_tlb left with ⟨rfl, _, here⟩ | ⟨_, left⟩
  · rcases mapped_tlb right with ⟨rfl, _, _⟩ | ⟨_, right⟩
    · rfl
    · exact absurd (same.symm.trans here) (unmapped j second right)
  · rcases mapped_tlb right with ⟨rfl, _, here⟩ | ⟨_, right⟩
    · exact absurd (same.trans here) (unmapped i first left)
    · exact distinct i j first second left right same

theorem now_mapPage (distinct : Distinct s.tlb) (unmapped : Unmapped s.tlb f) : (s.mapped page f).now = s.now := by
  have kept : Distinct (s.mapped page f).tlb := mapped_distinct distinct unmapped
  have flushed := now_flushEntry (i := s.tlbIndex) distinct
  have clean : Unmapped (s.tlbFlushEntry s.tlbIndex).tlb f := fun i entry there =>
    unmapped i entry (writesBack_flush.sub there)
  rw [← flushed]
  funext g
  by_cases here : g = f
  · subst here
    have mapping : (s.mapped page g).tlb s.tlbIndex =
        some { virt := page, phys := g, mem := (s.tlbFlushEntry s.tlbIndex).frames g } :=
      Function.update_self ..
    rw [now_unmapped clean]
    exact now_mapped kept mapping
  · refine now_congr ?_ rfl
    intro i entry phys
    by_cases same : i = s.tlbIndex
    · subst same
      constructor
      · intro there
        rcases mapped_tlb there with ⟨_, _, there⟩ | ⟨other, _⟩
        · exact absurd (phys.symm.trans there) here
        · exact absurd rfl other
      · intro there
        rw [tlbFlushEntry_rest] at there
        cases (Function.update_self ..).symm.trans there
    · change Function.update (s.tlbFlushEntry s.tlbIndex).tlb s.tlbIndex _ i = _ ↔ _
      rw [Function.update_of_ne same]

theorem now_setFrame {contents : Contents} (unmapped : Unmapped s.tlb f) :
    (s.setFrame f contents).now = Function.update s.now f contents := by
  funext g
  by_cases here : g = f
  · subst here
    rw [Function.update_self, now_unmapped (s := s.setFrame g contents) unmapped]
    exact Function.update_self ..
  · rw [Function.update_of_ne here]
    exact now_congr (fun _ _ _ => .rfl) (Function.update_of_ne here ..)

/-- A store through an entry. -/
theorem now_store {i : TlbIndex} {entry : TlbEntry} {mem : Contents} (distinct : Distinct s.tlb)
    (there : s.tlb i = some entry) :
    let after : State := { s with tlb := Function.update s.tlb i (some { entry with mem }) }
    Distinct after.tlb ∧ after.now = Function.update s.now entry.phys mem := by
  intro after
  have others : ∀ j, j ≠ i → after.tlb j = s.tlb j := fun j other => Function.update_of_ne other ..
  have changed : after.tlb i = some { entry with mem } := Function.update_self ..
  have kept : Distinct after.tlb := by
    have origin : ∀ j copy, after.tlb j = some copy → ∃ original, s.tlb j = some original ∧
        original.phys = copy.phys := by
      intro j copy mapped
      by_cases same : j = i
      · subst same
        cases changed.symm.trans mapped
        exact ⟨entry, there, rfl⟩
      · exact ⟨copy, (others j same).symm.trans mapped, rfl⟩
    intro j k first second left right same
    obtain ⟨first', left', phys⟩ := origin j first left
    obtain ⟨second', right', phys'⟩ := origin k second right
    exact distinct j k first' second' left' right' (phys.trans (same.trans phys'.symm))
  refine ⟨kept, ?_⟩
  funext g
  by_cases here : g = entry.phys
  · subst here
    rw [Function.update_self]
    exact now_mapped kept changed
  · rw [Function.update_of_ne here]
    refine now_congr ?_ rfl
    intro j copy phys
    by_cases same : j = i
    · subst same
      rw [changed, there]
      constructor
      · rintro ⟨⟩
        exact absurd phys.symm here
      · rintro ⟨⟩
        exact absurd phys.symm here
    · rw [others j same]

end Mapped

theorem tlbGetEntry_none {s : State} {page : PageNo} (none : s.tlbGetEntry page = none) {i : TlbIndex}
    {entry : TlbEntry}
    (there : s.tlb i = some entry) : entry.virt ≠ page := by
  have misses := List.find?_eq_none.mp none i (List.mem_finRange i)
  rw [there] at misses
  simpa using misses

theorem tlbGetEntry_some {s : State} {page : PageNo} {i : TlbIndex} (found : s.tlbGetEntry page = some i) :
    ∃ entry, s.tlb i = some entry ∧ entry.virt = page := by
  have hit := List.find?_some found
  obtain ⟨entry, there, same⟩ := (Option.any_eq_true ..).mp hit
  exact ⟨entry, there, of_decide_eq_true same⟩

/-- A byte of a page of the current process is stored through an entry. -/
def State.stored (s : State) (i : TlbIndex) (entry : TlbEntry) (page : PageNo) (offset : Offset)
    (byte : UInt8) : State :=
  { s with
    tlb := Function.update s.tlb i (some { entry with mem := Function.update entry.mem offset byte })
    written := Function.update s.written s.current
      (Function.update (s.written s.current) page (Function.update (s.written s.current page) offset byte)) }

theorem store_does (s : State) (page : PageNo) (offset : Offset) (byte : UInt8) :
    Does (store page offset byte) s fun after =>
    ∃ i entry, s.tlb i = some entry ∧ entry.virt = page ∧ after = s.stored i entry page offset byte := by
  apply Ensures.get
  cases found : s.tlbGetEntry page with
  | none => trivial
  | some i =>
    obtain ⟨entry, there, same⟩ := tlbGetEntry_some found
    refine ⟨i, entry, there, same, ?_⟩
    unfold State.stored
    dsimp only
    rw [there]
    rfl

end Egos.Paging
