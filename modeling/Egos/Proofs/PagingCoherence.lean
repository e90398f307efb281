import Egos.Proofs.PagingContents

/-! What user code and copy_user read is what they have stored last, as long as page
faults are served one at a time, the first block of an evicted page is not newer in
the TLB, and no process dies in the middle of saving a page of another one. -/

namespace Egos.Paging
open Library Library.Prog Grass

namespace Coherent
variable {s after : State}

/-- A byte of a mapped page of the current process is stored. -/
theorem stored_byte (coherent : Coherent s) (acc : Accounted False none s) (serial : Serial s) (cached : Cached s)
    (runs : s.mode ≠ .yielding) {i : TlbIndex} {entry : TlbEntry} (there : s.tlb i = some entry)
    (offset : Offset) (byte : UInt8) :
    Coherent (s.stored i entry entry.virt offset byte) := by
  have held : s.Holds ⟨s.current, entry.virt⟩ entry.phys := ⟨acc.running runs, cached.entry runs i entry there⟩
  have idle : s.self.fault = .none := by
    by_contra faulting
    cases (cached.flushed runs faulting i).symm.trans there
  have unloaded : ¬ s.self.fault.Loads entry.virt := by
    rw [idle]
    exact id
  have mem : s.last ⟨s.current, entry.virt⟩ = entry.mem :=
    (coherent.valid _ _ held unloaded).symm.trans (now_mapped cached.distinct there)
  have now : (s.stored i entry entry.virt offset byte).now =
      Function.update s.now entry.phys (Function.update entry.mem offset byte) :=
    (now_store cached.distinct there).2
  have last : ∀ a : PagePtr, (s.stored i entry entry.virt offset byte).last a =
      if a = ⟨s.current, entry.virt⟩ then Function.update entry.mem offset byte else s.last a := by
    intro a
    obtain ⟨p, page⟩ := a
    change Function.update s.written s.current (Function.update (s.written s.current) entry.virt _) p page = _
    rw [show s.written s.current entry.virt = entry.mem from mem]
    by_cases proc : p = s.current
    · subst proc
      by_cases same : page = entry.virt
      · subst same
        simp
      · simp [same, State.last]
    · simp [proc, State.last]
  have others : ∀ a : PagePtr, a ≠ ⟨s.current, entry.virt⟩ →
      (s.stored i entry entry.virt offset byte).last a = s.last a :=
    fun a other => (last a).trans (if_neg other)
  have elsewhere : ∀ {f}, f ≠ entry.phys → (s.stored i entry entry.virt offset byte).now f = s.now f := by
    intro f other
    rw [now, Function.update_of_ne other]
  have apart : ∀ a : PagePtr, s.page a ≠ .valid entry.phys → a ≠ ⟨s.current, entry.virt⟩ := by
    rintro a other rfl
    exact other held.2
  refine ⟨?_, ?_, ?_, ?_, ?_, ?_⟩
  · intro a lives uninit
    have other := apart a (by rw [show s.page a = .uninit from uninit]; exact nofun)
    rw [others a other]
    exact coherent.fresh a lives uninit
  · intro a f valid loads
    by_cases same : f = entry.phys
    · subst same
      rw [acc.holder_unique valid held, last, if_pos rfl, now, Function.update_self]
    · have other := apart a (by rw [show s.page a = .valid f from valid.2]; rintro ⟨⟩; exact same rfl)
      rw [elsewhere same, others a other]
      exact coherent.valid a f valid loads
  · intro a b stores unsaved
    have other := apart a (by rw [show s.page a = .onDisk b from stores.2]; exact nofun)
    rw [others a other]
    exact coherent.stored a b stores unsaved
  · intro a b stores p page f blocks source stage
    have other := apart a (by rw [show s.page a = .onDisk b from stores.2]; exact nofun)
    have stage' : (s.procs p).fault = .writing page f b blocks source := stage
    have faulting : (s.procs p).fault ≠ .none := by rw [stage']; exact nofun
    have pinned := (acc.pinned ⟨p, page⟩ f ⟨serial.lives p faulting, b, blocks, source, stage⟩).2
    have different : f ≠ entry.phys := by
      rintro rfl
      rcases (acc.owned _ _ held).2.1 with clash | clash
      · cases pinned.symm.trans clash
      · cases pinned.symm.trans clash
    rw [elsewhere different, others a other]
    exact coherent.saving a b stores p page f blocks source stage
  · intro p page f stage
    obtain ⟨there, first⟩ := coherent.init p page f stage
    have other : (⟨p, page⟩ : PagePtr) ≠ ⟨s.current, entry.virt⟩ := by
      rintro ⟨⟩
      cases idle.symm.trans stage
    rw [others _ other]
    exact ⟨there, first⟩
  · intro p page f b blocks stage
    obtain ⟨there, device, read⟩ := coherent.reading p page f b blocks stage
    have other : (⟨p, page⟩ : PagePtr) ≠ ⟨s.current, entry.virt⟩ := by
      rintro ⟨⟩
      cases idle.symm.trans stage
    have different : f ≠ entry.phys := by
      rintro rfl
      exact other (acc.holder_unique there held)
    rw [elsewhere different, others _ other]
    exact ⟨there, device, read⟩

/-- A slot changes hands: no page of its process is in memory or on the paging device. -/
private theorem slot (coherent : Coherent s) {p : Slot} (kept : ∀ q, q ≠ p → after.procs q = s.procs q)
    (idle : (after.procs p).fault = .none) (now : after.now = s.now) (device : after.device = s.device)
    (last : ∀ a : PagePtr, a.proc ≠ p → after.last a = s.last a)
    (blank : ∀ a : PagePtr, a.proc = p → (after.procs p).alive = true →
      after.page a = .uninit ∧ after.last a = firstContents (after.procs p).image a.page)
    (unsaved : ∀ a b, a.proc ≠ p → s.Stores a b → ¬ (s.procs p).fault.Saves b) : Coherent after := by
  have page : ∀ a : PagePtr, a.proc ≠ p → after.page a = s.page a := by
    intro a other
    unfold State.page
    rw [kept _ other]
  have faulting : ∀ q, (after.procs q).fault ≠ .none → q ≠ p := by
    rintro q stage rfl
    exact stage idle
  have holds : ∀ a f, after.Holds a f → a.proc ≠ p ∧ s.Holds a f := by
    intro a f held
    have other : a.proc ≠ p := fun same => nomatch (blank a same (same ▸ held.1)).1.symm.trans held.2
    unfold State.Holds at held
    rw [page a other, kept _ other] at held
    exact ⟨other, held⟩
  have stores : ∀ a b, after.Stores a b → a.proc ≠ p ∧ s.Stores a b := by
    intro a b stored
    have other : a.proc ≠ p := fun same => nomatch (blank a same (same ▸ stored.1)).1.symm.trans stored.2
    unfold State.Stores at stored
    rw [page a other, kept _ other] at stored
    exact ⟨other, stored⟩
  have held : ∀ a f, a.proc ≠ p → s.Holds a f → after.Holds a f := by
    intro a f other there
    unfold State.Holds
    rw [page a other, kept _ other]
    exact there
  refine ⟨?_, ?_, ?_, ?_, ?_, ?_⟩
  · intro a lives uninit
    by_cases same : a.proc = p
    · rw [same] at lives ⊢
      exact (blank a same lives).2
    · rw [page a same] at uninit
      rw [last a same]
      rw [kept _ same] at lives ⊢
      exact coherent.fresh a lives uninit
  · intro a f there unloaded
    obtain ⟨other, there⟩ := holds a f there
    rw [kept _ other] at unloaded
    rw [now, last a other]
    exact coherent.valid a f there unloaded
  · intro a b stored none
    obtain ⟨other, there⟩ := stores a b stored
    rw [device, last a other]
    refine coherent.stored a b there fun q saves => ?_
    by_cases same : q = p
    · exact unsaved a b other there (same ▸ saves)
    · exact none q ((kept q same).symm ▸ saves)
  · intro a b there q page f blocks source stage
    obtain ⟨other, there⟩ := stores a b there
    rw [kept q (faulting q (by rw [stage]; exact nofun))] at stage
    rw [now, device, last a other]
    exact coherent.saving a b there q page f blocks source stage
  · intro q page f stage
    have other := faulting q (by rw [stage]; exact nofun)
    rw [kept q other] at stage ⊢
    obtain ⟨there, first⟩ := coherent.init q page f stage
    rw [last _ other]
    exact ⟨held _ _ other there, first⟩
  · intro q page f b blocks stage
    have other := faulting q (by rw [stage]; exact nofun)
    rw [kept q other] at stage
    obtain ⟨there, rest⟩ := coherent.reading q page f b blocks stage
    rw [now, device, last _ other]
    exact ⟨held _ _ other there, rest⟩

theorem term (coherent : Coherent s) {p : Slot}
    (unsaved : ∀ a b, a.proc ≠ p → s.Stores a b → ¬ (s.procs p).fault.Saves b) :
    Coherent ((s.dead p).released p (List.finRange VIRT_PAGES)) := by
  have here : (s.dead p).procs p = { s.procs p with alive := false, fault := .none } :=
    (procs_dead p).trans (if_pos rfl)
  refine coherent.slot (fun q other => (procs_dead q).trans (if_neg other)) (congrArg Proc.fault here) rfl rfl
    (fun _ _ => rfl) ?_ unsaved
  intro a _ lives
  cases (congrArg Proc.alive here).symm.trans lives

private theorem create (coherent : Coherent s) (serial : Serial s) {p : Slot} {user : Bool}
    {image : PageNo → Option Contents}
    (unused : (s.procs p).alive = false) (created : procCreate p user image s = .done () after) : Coherent after := by
  cases created
  let fresh : Proc := { alive := true, user, pages := fun _ => .uninit, image, fault := .none }
  have here : (s.setProc p fresh).procs p = fresh := Function.update_self ..
  refine coherent.slot (fun q other => Function.update_of_ne other ..) (congrArg Proc.fault here) rfl rfl ?_ ?_ ?_
  · exact fun a other => congrFun (Function.update_of_ne other ..) a.page
  · intro a same _
    obtain ⟨q, page⟩ := a
    cases same
    refine ⟨congrFun (congrArg Proc.pages here) page, ?_⟩
    change Function.update s.written q (firstContents image) q page = _
    rw [Function.update_self]
    exact congrArg (fun record : Proc => firstContents record.image page) here.symm
  · rintro a b _ _ ⟨page, f, blocks, source, stage⟩
    have lives := serial.lives p (by rw [stage]; exact nofun)
    cases lives.symm.trans unused

end Coherent

/-- When a page has to be evicted, the TLB's copy of its first block has been synced; no
process is terminated while it saves a page of another one. -/
def Synced (s : State) : Event → Prop
  | .fault page => (∀ f, s.self.pages page ≠ .valid f) → s.freeframes = [] → ∀ f, Chosen s f → FirstBlockSynced s f
  | .term p => ∀ a b, a.proc ≠ p → s.Stores a b → ¬ (s.procs p).fault.Saves b
  | _ => True

theorem Coherent.step {s after : State} {event : Event} (coherent : Coherent s) (acc : Accounted False none s)
    (serial : Serial s)
    (blocks : Blocks s) (cached : Cached s) (turn : InTurn s event) (synced : Synced s event)
    (step : Step s event after) :
    Coherent after := by
  obtain ⟨enabled, ran⟩ := step
  cases event with
  | toUser =>
    cases ran
    exact coherent.same rfl rfl rfl rfl
  | trap =>
    cases ran
    have now := now_tlbSync cached.distinct
    dsimp only
    rw [tlbSync_rest] at now ⊢
    exact coherent.same rfl now rfl rfl
  | userStore page offset byte =>
    obtain ⟨i, entry, there, rfl, rfl⟩ := (store_does s page offset byte).done ran
    exact coherent.stored_byte acc serial cached (by rw [enabled.1]; exact nofun) there offset byte
  | copyStore page offset byte =>
    obtain ⟨i, entry, there, rfl, rfl⟩ := (store_does s page offset byte).done ran
    exact coherent.stored_byte acc serial cached (by rw [enabled.1]; exact nofun) there offset byte
  | fault page =>
    exact coherent.faulted turn acc blocks cached (by rw [enabled.1]; exact nofun) enabled.2.2.2 synced
      ((procPagefault_does s page).done ran)
  | resume =>
    exact coherent.resumed acc serial cached (by rw [enabled.1]; exact nofun) enabled.2
      ((resumeFault_does s enabled.2).done ran)
  | switch proc =>
    cases ran
    have now := now_tlbFlush cached.distinct
    dsimp only
    rw [tlbFlush_rest] at now ⊢
    exact coherent.same rfl now rfl rfl
  | term proc =>
    cases (procTerm_does s proc).done ran
    exact coherent.term synced
  | create proc user image => exact coherent.create serial enabled.2.2 ran

theorem booted_coherent : Coherent booted := by
  refine .of_quiet (fun _ => rfl) (fun _ _ _ => rfl) ?_ ?_
  · exact fun a f held => nomatch (held.2 : PageInfo.uninit = .valid f)
  · exact fun a b stores => nomatch (stores.2 : PageInfo.uninit = .onDisk b)

/-- Everything that is known about a run in which page faults are served one at a time. -/
structure InOrder (s : State) : Prop where
  acc : Accounted False none s
  serial : Serial s
  blocks : Blocks s
  cached : Cached s
  coherent : Coherent s

def Orderly (s : State) (event : Event) : Prop := InTurn s event ∧ Synced s event

theorem InOrder.step {s after : State} {event : Event} (order : InOrder s) (step : Guarded Orderly Step s event after) :
    InOrder after := by
  obtain ⟨⟨turn, synced⟩, step⟩ := step
  obtain ⟨acc, serial, blocks, cached, coherent⟩ := order
  exact ⟨acc.step (serial.handKept event) nofun step, serial.step acc turn step,
    blocks.step acc.running (serial.wanted _) step,
    cached.step serial acc step, coherent.step acc serial blocks cached turn synced step⟩

/-- What is read at a mapped address is what was last stored there. -/
theorem InOrder.load {s : State} (order : InOrder s) (runs : s.mode ≠ .yielding) {page : PageNo}
    {offset : Offset} {byte : UInt8}
    (load : s.load page offset = some byte) : byte = s.written s.current page offset := by
  obtain ⟨i, found, read⟩ := Option.bind_eq_some_iff.mp load
  obtain ⟨entry, there, same⟩ := tlbGetEntry_some found
  rw [there] at read
  cases read
  subst same
  have idle : s.self.fault = .none := by
    by_contra faulting
    cases (order.cached.flushed runs faulting i).symm.trans there
  have held : s.Holds ⟨s.current, entry.virt⟩ entry.phys :=
    ⟨order.acc.running runs, order.cached.entry runs i entry there⟩
  have now : s.now entry.phys = s.last ⟨s.current, entry.virt⟩ := by
    refine order.coherent.valid _ _ held ?_
    change ¬ s.self.fault.Loads entry.virt
    rw [idle]
    exact id
  rw [now_mapped order.cached.distinct there] at now
  exact congrFun now offset

theorem loads_current {events : List Event} {s : State} (run : Run (Guarded Orderly Step) booted events s)
    (runs : s.mode ≠ .yielding) {page : PageNo} {offset : Offset} {byte : UInt8}
    (load : s.load page offset = some byte) :
    byte = s.written s.current page offset := by
  have kept : ∀ before event after, InOrder before → Guarded Orderly Step before event after → InOrder after :=
    fun _ _ _ order step => order.step step
  have start : InOrder booted := ⟨booted_accounted, booted_serial, booted_blocks, booted_cached, booted_coherent⟩
  exact (run.invariant kept start).load runs load

section Examples

private def server : Slot := ⟨0, slot_zero⟩
private def client : Slot := ⟨1, slot_one⟩

instance (s : State) : Decidable (Quiet s) := inferInstanceAs (Decidable (∀ _, _))

instance (s : State) : (event : Event) → Decidable (InTurn s event)
  | .fault _ => inferInstanceAs (Decidable (Quiet s))
  | .toUser => .isTrue trivial
  | .trap => .isTrue trivial
  | .userStore .. => .isTrue trivial
  | .copyStore .. => .isTrue trivial
  | .resume => .isTrue trivial
  | .switch _ => .isTrue trivial
  | .term _ => .isTrue trivial
  | .create .. => .isTrue trivial

private def nextInTurn (s : State) (event : Event) : Option State := if InTurn s event then s.next event else none

private theorem step_of_nextInTurn {s : State} {event : Event} {after : State}
    (next : nextInTurn s event = some after) :
    Guarded InTurn Step s event after := by
  unfold nextInTurn at next
  split at next
  · rename_i turn
    exact ⟨turn, step_of_next next⟩
  · cases next

/-- Fill memory, store in a mapped page, evict it and bring it back. -/
private def lateStore : List Event :=
  let pages := List.finRange VIRT_PAGES
  let again : List Event := [.switch server, .switch client, .resume]
  [.create client true fun _ => none, .fault ⟨127, by decide⟩] ++ (pages.take 127).map .fault ++
    [.fault ⟨127, by decide⟩, .copyStore ⟨127, by decide⟩ ⟨0, by decide⟩ 7, .fault ⟨128, by decide⟩] ++
    (List.replicate 4 again).flatten ++ [.fault ⟨127, by decide⟩] ++ (List.replicate 8 again).flatten

private theorem lateStore_lost : (lateStore.foldlM nextInTurn booted).any (fun s =>
    decide (s.mode = .kernel) && decide (s.load ⟨127, by decide⟩ ⟨0, by decide⟩ = some 0) &&
      decide (s.written s.current ⟨127, by decide⟩ ⟨0, by decide⟩ = 7)) = true := by
  decide +kernel

theorem store_lost : ¬ ∀ events s, Run (Guarded InTurn Step) booted events s → s.mode ≠ .yielding →
    ∀ page offset byte, s.load page offset = some byte → byte = s.written s.current page offset := by
  intro always
  obtain ⟨s, ran, lost⟩ := (Option.any_eq_true ..).mp lateStore_lost
  simp only [Bool.and_eq_true, decide_eq_true_eq] at lost
  obtain ⟨⟨mode, load⟩, written⟩ := lost
  have same := always lateStore s (.of_foldlM step_of_nextInTurn ran) (by rw [mode]; exact nofun) _ _ _ load
  rw [written] at same
  cases same

/-- A page can be faulted in while frames are free or no page is mapped; nobody dies. -/
private def roomy (s : State) : Event → Bool
  | .term _ => false
  | .fault _ => decide (s.freeframes ≠ []) || decide (∀ i, (s.tlb i).isNone = true)
  | _ => true

private def nextRoomy (s : State) (event : Event) : Option State := if roomy s event then nextInTurn s event else none

private theorem synced_of_roomy {s : State} {event : Event} (room : roomy s event = true) : Synced s event := by
  cases event with
  | fault page =>
    intro _ full f _ i entry mapped
    have unmapped : ∀ i, (s.tlb i).isNone = true := by simpa [roomy, full] using room
    have none := unmapped i
    rw [mapped] at none
    cases none
  | term p => cases room
  | _ => trivial

private theorem step_of_nextRoomy {s : State} {event : Event} {after : State} (next : nextRoomy s event = some after) :
    Guarded Orderly Step s event after := by
  unfold nextRoomy at next
  split at next
  · rename_i room
    obtain ⟨turn, step⟩ := step_of_nextInTurn next
    exact ⟨⟨turn, synced_of_roomy room⟩, step⟩
  · cases next

private theorem page_seven : 7 < VIRT_PAGES := by decide

/-- Store in a page, evict it to make room for another one, and bring it back. -/
def storeKept : List Event :=
  let pages := List.finRange VIRT_PAGES
  let away : List Event := [.switch server, .switch client]
  [.create client true fun _ => none, .fault ⟨7, page_seven⟩, .copyStore ⟨7, page_seven⟩ ⟨5, by decide⟩ 9] ++
    ((pages.drop 8).take 127).map .fault ++ away ++ [.fault ⟨0, page_zero⟩] ++
      (List.replicate 4 (away ++ [.resume])).flatten ++
    away ++ [.fault ⟨7, page_seven⟩] ++ (List.replicate 8 (away ++ [.resume])).flatten

private theorem storeKept_runs : (storeKept.foldlM nextRoomy booted).any (fun s =>
    decide (s.mode = .kernel) && decide (s.load ⟨7, by decide⟩ ⟨5, by decide⟩ = some 9)) = true := by
  decide +kernel

theorem loads_current_store : ∃ s : State, Run Step booted storeKept s ∧ s.load ⟨7, by decide⟩ ⟨5, by decide⟩ = some 9 ∧
    9 = s.written s.current ⟨7, by decide⟩ ⟨5, by decide⟩ := by
  obtain ⟨s, ran, done⟩ := (Option.any_eq_true ..).mp storeKept_runs
  simp only [Bool.and_eq_true, decide_eq_true_eq] at done
  have run : Run (Guarded Orderly Step) booted storeKept s := .of_foldlM step_of_nextRoomy ran
  exact ⟨s, Guarded.run run, done.2, loads_current run (by rw [done.1]; exact nofun) done.2⟩

end Examples
end Egos.Paging
