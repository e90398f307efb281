import Egos.Proofs.PagingRuns

/-! Page faults that are served one at a time. The process in the middle of one finds
the clock hand where it left it, and the TLB empty. -/

namespace Egos.Paging
open Library Library.Prog Grass

structure Served (s after : State) : Prop where
  current : after.current = s.current
  alive : ∀ p, (after.procs p).alive = (s.procs p).alive
  user : ∀ p, (after.procs p).user = (s.procs p).user
  image : ∀ p, (after.procs p).image = (s.procs p).image
  others : ∀ p, p ≠ s.current → (after.procs p).fault = (s.procs p).fault
  written : after.written = s.written

namespace Served
variable {s middle after : State}

theorem same (current : after.current = s.current) (procs : after.procs = s.procs)
    (written : after.written = s.written) :
    Served s after :=
  ⟨current, fun p => by rw [procs], fun p => by rw [procs], fun p => by rw [procs], fun p _ => by rw [procs], written⟩

theorem trans (first : Served s middle) (second : Served middle after) : Served s after where
  current := second.current.trans first.current
  alive p := (second.alive p).trans (first.alive p)
  user p := (second.user p).trans (first.user p)
  image p := (second.image p).trans (first.image p)
  others p other := (second.others p (first.current.symm ▸ other)).trans (first.others p other)
  written := second.written.trans first.written

theorem setFault (s : State) (fault : Fault) (mode : Mode) : Served s { s.setFault fault with mode } where
  current := rfl
  alive p := alive_setFault fault p
  user p := by
    change ((s.setFault fault).procs p).user = _
    rw [procs_setFault]
    split <;> rfl
  image p := by
    change ((s.setFault fault).procs p).image = _
    rw [procs_setFault]
    split <;> rfl
  others p other := (fault_setFault fault p).trans (if_neg other)
  written := rfl

theorem setPage (s : State) (a : PagePtr) (info : PageInfo) : Served s (s.setPage a info) where
  current := rfl
  alive p := alive_setPage a info p
  user p := by rw [procs_setPage]; split <;> rfl
  image p := by rw [procs_setPage]; split <;> rfl
  others p _ := fault_setPage a info p
  written := rfl

theorem mapped (s : State) (page : PageNo) (f : FrameNo) : Served s (s.mapped page f) := by
  rw [mapped_rest]
  exact same rfl rfl rfl

theorem assigned (s : State) (page : PageNo) (f : FrameNo) : Served s (s.assigned page f) :=
  (same rfl rfl rfl : Served s (s.setInfo f _)).trans (setPage ..)

end Served

theorem Fills.served {s after : State} {page : PageNo} {source : Option BlockNo} (fills : Fills s page source after) :
    Served s after := by
  cases fills with
  | zero frame => exact (Served.same rfl rfl rfl : Served s (s.setFrame frame zeros)).trans (.mapped ..)
  | init frame contents => exact .setFault ..
  | read frame block => exact .setFault ..

theorem Faulted.served {s after : State} {page : PageNo} (faulted : Faulted s page after) : Served s after := by
  cases faulted with
  | remap frame => exact (Served.same rfl rfl rfl : Served s (s.setInfo frame _)).trans (.mapped ..)
  | take frame rest source after wanted free status fills =>
    exact (Served.same rfl rfl rfl : Served s { s with freeframes := rest }).trans
      ((Served.assigned ..).trans fills.served)
  | evict source block rest swept victim wanted full blocks clock owner =>
    have moved : Served s swept := by
      rw [clock.rest]
      exact .same rfl rfl rfl
    have pinned : Served swept (swept.pinned victim block rest) :=
      (Served.same rfl rfl rfl : Served swept { swept with freeblocks := rest }).trans
        ((Served.setPage ..).trans (.same rfl rfl rfl))
    have wrote : Served (swept.pinned victim block rest)
        (blockWrite (swept.pinned victim block rest) swept.clockHand block 0) :=
      .same rfl rfl rfl
    exact moved.trans (pinned.trans (wrote.trans (.setFault ..)))

theorem Resumed.served {s after : State} (resumed : Resumed s after) : Served s after := by
  cases resumed with
  | write page frame block blocks source =>
    exact (Served.same rfl rfl rfl : Served s (blockWrite s frame block blocks)).trans (.setFault ..)
  | finish page frame block blocks source after stage done fills =>
    have ended : Served s (s.setFault .none) := .setFault s .none s.mode
    have advanced : Served ((s.setFault .none).assigned page s.clockHand)
        (advance ((s.setFault .none).assigned page s.clockHand)) :=
      .same rfl rfl rfl
    exact ended.trans ((Served.assigned ..).trans (advanced.trans fills.served))
  | init page frame place =>
    have filled : Served s (s.setFrame frame (firstContents s.self.image page)) := .same rfl rfl rfl
    exact filled.trans ((Served.setFault _ .none s.mode).trans (.mapped ..))
  | read page frame block blocks =>
    exact (Served.same rfl rfl rfl : Served s (blockRead s frame block (blocks - 1))).trans (.setFault ..)
  | last page frame block blocks place =>
    have copied : Served s (blockRead s frame block (blocks - 1)) := .same rfl rfl rfl
    exact copied.trans ((Served.setFault _ .none s.mode).trans (.mapped ..))

/-- At most one process is in the middle of a page fault. -/
structure Serial (s : State) : Prop where
  single : ∀ p q, (s.procs p).fault ≠ .none → (s.procs q).fault ≠ .none → p = q
  lives : ∀ p, (s.procs p).fault ≠ .none → (s.procs p).alive = true
  hand : ∀ p page f block blocks source, (s.procs p).fault = .writing page f block blocks source → s.clockHand = f
  wanted : ∀ p page f block blocks source, (s.procs p).fault = .writing page f block blocks source →
    s.page ⟨p, page⟩ = .ofSource source
  kernel : ∀ p, (s.procs p).alive = true → (s.procs p).user = false → (s.procs p).fault = .none

def Quiet (s : State) : Prop := ∀ p, (s.procs p).fault = .none

namespace Serial
variable {s after : State}

/-- While the current process is in the middle of a page fault no other one is. -/
theorem others (serial : Serial s) (faulting : s.self.fault ≠ .none) {p : Slot} (other : p ≠ s.current) :
    (s.procs p).fault = .none := by
  by_contra another
  exact other (serial.single p s.current another faulting)

/-- Only the current process can be in the middle of a page fault. -/
private theorem current (others : ∀ p, p ≠ after.current → (after.procs p).fault = .none)
    (alive : after.self.alive = true)
    (user : after.self.user = true)
    (writes : ∀ page f block blocks source, after.self.fault = .writing page f block blocks source →
      after.clockHand = f ∧ Wanted after page source) : Serial after := by
  have here : ∀ p, (after.procs p).fault ≠ .none → p = after.current := by
    intro p faulting
    by_contra other
    exact faulting (others p other)
  refine ⟨fun p q first second => (here p first).trans (here q second).symm, ?_, ?_, ?_, ?_⟩
  · intro p faulting
    rw [here p faulting]
    exact alive
  · intro p page f block blocks source stage
    have same := here p (by rw [stage]; exact nofun)
    subst same
    exact (writes page f block blocks source stage).1
  · intro p page f block blocks source stage
    have same := here p (by rw [stage]; exact nofun)
    subst same
    exact (writes page f block blocks source stage).2
  · intro p _ system
    by_contra faulting
    rw [here p faulting] at system
    cases user.symm.trans system

private theorem fills_unwritten {page : PageNo} {source : Option BlockNo} (idle : s.self.fault = .none)
    (fills : Fills s page source after)
    (g : PageNo) (f : FrameNo) (block : BlockNo) (blocks : Nat) (origin : Option BlockNo) :
    after.self.fault ≠ .writing g f block blocks origin := by
  cases fills with
  | zero frame =>
    rw [mapped_rest]
    exact fun stage => nomatch idle.symm.trans stage
  | init frame contents =>
    rw [State.self_block]
    exact nofun
  | read frame block =>
    rw [State.self_block]
    exact nofun

theorem faulted {page : PageNo} (quiet : Quiet s) (acc : Accounted False none s) (alive : s.self.alive = true)
    (user : s.self.user = true)
    (faulted : Faulted s page after) : Serial after := by
  have served := faulted.served
  have lives : after.self.alive = true := by
    unfold State.self
    rw [served.current, served.alive]
    exact alive
  have users : after.self.user = true := by
    unfold State.self
    rw [served.current, served.user]
    exact user
  refine current ?_ lives users ?_
  · intro p other
    rw [served.others p (served.current ▸ other)]
    exact quiet p
  · intro g f target blocks origin stage
    have idle : s.self.fault = .none := quiet s.current
    cases faulted with
    | remap frame =>
      rw [mapped_rest] at stage
      cases idle.symm.trans stage
    | take frame rest source after wanted free status fills =>
      have rests : ({ s with freeframes := rest }.assigned page frame).self.fault = .none :=
        (fault_setPage ..).trans idle
      exact (fills_unwritten rests fills _ _ _ _ _ stage).elim
    | evict source block rest swept victim wanted full blocks clock owner =>
      unfold State.evicting at stage
      rw [State.self_block] at stage
      cases stage
      refine ⟨rfl, ?_⟩
      have held := acc.sweptVictim clock owner
      have apart : (⟨swept.current, page⟩ : PagePtr) ≠ victim := by
        rintro rfl
        rw [clock.rest] at held
        have clash := wanted.symm.trans held.2
        cases origin <;> cases clash
      have kept : (swept.pinned victim target rest).page ⟨swept.current, page⟩ = swept.page ⟨swept.current, page⟩ :=
        (page_setPage ..).trans (if_neg apart)
      refine (page_setFault _ (⟨swept.current, page⟩ : PagePtr)).trans (kept.trans ?_)
      rw [clock.rest]
      exact wanted

theorem resumed (serial : Serial s) (faulting : s.self.fault ≠ .none) (resumed : Resumed s after) : Serial after := by
  have served := resumed.served
  have lives := serial.lives s.current faulting
  have users : s.self.user = true := by
    by_contra system
    exact faulting (serial.kernel s.current lives (Bool.eq_false_iff.mpr system))
  refine current ?_ ?_ ?_ ?_
  · intro p other
    rw [served.others p (served.current ▸ other)]
    exact serial.others faulting (served.current ▸ other)
  · unfold State.self
    rw [served.current, served.alive]
    exact lives
  · unfold State.self
    rw [served.current, served.user]
    exact users
  · intro g f target count origin stage
    cases resumed with
    | write page frame block blocks source before more =>
      rw [State.self_block] at stage
      cases stage
      refine ⟨serial.hand _ _ _ _ _ _ before, ?_⟩
      exact (page_setFault _ ⟨s.current, g⟩).trans (serial.wanted _ _ _ _ _ _ before)
    | finish page frame block blocks source after before done fills =>
      have rests : (advance ((s.setFault .none).assigned page s.clockHand)).self.fault = .none :=
        (fault_setPage ..).trans ((fault_setFault ..).trans (if_pos rfl))
      exact (fills_unwritten rests fills _ _ _ _ _ stage).elim
    | init page frame place before valid =>
      rw [mapped_rest] at stage
      change ((s.setFrame frame _).setFault .none).self.fault = _ at stage
      rw [State.self_setFault] at stage
      cases stage
    | read page frame block blocks before more =>
      rw [State.self_block] at stage
      cases stage
    | last page frame block blocks place before done valid =>
      rw [mapped_rest] at stage
      change ((blockRead s frame block _).setFault .none).self.fault = _ at stage
      rw [State.self_setFault] at stage
      cases stage

/-- Steps that change no stage of a page fault. -/
theorem same (serial : Serial s) (procs : after.procs = s.procs) (hand : after.clockHand = s.clockHand) :
    Serial after := by
  refine ⟨?_, ?_, ?_, ?_, ?_⟩
  · rw [procs]; exact serial.single
  · rw [procs]; exact serial.lives
  · rw [procs, hand]; exact serial.hand
  · unfold State.page; rw [procs]; exact serial.wanted
  · rw [procs]; exact serial.kernel

/-- A process leaves the stage it was in, if any. -/
theorem cleared (serial : Serial s) {p : Slot} (gone : (after.procs p).fault = .none)
    (others : ∀ q, q ≠ p → after.procs q = s.procs q) (hand : after.clockHand = s.clockHand) : Serial after := by
  have apart : ∀ q, (after.procs q).fault ≠ .none → q ≠ p := by
    rintro q faulting rfl
    exact faulting gone
  refine ⟨?_, ?_, ?_, ?_, ?_⟩
  · intro q r first second
    have left := apart q first
    have right := apart r second
    rw [others q left] at first
    rw [others r right] at second
    exact serial.single q r first second
  · intro q faulting
    have other := apart q faulting
    rw [others q other] at faulting ⊢
    exact serial.lives q faulting
  · intro q page f block blocks source stage
    have other := apart q (by rw [stage]; exact nofun)
    rw [others q other] at stage
    rw [hand]
    exact serial.hand q page f block blocks source stage
  · intro q page f block blocks source stage
    have other := apart q (by rw [stage]; exact nofun)
    rw [others q other] at stage
    unfold State.page
    rw [others q other]
    exact serial.wanted q page f block blocks source stage
  · intro q alive system
    by_cases same : q = p
    · rw [same]
      exact gone
    · rw [others q same] at alive system ⊢
      exact serial.kernel q alive system

end Serial

/-- Page faults are served one at a time. -/
def InTurn (s : State) : Event → Prop
  | .fault _ => Quiet s
  | _ => True

theorem Serial.step {s after : State} {event : Event} (serial : Serial s) (acc : Accounted False none s)
    (turn : InTurn s event)
    (step : Step s event after) : Serial after := by
  obtain ⟨enabled, ran⟩ := step
  cases event with
  | toUser =>
    cases ran
    exact serial.same rfl rfl
  | trap =>
    cases ran
    dsimp only
    rw [tlbSync_rest]
    exact serial.same rfl rfl
  | userStore page offset byte =>
    obtain ⟨i, entry, _, _, rfl⟩ := (store_does s page offset byte).done ran
    exact serial.same rfl rfl
  | copyStore page offset byte =>
    obtain ⟨i, entry, _, _, rfl⟩ := (store_does s page offset byte).done ran
    exact serial.same rfl rfl
  | fault page =>
    have alive := acc.running (by rw [enabled.1]; exact nofun)
    exact Serial.faulted turn acc alive enabled.2.1 ((procPagefault_does s page).done ran)
  | resume => exact serial.resumed enabled.2 ((resumeFault_does s enabled.2).done ran)
  | switch proc =>
    cases ran
    dsimp only
    rw [tlbFlush_rest]
    exact serial.same rfl rfl
  | term proc =>
    cases (procTerm_does s proc).done ran
    refine serial.cleared (p := proc) ?_ (fun q other => (procs_dead q).trans (if_neg other)) rfl
    exact congrArg Proc.fault ((procs_dead proc).trans (if_pos rfl))
  | create proc user image =>
    cases ran
    refine serial.cleared (p := proc) ?_ (fun q other => Function.update_of_ne other ..) rfl
    exact congrArg Proc.fault (Function.update_self proc (_ : Proc) s.procs)

/-- The clock hand stays where it is until the eviction is completed. -/
theorem Serial.handKept {s : State} (serial : Serial s) (event : Event) : HandKept s event := by
  cases event with
  | resume => exact fun page frame block blocks source stage _ => serial.hand _ page frame block blocks source stage
  | _ => trivial

theorem booted_serial : Serial booted := ⟨nofun, nofun, nofun, nofun, fun _ _ _ => rfl⟩

end Egos.Paging
