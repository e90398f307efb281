import Egos.Grass.Paging
import Egos.Library.Ensures

/-! The clock algorithm of proc_frame_alloc: the frame it stops at is the first
unreferenced one from the clock hand on or, where there is none, the first
referenced one. -/

namespace Egos.Paging
open Library Library.Prog Grass

def dist (hand f : FrameNo) : Nat := (f.val + PHYS_FRAMES - hand.val) % PHYS_FRAMES

inductive Chosen (s : State) (f : FrameNo) : Prop where
  | unref : (s.frameInfo f).status = .unref →
      (∀ g, dist s.clockHand g < dist s.clockHand f → (s.frameInfo g).status = .ref ∨
        (s.frameInfo g).status = .pinned) →
      Chosen s f
  | ref : (s.frameInfo f).status = .ref → (∀ g, (s.frameInfo g).status = .ref ∨ (s.frameInfo g).status = .pinned) →
      (∀ g, dist s.clockHand g < dist s.clockHand f → (s.frameInfo g).status = .pinned) → Chosen s f

def aged (info : FrameInfo) : FrameInfo :=
  match info.status with
  | .ref => { info with status := .unref }
  | _ => info

/-- Only the clock hand and the marks of the frames it has passed are different. -/
structure Swept (before after : State) : Prop where
  rest : after = { before with frameInfo := after.frameInfo, clockHand := after.clockHand }
  info : ∀ g, after.frameInfo g = before.frameInfo g ∨ after.frameInfo g = aged (before.frameInfo g)
  chosen : Chosen before after.clockHand
  unref : (after.frameInfo after.clockHand).status = .unref

private structure Sweeping (before : State) (moves : Nat) (now : State) : Prop where
  rest : now = { before with frameInfo := now.frameInfo, clockHand := now.clockHand }
  hand : now.clockHand.val = (before.clockHand.val + moves) % PHYS_FRAMES
  info : ∀ g, now.frameInfo g = if dist before.clockHand g < moves then aged (before.frameInfo g)
    else before.frameInfo g
  passed : ∀ g, dist before.clockHand g < moves → (before.frameInfo g).status = .ref ∨
    (before.frameInfo g).status = .pinned
  twice : ∀ g, dist before.clockHand g + PHYS_FRAMES < moves → (before.frameInfo g).status = .pinned

private theorem dist_lt (hand f : FrameNo) : dist hand f < PHYS_FRAMES := Nat.mod_lt _ (Nat.zero_lt_succ _)

private theorem dist_inj {hand f g : FrameNo} (same : dist hand f = dist hand g) : f = g := by
  apply Fin.ext
  have := f.isLt
  have := g.isLt
  have := hand.isLt
  unfold dist PHYS_FRAMES at *
  omega

private theorem aged_status {info : FrameInfo} : (aged info).status ≠ .ref := by
  unfold aged
  cases status : info.status with
  | ref => exact nofun
  | free => rw [status]; exact nofun
  | unref => rw [status]; exact nofun
  | pinned => rw [status]; exact nofun

private theorem aged_pinned {info : FrameInfo} (pinned : (aged info).status = .pinned) : info.status = .pinned := by
  unfold aged at pinned
  cases status : info.status with
  | ref => rw [status] at pinned; cases pinned
  | free => rw [status] at pinned; exact status.symm.trans pinned
  | unref => rw [status] at pinned; exact status.symm.trans pinned
  | pinned => rfl

private theorem aged_of_pinned {info : FrameInfo} (pinned : info.status = .pinned) : aged info = info := by
  unfold aged
  rw [pinned]

private theorem aged_of_ref {info : FrameInfo} (ref : info.status = .ref) :
    aged info = { info with status := .unref } := by
  unfold aged
  rw [ref]

namespace Sweeping
variable {before now : State} {moves : Nat}

/-- In the second round every frame has been passed before. -/
private theorem dist_hand (sweeping : Sweeping before moves now) (bound : moves < 2 * PHYS_FRAMES) :
    dist before.clockHand now.clockHand = if moves < PHYS_FRAMES then moves else moves - PHYS_FRAMES := by
  have := before.clockHand.isLt
  have hand := sweeping.hand
  unfold dist PHYS_FRAMES at *
  rw [hand]
  split <;> omega

/-- The frames passed by one move more. -/
private theorem passed_succ (sweeping : Sweeping before moves now) (bound : moves < 2 * PHYS_FRAMES) {g : FrameNo}
    (near : dist before.clockHand g < moves + 1) : g = now.clockHand ∨ dist before.clockHand g < moves := by
  have here := sweeping.dist_hand bound
  by_cases passed : dist before.clockHand g < moves
  · exact .inr passed
  · have whole := dist_lt before.clockHand g
    have last : dist before.clockHand g = moves := by omega
    have first : moves < PHYS_FRAMES := by omega
    rw [if_pos first] at here
    exact .inl (dist_inj (last.trans here.symm))

/-- One move over a frame whose mark becomes `record`. -/
private theorem move (sweeping : Sweeping before moves now) (bound : moves < 2 * PHYS_FRAMES) {after : State}
    (rest : after = { now with frameInfo := after.frameInfo, clockHand := nextFrame now.clockHand })
    (others : ∀ g, g ≠ now.clockHand → after.frameInfo g = now.frameInfo g)
    (here : after.frameInfo now.clockHand = aged (before.frameInfo now.clockHand))
    (status : (before.frameInfo now.clockHand).status = .ref ∨ (before.frameInfo now.clockHand).status = .pinned)
    (second : PHYS_FRAMES ≤ moves → (before.frameInfo now.clockHand).status = .pinned) :
    Sweeping before (moves + 1) after := by
  have place := sweeping.dist_hand bound
  have hand : after.clockHand = nextFrame now.clockHand := by rw [rest]
  refine ⟨?_, ?_, ?_, ?_, ?_⟩
  · rw [rest, sweeping.rest]
  · rw [hand]
    have := sweeping.hand
    unfold nextFrame PHYS_FRAMES at *
    simp only
    omega
  · intro g
    by_cases same : g = now.clockHand
    · subst same
      have near : dist before.clockHand now.clockHand < moves + 1 := by
        rw [place]
        split <;> omega
      rw [here, if_pos near]
    · rw [others g same, sweeping.info]
      have iff : dist before.clockHand g < moves + 1 ↔ dist before.clockHand g < moves :=
        ⟨fun near => (sweeping.passed_succ bound near).resolve_left same, fun near => Nat.lt_succ_of_lt near⟩
      simp only [iff]
  · intro g near
    rcases sweeping.passed_succ bound near with rfl | passed
    · exact status
    · exact sweeping.passed g passed
  · intro g far
    by_cases already : dist before.clockHand g + PHYS_FRAMES < moves
    · exact sweeping.twice g already
    · have late : PHYS_FRAMES ≤ moves := by omega
      rw [if_neg (by omega)] at place
      have equal : dist before.clockHand g = dist before.clockHand now.clockHand := by omega
      rw [dist_inj equal]
      exact second late

end Sweeping

private theorem runClock_sweeps {before : State} (rounds moves : Nat) {now : State}
    (sweeping : Sweeping before moves now)
    (fuel : moves + rounds = 2 * PHYS_FRAMES) :
    Ensures (fun _ => True) (runClock rounds) now fun _ after => Swept before after := by
  induction rounds generalizing moves now with
  | zero => trivial
  | succ rounds ih =>
    have bound : moves < 2 * PHYS_FRAMES := by omega
    have place := sweeping.dist_hand bound
    have seen := sweeping.info now.clockHand
    apply Ensures.get
    cases status : (now.frameInfo now.clockHand).status with
    | free => trivial
    | pinned =>
      have pinned : (before.frameInfo now.clockHand).status = .pinned := by
        rw [seen] at status
        split at status
        · exact aged_pinned status
        · exact status
      apply Ensures.modify
      apply ih (moves + 1) _ (by omega)
      refine sweeping.move bound rfl (fun _ _ => rfl) ?_ (.inr pinned) fun _ => pinned
      change now.frameInfo now.clockHand = _
      rw [seen, aged_of_pinned pinned, ite_self]
    | ref =>
      have first : ¬ dist before.clockHand now.clockHand < moves := by
        intro passed
        rw [seen, if_pos passed] at status
        exact aged_status status
      rw [if_neg first] at seen
      have ref : (before.frameInfo now.clockHand).status = .ref := by rw [← seen]; exact status
      cases (now.frameInfo now.clockHand).pi.isSome with
      | false => trivial
      | true =>
        apply Ensures.modify
        apply ih (moves + 1) _ (by omega)
        refine sweeping.move bound rfl (fun g other => Function.update_of_ne other ..) ?_ (.inl ref) ?_
        · change Function.update now.frameInfo now.clockHand _ now.clockHand = _
          rw [Function.update_self, seen, aged_of_ref ref]
        · intro late
          rw [if_neg (by omega)] at place
          omega
    | unref =>
      refine ⟨sweeping.rest, ?_, ?_, status⟩
      · intro g
        rw [sweeping.info]
        split
        · exact .inr rfl
        · exact .inl rfl
      · by_cases early : moves < PHYS_FRAMES
        · rw [if_pos early] at place
          rw [if_neg (by omega)] at seen
          refine .unref (by rw [← seen]; exact status) fun g near => ?_
          rw [place] at near
          exact sweeping.passed g near
        · rw [if_neg early] at place
          rw [if_pos (by omega)] at seen
          have all : ∀ g, (before.frameInfo g).status = .ref ∨ (before.frameInfo g).status = .pinned := fun g =>
            sweeping.passed g (by have := dist_lt before.clockHand g; omega)
          refine .ref ?_ all fun g near => ?_
          · rcases all now.clockHand with ref | pinned
            · exact ref
            · rw [seen, aged_of_pinned pinned, pinned] at status
              cases status
          · rw [place] at near
            exact sweeping.twice g (by omega)

/-- The clock algorithm ends at the chosen frame. -/
theorem runClock_swept (s : State) :
    Ensures (fun _ => True) (runClock (2 * PHYS_FRAMES)) s fun _ after => Swept s after := by
  apply runClock_sweeps _ 0 _ (Nat.zero_add _)
  refine ⟨rfl, ?_, fun g => ?_, nofun, nofun⟩
  · exact (Nat.mod_eq_of_lt s.clockHand.isLt).symm
  · rw [if_neg (Nat.not_lt_zero _)]

end Egos.Paging
