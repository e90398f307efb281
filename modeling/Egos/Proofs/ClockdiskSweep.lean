import Egos.Proofs.ClockdiskCache

/-! Which entry cache_update replaces: the first one from the clock hand on that was not used
lately or, where all were, the one under the hand. The counter of the hand must not
overflow before the hand gets there. -/

namespace Egos.Clockdisk
open Library Disk

variable {σ : Type} {nblocks : BlockNo} [NeZero nblocks.toNat]

namespace State

def counter (s : State σ nblocks) : UInt32 := if s.clockHand > nblocks then s.clockHand % nblocks else s.clockHand

def entry (s : State σ nblocks) (steps : Nat) : Fin nblocks.toNat := Fin.ofNat nblocks.toNat (s.hand.val + steps)

def distance (s : State σ nblocks) (i : Fin nblocks.toNat) : Nat := (i.val + nblocks.toNat - s.hand.val) % nblocks.toNat

/-- The entry the sweep should stop at: the first one that is not recently used, or after
a whole round the one under the hand. -/
structure Stops (s : State σ nblocks) (steps : Nat) : Prop where
  few : steps ≤ nblocks.toNat
  passed : ∀ i, s.distance i < steps → (s.binfo i).status = .used
  here : steps < nblocks.toNat → (s.binfo (s.entry steps)).status ≠ .used

/-- The hand has passed entries, which are no longer recently used. -/
def swept (s : State σ nblocks) (steps : Nat) : State σ nblocks :=
  { s with
    binfo := fun i => if s.distance i < steps then { s.binfo i with status := .unused } else s.binfo i
    clockHand := s.counter + UInt32.ofNat steps }

def replaced (s : State σ nblocks) (offset : BlockNo) (block : Block) (i : Fin nblocks.toNat) : State σ nblocks :=
  { s with
    binfo := Function.update s.binfo i { status := .used, offset }
    blocks := Function.update s.blocks i block
    clockHand := s.clockHand + 1 }

/-- The sweep ends after at most a round and one step, replaces the entry it should, marks the
entries it passes and changes nothing else. An entry in use is only replaced when all are. -/
def Sweeps (s : State σ nblocks) (offset : BlockNo) (block : Block) : Prop :=
  ∃ steps, s.Stops steps ∧ cacheUpdate offset block s =
    .done () ((s.swept steps).replaced offset block (s.entry steps)) ∧
    ((s.binfo (s.entry steps)).status = .used → ∀ i, (s.binfo i).status = .used)

/-- The counter does not overflow before the hand gets to the entry to be replaced. -/
def InRange (s : State σ nblocks) : Prop :=
  nblocks.toNat ≤ 2 ^ 31 ∨ ∃ steps ≤ nblocks.toNat, s.counter.toNat + steps < 2 ^ 32 ∧
    (steps < nblocks.toNat → (s.binfo (s.entry steps)).status ≠ .used)

variable (s : State σ nblocks)

theorem counter_le : s.counter.toNat ≤ nblocks.toNat := by
  unfold counter
  split
  · rw [UInt32.toNat_mod]
    exact Nat.le_of_lt (Nat.mod_lt _ (Nat.pos_of_neZero _))
  · rename_i small
    exact UInt32.le_iff_toNat_le.mp (UInt32.not_lt.mp small)

theorem hand_val : s.hand.val = s.counter.toNat % nblocks.toNat := by
  unfold hand counter
  rw [Fin.val_ofNat, UInt32.toNat_mod, Nat.mod_mod]
  split
  · rw [UInt32.toNat_mod, Nat.mod_mod]
  · rfl

theorem entry_val (steps : Nat) : (s.entry steps).val = (s.counter.toNat + steps) % nblocks.toNat := by
  unfold entry
  rw [Fin.val_ofNat, hand_val, Nat.mod_add_mod]

theorem distance_entry {steps : Nat} (less : steps < nblocks.toNat) : s.distance (s.entry steps) = steps := by
  have hand := s.hand.isLt
  unfold distance entry
  rw [Fin.val_ofNat]
  by_cases wraps : s.hand.val + steps < nblocks.toNat
  · rw [Nat.mod_eq_of_lt wraps, show s.hand.val + steps + nblocks.toNat - s.hand.val =
      steps + nblocks.toNat by omega, Nat.add_mod_right,
      Nat.mod_eq_of_lt less]
  · rw [Nat.mod_eq_sub_mod (Nat.le_of_not_lt wraps),
      Nat.mod_eq_of_lt (by omega : s.hand.val + steps - nblocks.toNat < nblocks.toNat),
      show s.hand.val + steps - nblocks.toNat + nblocks.toNat - s.hand.val = steps by omega, Nat.mod_eq_of_lt less]

theorem distance_lt (i : Fin nblocks.toNat) : s.distance i < nblocks.toNat := Nat.mod_lt _ (Nat.pos_of_neZero _)

theorem entry_distance (i : Fin nblocks.toNat) : s.entry (s.distance i) = i := by
  have inside := i.isLt
  have hand := s.hand.isLt
  apply Fin.ext
  unfold distance entry
  rw [Fin.val_ofNat]
  by_cases behind : i.val < s.hand.val
  · rw [Nat.mod_eq_of_lt (by omega : i.val + nblocks.toNat - s.hand.val < nblocks.toNat),
      show s.hand.val + (i.val + nblocks.toNat - s.hand.val) = i.val + nblocks.toNat by
        omega, Nat.add_mod_right, Nat.mod_eq_of_lt inside]
  · rw [show i.val + nblocks.toNat - s.hand.val = (i.val - s.hand.val) + nblocks.toNat by omega, Nat.add_mod_right,
      Nat.mod_eq_of_lt (by omega : i.val - s.hand.val < nblocks.toNat),
        show s.hand.val + (i.val - s.hand.val) = i.val by omega,
      Nat.mod_eq_of_lt inside]

/-- After a whole round every entry has been passed. -/
theorem entry_round : s.entry nblocks.toNat = s.entry 0 := by
  apply Fin.ext
  rw [entry_val, entry_val, Nat.add_mod_right, Nat.add_zero]

variable {s} {steps : Nat} {offset : BlockNo} {block : Block}

/-- Up to 2^31 entries a counter that has overflowed to 0 is at the right entry again. -/
theorem hand_swept (few : steps ≤ nblocks.toNat) (fits : s.counter.toNat + steps < 2 ^ 32 ∨ nblocks.toNat ≤ 2 ^ 31) :
    (s.swept steps).hand = s.entry steps := by
  have low := s.counter_le
  have bound := nblocks.toNat_lt
  apply Fin.ext
  change (Fin.ofNat nblocks.toNat ((s.counter + UInt32.ofNat steps) % nblocks).toNat).val = _
  rw [Fin.val_ofNat, UInt32.toNat_mod, Nat.mod_mod, UInt32.toNat_add,
    UInt32.toNat_ofNat_of_lt' (Nat.lt_of_le_of_lt few bound), entry_val]
  by_cases small : s.counter.toNat + steps < 2 ^ 32
  · rw [Nat.mod_eq_of_lt small]
  · have half : nblocks.toNat = 2 ^ 31 := by omega
    have start : s.counter.toNat = 2 ^ 31 := by omega
    have last : steps = 2 ^ 31 := by omega
    rw [half, start, last]
    rfl

theorem swept_here (less : steps < nblocks.toNat) :
    (s.swept steps).binfo (s.entry steps) = s.binfo (s.entry steps) := by
  refine if_neg ?_
  rw [s.distance_entry less]
  exact Nat.lt_irrefl _

theorem swept_zero : s.swept 0 = { s with clockHand := s.counter } := by
  unfold swept
  simp

end State

section Loop
variable {s : State σ nblocks} {steps : Nat} {offset : BlockNo} {block : Block}

theorem cacheUpdate_eq : cacheUpdate offset block s = cacheLoop offset block (nblocks.toNat + 1) (s.swept 0) := by
  rw [State.swept_zero]
  rfl

theorem cacheLoop_stops (rounds : Nat) (stale : (s.binfo s.hand).status ≠ .used) :
    cacheLoop offset block (rounds + 1) s = .done () (s.replaced offset block s.hand) := by
  unfold cacheLoop
  rw [Prog.bind_done (Prog.get_run s)]
  cases status : (s.binfo s.hand).status with
  | empty => rfl
  | unused => rfl
  | used => exact absurd status stale

theorem cacheLoop_passes (rounds : Nat) (less : steps < nblocks.toNat) (hand : (s.swept steps).hand = s.entry steps)
    (used : (s.binfo (s.entry steps)).status = .used) :
    cacheLoop offset block (rounds + 1) (s.swept steps) = cacheLoop offset block rounds (s.swept (steps + 1)) := by
  have status : ((s.swept steps).binfo (s.swept steps).hand).status = .used := by
    rw [hand, State.swept_here less]
    exact used
  have marks : ((s.swept steps).setStatus (s.swept steps).hand .unused).binfo = (s.swept (steps + 1)).binfo := by
    funext i
    change Function.update (s.swept steps).binfo (s.swept steps).hand _ i = if s.distance i < steps + 1 then _ else _
    rw [hand]
    by_cases here : i = s.entry steps
    · rw [here, Function.update_self, State.swept_here less, s.distance_entry less, if_pos (Nat.lt_succ_self steps)]
    · have elsewhere : s.distance i ≠ steps := by
        rintro rfl
        exact here (s.entry_distance i).symm
      rw [Function.update_of_ne here]
      have same : s.distance i < steps + 1 ↔ s.distance i < steps := by omega
      simp only [same]
      rfl
  have moved : (s.swept steps).clockHand + 1 = (s.swept (steps + 1)).clockHand := by
    change s.counter + UInt32.ofNat steps + 1 = s.counter + UInt32.ofNat (steps + 1)
    rw [UInt32.ofNat_add, UInt32.add_assoc]
    rfl
  have next : { (s.swept steps).setStatus (s.swept steps).hand .unused with clockHand := (s.swept steps).clockHand + 1 } =
      s.swept (steps + 1) := by
    rw [moved]
    change ({ s.swept (steps + 1) with binfo := _ } : State σ nblocks) = _
    rw [marks]
  rw [cacheLoop, Prog.bind_done (Prog.get_run _)]
  rw [status, ← next]
  rfl

theorem cacheLoop_runs (rounds : Nat) (few : steps ≤ nblocks.toNat) (hands : ∀ j < steps, (s.swept j).hand = s.entry j)
    (used : ∀ j < steps, (s.binfo (s.entry j)).status = .used) :
    cacheLoop offset block (rounds + steps) (s.swept 0) = cacheLoop offset block rounds (s.swept steps) := by
  induction steps generalizing rounds with
  | zero => rfl
  | succ steps ih =>
    rw [show rounds + (steps + 1) = rounds + 1 + steps by omega,
      ih (rounds + 1) (by omega) (fun j less => hands j (by omega)) fun j less => used j (by omega)]
    exact cacheLoop_passes rounds (by omega) (hands steps (by omega)) (used steps (by omega))

end Loop

section Sweep
variable {s : State σ nblocks} {steps : Nat} {offset : BlockNo} {block : Block}

open Classical in
theorem stops_exists (s : State σ nblocks) : ∃ steps, s.Stops steps := by
  by_cases stale : ∃ steps, ∃ i, s.distance i = steps ∧ (s.binfo i).status ≠ .used
  · obtain ⟨i, first, unused⟩ := Nat.find_spec stale
    refine ⟨Nat.find stale, Nat.le_of_lt (first ▸ s.distance_lt i), fun j less => ?_, fun _ => ?_⟩
    · by_contra other
      exact Nat.find_min stale less ⟨j, rfl, other⟩
    · rw [← first, s.entry_distance]
      exact unused
  · refine ⟨nblocks.toNat, Nat.le_refl _, fun i _ => ?_, fun less => absurd less (Nat.lt_irrefl _)⟩
    by_contra other
    exact stale ⟨_, i, rfl, other⟩

namespace State.Stops

theorem used (stops : s.Stops steps) {j : Nat} (less : j < steps) : (s.binfo (s.entry j)).status = .used := by
  have small := Nat.lt_of_lt_of_le less stops.few
  exact stops.passed _ ((s.distance_entry small).symm ▸ less)

theorem least (stops : s.Stops steps) {other : Nat}
    (stale : other < nblocks.toNat → (s.binfo (s.entry other)).status ≠ .used) : steps ≤ other := by
  by_contra less
  have before := Nat.lt_of_not_le less
  exact stale (Nat.lt_of_lt_of_le before stops.few) (stops.used before)

/-- The entry to be replaced is no longer marked when the hand gets there. -/
theorem stale (stops : s.Stops steps) : ((s.swept steps).binfo (s.entry steps)).status ≠ .used := by
  by_cases less : steps < nblocks.toNat
  · rw [State.swept_here less]
    exact stops.here less
  · have round := Nat.le_antisymm stops.few (Nat.le_of_not_lt less)
    have marked : (s.swept steps).binfo (s.entry steps) = { s.binfo (s.entry steps) with status := .unused } :=
      if_pos (round ▸ s.distance_lt _)
    rw [marked]
    exact nofun

theorem all_used (stops : s.Stops steps) (used : (s.binfo (s.entry steps)).status = .used) (i : Fin nblocks.toNat) :
    (s.binfo i).status = .used := by
  have round : ¬ steps < nblocks.toNat := fun less => stops.here less used
  exact stops.passed i (Nat.lt_of_lt_of_le (s.distance_lt i) (Nat.le_of_not_lt round))

end State.Stops

theorem cacheUpdate_replaces (stops : s.Stops steps)
    (fits : s.counter.toNat + steps < 2 ^ 32 ∨ nblocks.toNat ≤ 2 ^ 31) :
    cacheUpdate offset block s = .done () ((s.swept steps).replaced offset block (s.entry steps)) := by
  have few := stops.few
  have hands : ∀ j ≤ steps, (s.swept j).hand = s.entry j := fun j le =>
    State.hand_swept (Nat.le_trans le few) (by omega)
  have here := hands steps (Nat.le_refl _)
  rw [cacheUpdate_eq, show nblocks.toNat + 1 = nblocks.toNat - steps + 1 + steps by omega,
    cacheLoop_runs _ few (fun j less => hands j (Nat.le_of_lt less)) fun j less => stops.used less, ← here]
  apply cacheLoop_stops
  rw [here]
  exact stops.stale

/-- Where the counter overflows the sweep ends at entry 0, which it has passed before. -/
theorem cacheUpdate_overflows (stops : s.Stops steps) (many : 2 ^ 31 < nblocks.toNat)
    (past : 2 ^ 32 ≤ s.counter.toNat + steps) :
    ∃ i, s.distance i < 2 ^ 32 - s.counter.toNat ∧ (s.distance i = 0 → s.counter.toNat = nblocks.toNat) ∧
      cacheUpdate offset block s = .done () ((s.swept (2 ^ 32 - s.counter.toNat)).replaced offset block i) := by
  have few := stops.few
  have low := s.counter_le
  have bound := nblocks.toNat_lt
  have counter := s.counter.toNat_lt
  generalize turn : 2 ^ 32 - s.counter.toNat = wraps
  have zero : (s.swept wraps).clockHand = 0 := by
    apply UInt32.toNat_inj.mp
    change (s.counter + UInt32.ofNat wraps).toNat = 0
    rw [UInt32.toNat_add, UInt32.toNat_ofNat_of_lt' (show wraps < 2 ^ 32 by omega),
      show s.counter.toNat + wraps = 2 ^ 32 by omega, Nat.mod_self]
  have first : (s.swept wraps).hand = s.entry (nblocks.toNat - s.counter.toNat) := by
    apply Fin.ext
    unfold State.hand
    rw [zero, State.entry_val, show s.counter.toNat + (nblocks.toNat - s.counter.toNat) =
      nblocks.toNat by omega, Nat.mod_self, Fin.val_ofNat,
      UInt32.toNat_mod]
    simp
  have near := s.distance_entry (show nblocks.toNat - s.counter.toNat < nblocks.toNat by omega)
  refine ⟨s.entry (nblocks.toNat - s.counter.toNat), by omega, by omega, ?_⟩
  rw [cacheUpdate_eq, show nblocks.toNat + 1 = nblocks.toNat - wraps + 1 + wraps by omega,
    cacheLoop_runs _ (by omega) (fun j less => State.hand_swept (by omega) (.inl (by omega)))
      fun j less => stops.used (by omega), ← first]
  apply cacheLoop_stops
  have marked : (s.swept wraps).binfo (s.swept wraps).hand =
      { s.binfo (s.swept wraps).hand with status := .unused } := by
    refine if_pos ?_
    rw [first, near]
    omega
  rw [marked]
  exact nofun

theorem State.Sweeps.inRange {s : State σ nblocks} {offset : BlockNo} {block : Block} (sweeps : s.Sweeps offset block) :
    s.InRange := by
  obtain ⟨steps, stops, ran, _⟩ := sweeps
  by_contra overflows
  obtain ⟨many, all⟩ := not_or.mp overflows
  have past : 2 ^ 32 ≤ s.counter.toNat + steps := by
    by_contra fits
    exact all ⟨steps, stops.few, Nat.lt_of_not_le fits, stops.here⟩
  obtain ⟨i, passed, next, other⟩ := @cacheUpdate_overflows _ _ _ s steps offset block stops
    (Nat.lt_of_not_le many) past
  have same := (Outcome.done.inj (ran.symm.trans other)).2
  have few := stops.few
  have bound := nblocks.toNat_lt
  have hands : s.counter + UInt32.ofNat steps + 1 = s.counter + UInt32.ofNat (2 ^ 32 - s.counter.toNat) + 1 :=
    congrArg State.clockHand same
  have equal : steps = 2 ^ 32 - s.counter.toNat := by
    have words := congrArg UInt32.toNat ((UInt32.add_right_inj _).mp ((UInt32.add_left_inj _).mp hands))
    have counter := s.counter.toNat_lt
    have wrapped : 2 ^ 32 - s.counter.toNat < 2 ^ 32 := by omega
    rwa [UInt32.toNat_ofNat_of_lt' (Nat.lt_of_le_of_lt few bound), UInt32.toNat_ofNat_of_lt' wrapped] at words
  have apart : i ≠ s.entry steps := by
    rintro rfl
    by_cases less : steps < nblocks.toNat
    · rw [s.distance_entry less] at passed
      omega
    · have round := Nat.le_antisymm few (Nat.le_of_not_lt less)
      have start := s.distance_entry (Nat.pos_of_neZero nblocks.toNat)
      rw [round, s.entry_round] at next
      have := next start
      omega
  have marks : Function.update (s.swept steps).binfo (s.entry steps) _ i = Function.update (s.swept _).binfo i _ i :=
    congrFun (congrArg State.binfo same) i
  have marked : (s.swept steps).binfo i = { s.binfo i with status := .unused } := if_pos (equal ▸ passed)
  rw [Function.update_self, Function.update_of_ne apart, marked] at marks
  cases congrArg BlockInfo.status marks

theorem State.InRange.sweeps {s : State σ nblocks} (range : s.InRange) (offset : BlockNo) (block : Block) :
    s.Sweeps offset block := by
  obtain ⟨steps, stops⟩ := stops_exists s
  have fits : s.counter.toNat + steps < 2 ^ 32 ∨ nblocks.toNat ≤ 2 ^ 31 := by
    rcases range with low | ⟨other, _, small, stale⟩
    · exact .inr low
    · have := stops.least stale
      exact .inl (by omega)
  exact ⟨steps, stops, cacheUpdate_replaces stops fits, stops.all_used⟩

/-- The sweep replaces the entry it should if and only if the counter does not overflow before. -/
theorem cacheUpdate_sweeps_iff (s : State σ nblocks) (offset : BlockNo) (block : Block) :
    s.Sweeps offset block ↔ s.InRange :=
  ⟨State.Sweeps.inRange, fun range => range.sweeps offset block⟩

/-- A cache of two entries. -/
theorem cacheUpdate_sweeps_two :
    (clockdiskInit () fun _ => nullBlock : State Unit 2).Sweeps 7 nullBlock :=
  (cacheUpdate_sweeps_iff (clockdiskInit () fun _ => nullBlock : State Unit 2) 7 nullBlock).mpr (.inl (by decide))

end Sweep

/-! A cache with so many entries that the counter overflows in the first round. The last
entry is not in use, but entry 0 is replaced, which was. -/

instance : NeZero (2147483649 : BlockNo).toNat := ⟨by decide⟩

def hugeCache : State Unit 2147483649 where
  below := ()
  blocks _ := nullBlock
  binfo i := { status := if i.val < 2 ^ 31 then .used else .empty, offset := 0 }
  clockHand := 2147483649
  readHit := 0
  readMiss := 0
  writeHit := 0
  writeMiss := 0

theorem hugeCache_evicts :
    ¬ ∀ {σ : Type} {nblocks : BlockNo} [NeZero nblocks.toNat] (s : State σ nblocks) (offset : BlockNo) (block : Block),
    s.Missing offset → s.Sweeps offset block := by
  intro always
  have missing : hugeCache.Missing 1 := fun i _ => show (0 : BlockNo) ≠ 1 by decide
  rcases (always hugeCache 1 nullBlock missing).inRange with few | ⟨steps, _, small, stale⟩
  · exact absurd few (by decide)
  · change 2147483649 + steps < 2 ^ 32 at small
    have place : (hugeCache.entry steps).val = steps := by
      rw [State.entry_val]
      change (2147483649 + steps) % 2147483649 = steps
      omega
    refine stale (show steps < 2147483649 by omega) ?_
    change (if (hugeCache.entry steps).val < 2 ^ 31 then Status.used else .empty) = .used
    rw [place, if_pos (by omega)]

end Egos.Clockdisk
