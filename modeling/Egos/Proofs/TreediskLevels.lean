import Egos.Block.Treedisk
import Egos.Library.RefTree

/-! How many levels a file has, and which way an offset takes through them. -/

namespace Egos.Treedisk
open Library Library.RefTree

variable (z : BlockSize)

theorem logRpb_pos : 0 < z.logRpb := by
  cases z <;> decide

theorem refs_pow (l : Nat) : z.refs ^ l = 2 ^ (l * z.logRpb) := by
  unfold BlockSize.refs
  rw [← Nat.pow_mul, Nat.mul_comm]

/-- After 32 levels all bits are gone. -/
theorem word_lt_pow (x : BlockNo) {l : Nat} (high : 32 ≤ l * z.logRpb) : x.toNat < z.refs ^ l := by
  rw [refs_pow]
  exact Nat.lt_of_lt_of_le x.toNat_lt (Nat.pow_le_pow_right (by decide) high)

theorem logShiftR_toNat (x : BlockNo) (l : Nat) : (logShiftR x (l * z.logRpb)).toNat = x.toNat / z.refs ^ l := by
  unfold logShiftR
  split
  · rename_i high
    rw [Nat.div_eq_of_lt (word_lt_pow z x high)]
    rfl
  · rename_i low
    have small : l * z.logRpb < 32 := Nat.lt_of_not_ge low
    rw [UInt32.toNat_shiftRight, UInt32.toNat_ofNat', Nat.mod_mod_of_dvd _ (by decide), Nat.mod_eq_of_lt small,
      Nat.shiftRight_eq_div_pow, refs_pow]

theorem index_eq (offset : BlockNo) (l : Nat) : index z offset l = digit z.refs l offset.toNat := by
  unfold index digit
  rw [logShiftR_toNat]

private theorem levelsLoop_spec (x : BlockNo) (rounds n : Nat) (enough : 32 ≤ rounds + n)
    (short : ∀ l, l < n → z.refs ^ l ≤ x.toNat) :
    x.toNat < z.refs ^ levelsLoop z x rounds n ∧ ∀ l, l < levelsLoop z x rounds n → z.refs ^ l ≤ x.toNat := by
  induction rounds generalizing n with
  | zero =>
    have high : 32 ≤ n * z.logRpb := Nat.le_trans (by omega) (Nat.le_mul_of_pos_right n (logRpb_pos z))
    exact ⟨word_lt_pow z x high, short⟩
  | succ rounds ih =>
    unfold levelsLoop
    split
    · rename_i more
      apply ih (n + 1) (by omega)
      intro l less
      rcases Nat.lt_or_eq_of_le (Nat.le_of_lt_succ less) with below | rfl
      · exact short l below
      · apply Nat.le_of_not_lt
        intro fits
        apply more
        apply UInt32.toNat_inj.mp
        rw [logShiftR_toNat, Nat.div_eq_of_lt fits]
        rfl
    · rename_i done
      refine ⟨?_, short⟩
      have zero := congrArg UInt32.toNat (Decidable.not_not.mp done)
      rw [logShiftR_toNat] at zero
      exact (Nat.div_eq_zero_iff_lt (Nat.pow_pos (NeZero.pos z.refs))).mp zero

/-- The least number of levels for which the last block number fits. -/
theorem levelsFor_spec (last : BlockNo) :
    last.toNat < z.refs ^ levelsFor z last ∧ ∀ l, l < levelsFor z last → z.refs ^ l ≤ last.toNat :=
  levelsLoop_spec z last 32 0 (by omega) fun l less => absurd less (Nat.not_lt_zero l)

theorem levelsFor_unique {last : BlockNo} {levels : Nat} (fits : last.toNat < z.refs ^ levels)
    (least : ∀ l, l < levels → z.refs ^ l ≤ last.toNat) : levelsFor z last = levels := by
  obtain ⟨enough, needed⟩ := levelsFor_spec z last
  apply Nat.le_antisymm
  · apply Nat.le_of_not_lt
    intro less
    exact absurd fits (Nat.not_lt.mpr (needed levels less))
  · apply Nat.le_of_not_lt
    intro less
    exact absurd enough (Nat.not_lt.mpr (least _ less))

theorem levelsFor_mono {first second : BlockNo} (le : first.toNat ≤ second.toNat) :
    levelsFor z first ≤ levelsFor z second := by
  apply Nat.le_of_not_lt
  intro less
  have needed := (levelsFor_spec z first).2 _ less
  exact absurd (levelsFor_spec z second).1 (Nat.not_lt.mpr (Nat.le_trans needed le))

/-- Once the capacity has overflowed the loop does not end. -/
private theorem capacityLoop_overflow {nblocks : BlockNo} (some : nblocks ≠ 0) (rounds level : Nat) :
    capacityLoop z nblocks rounds level 0 = none := by
  induction rounds generalizing level with
  | zero => rfl
  | succ rounds ih =>
    unfold capacityLoop
    rw [if_pos (UInt32.pos_iff_ne_zero.mpr some), UInt32.zero_mul]
    exact ih (level + 1)

private theorem refs_toNat : (UInt32.ofNat z.refs).toNat = z.refs := by
  cases z <;> rfl

private theorem capacity_step {capacity : BlockNo} {level : Nat} (exact_ : capacity.toNat = z.refs ^ level) :
    (capacity * UInt32.ofNat z.refs).toNat = z.refs ^ (level + 1) ∨ capacity * UInt32.ofNat z.refs = 0 := by
  have next : (capacity * UInt32.ofNat z.refs).toNat = z.refs ^ (level + 1) % 2 ^ 32 := by
    rw [UInt32.toNat_mul, refs_toNat, exact_, ← Nat.pow_succ]
  by_cases fits : z.refs ^ (level + 1) < 2 ^ 32
  · exact .inl (next.trans (Nat.mod_eq_of_lt fits))
  · refine .inr (UInt32.toNat_inj.mp (next.trans ?_))
    rw [refs_pow] at fits ⊢
    apply Nat.mod_eq_zero_of_dvd
    apply Nat.pow_dvd_pow
    exact Nat.le_of_not_lt fun less => fits (Nat.pow_lt_pow_right (by decide) less)

/-- The highest power of `REFS_PER_BLOCK` that an unsigned int can hold. -/
def BlockSize.top (z : BlockSize) : Nat := 31 / z.logRpb

private theorem refs_top {l : Nat} : z.refs ^ l < 2 ^ 32 ↔ l ≤ z.top := by
  rw [refs_pow, Nat.pow_lt_pow_iff_right (by decide), BlockSize.top, Nat.le_div_iff_mul_le (logRpb_pos z)]
  exact Nat.lt_succ_iff

private theorem capacityLoop_spec {nblocks : BlockNo} (some : nblocks ≠ 0) {rounds level found : Nat}
    {capacity : BlockNo}
    (exact_ : capacity.toNat = z.refs ^ level) (short : ∀ l, l < level → z.refs ^ l < nblocks.toNat)
    (ends : capacityLoop z nblocks rounds level capacity = Option.some found) :
    nblocks.toNat ≤ z.refs ^ found ∧ (∀ l, l < found → z.refs ^ l < nblocks.toNat) ∧ found ≤ z.top := by
  induction rounds generalizing level capacity with
  | zero => cases ends
  | succ rounds ih =>
    unfold capacityLoop at ends
    split at ends
    · rename_i small
      rw [UInt32.lt_iff_toNat_lt, exact_] at small
      rcases capacity_step z exact_ with next | overflow
      · refine ih next ?_ ends
        intro l less
        rcases Nat.lt_or_eq_of_le (Nat.le_of_lt_succ less) with below | rfl
        · exact short l below
        · exact small
      · rw [overflow, capacityLoop_overflow z some] at ends
        cases ends
    · rename_i large
      cases ends
      rw [UInt32.lt_iff_toNat_lt, exact_] at large
      exact ⟨Nat.le_of_not_lt large, short, (refs_top z).mp (exact_ ▸ capacity.toNat_lt)⟩

/-- The capacity does not overflow before it reaches a size up to the highest power. -/
private theorem capacityLoop_reaches {nblocks : BlockNo} (small : nblocks.toNat ≤ z.refs ^ z.top)
    (rounds : Nat) {level : Nat}
    {capacity : BlockNo} (exact_ : capacity.toNat = z.refs ^ level) (enough : z.top < rounds + level) :
    ∃ found, capacityLoop z nblocks rounds level capacity = some found := by
  have more : ∀ {l}, z.refs ^ l < nblocks.toNat → l < z.top := fun {l} less => by
    rw [refs_pow] at less small
    exact Nat.lt_of_mul_lt_mul_right ((Nat.pow_lt_pow_iff_right (by decide : 1 < 2)).mp (Nat.lt_of_lt_of_le less small))
  induction rounds generalizing level capacity with
  | zero =>
    have := (refs_top z).mp (exact_ ▸ capacity.toNat_lt)
    omega
  | succ rounds ih =>
    unfold capacityLoop
    split
    · rename_i less
      rw [UInt32.lt_iff_toNat_lt, exact_] at less
      have next := (refs_top z).mpr (Nat.succ_le_of_lt (more less))
      rcases capacity_step z exact_ with grown | overflow
      · exact ih grown (by omega)
      · have value : (capacity * UInt32.ofNat z.refs).toNat = z.refs ^ (level + 1) := by
          rw [UInt32.toNat_mul, refs_toNat, exact_, ← Nat.pow_succ, Nat.mod_eq_of_lt next]
        exact ih value (by omega)
    · exact ⟨level, rfl⟩

omit z in
theorem last_toNat {size : BlockNo} (some : size > 0) : (size - 1).toNat = size.toNat - 1 :=
  UInt32.toNat_sub_of_le _ _ (UInt32.le_iff_toNat_le.mpr (UInt32.lt_iff_toNat_lt.mp some))

theorem levelsOf_one : levelsOf z 1 = 0 := by
  unfold levelsOf
  rw [if_pos (by decide)]
  exact levelsFor_unique z Nat.zero_lt_one fun l less => absurd less (Nat.not_lt_zero l)

/-- The loop of treedisk_free_file finds the levels of the file, if it ends. -/
theorem capacityLoop_levels {nblocks : BlockNo} {rounds found : Nat} (several : 1 < nblocks.toNat)
    (ends : capacityLoop z nblocks rounds 1 (UInt32.ofNat z.refs) = some found) : found = levelsOf z nblocks := by
  have nonzero : nblocks ≠ 0 := by
    rintro rfl
    cases several
  obtain ⟨enough, needed, _⟩ := capacityLoop_spec z nonzero ((refs_toNat z).trans (Nat.pow_one _).symm)
    (fun l less => by rw [Nat.lt_one_iff.mp less, Nat.pow_zero]; exact several) ends
  have last : (nblocks - 1).toNat = nblocks.toNat - 1 :=
    UInt32.toNat_sub_of_le _ _ (UInt32.le_iff_toNat_le.mpr (Nat.le_of_lt several))
  unfold levelsOf
  rw [if_pos (UInt32.pos_iff_ne_zero.mpr nonzero)]
  refine (levelsFor_unique z ?_ fun l less => ?_).symm
  · omega
  · have := needed l less
    omega

/-- Eight rounds are enough, unless the capacity overflows. -/
theorem capacityLoop_ends {nblocks : BlockNo} (small : nblocks.toNat ≤ z.refs ^ z.top) :
    ∃ found, capacityLoop z nblocks 8 1 (UInt32.ofNat z.refs) = some found :=
  capacityLoop_reaches z small 8 ((refs_toNat z).trans (Nat.pow_one _).symm) (by cases z <;> decide)

/-- The depth that treedisk_free_file gives a file: the one at which its loop ends, after
however many rounds, and none for a single block. -/
def FreesLevels (nblocks : BlockNo) (level : Nat) : Prop :=
  if nblocks = 1 then level = 0 else ∃ rounds, capacityLoop z nblocks rounds 1 (UInt32.ofNat z.refs) = some level

theorem FreesLevels.fits {nblocks : BlockNo} {level : Nat} (some : 1 ≤ nblocks) (frees : FreesLevels z nblocks level) :
    nblocks.toNat ≤ z.refs ^ z.top := by
  unfold FreesLevels at frees
  have le : 1 ≤ nblocks.toNat := UInt32.le_iff_toNat_le.mp some
  by_cases one : nblocks = 1
  · subst one
    exact Nat.pow_pos (NeZero.pos z.refs)
  · rw [if_neg one] at frees
    have other : nblocks.toNat ≠ 1 := fun same => one (UInt32.toNat_inj.mp same)
    have several : 1 < nblocks.toNat := by omega
    have nonzero : nblocks ≠ 0 := by
      rintro rfl
      cases le
    obtain ⟨rounds, ends⟩ := frees
    obtain ⟨enough, _, low⟩ := capacityLoop_spec z nonzero ((refs_toNat z).trans (Nat.pow_one _).symm)
      (fun l less => by rw [Nat.lt_one_iff.mp less, Nat.pow_zero]; exact several) ends
    exact Nat.le_trans enough (Nat.pow_le_pow_right (NeZero.pos z.refs) low)

theorem freesLevels_of_fits {nblocks : BlockNo} (some : 1 ≤ nblocks) (small : nblocks.toNat ≤ z.refs ^ z.top) :
    FreesLevels z nblocks (levelsFor z (nblocks - 1)) := by
  unfold FreesLevels
  have le : 1 ≤ nblocks.toNat := UInt32.le_iff_toNat_le.mp some
  split
  · rename_i one
    subst one
    exact levelsOf_one z
  · rename_i notOne
    have other : nblocks.toNat ≠ 1 := fun same => notOne (UInt32.toNat_inj.mp same)
    have several : 1 < nblocks.toNat := by omega
    have positive : nblocks > 0 := UInt32.lt_iff_toNat_lt.mpr le
    obtain ⟨found, ends⟩ := capacityLoop_ends z small
    have same := capacityLoop_levels z several ends
    unfold levelsOf at same
    rw [if_pos positive] at same
    exact ⟨8, same ▸ ends⟩

/-- The depth is that of reading, writing and checking if and only if the capacity does not
overflow; else the loop does not end. -/
theorem freesLevels_iff {nblocks : BlockNo} (some : 1 ≤ nblocks) :
    FreesLevels z nblocks (levelsFor z (nblocks - 1)) ↔ nblocks.toNat ≤ z.refs ^ z.top :=
  ⟨FreesLevels.fits z some, freesLevels_of_fits z some⟩

/-- A file of 129 blocks of 512 bytes. -/
theorem freesLevels_two : FreesLevels .small 129 2 :=
  (freesLevels_iff .small (by decide)).mpr (by decide)

/-- A single block at the offset 2^28 makes a file that cannot be truncated. -/
theorem freesLevels_overflow :
    ¬ ∀ (z : BlockSize) (nblocks : BlockNo), 1 ≤ nblocks → FreesLevels z nblocks (levelsFor z (nblocks - 1)) :=
  fun always => absurd (FreesLevels.fits .small (by decide) (always .small (2 ^ 28 + 1) (by decide))) (by decide)

end Egos.Treedisk
