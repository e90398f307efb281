import Egos.Proofs.FatdiskOps

/-! Formatting: what `setup_fatfreelist` writes, and the volume a formatted store
represents. The FAT blocks interleave with the count of data blocks they describe. -/

namespace Egos.Fatdisk
open Library Disk

theorem fillEntries_eq {nblocks : BlockNo} (left : Nat) : ∀ {i : UInt32} {nextFree : BlockNo} {data : Block},
    i.toNat + left = 256 → nextFree.toNat + left < 2 ^ 32 →
    (fillEntries nblocks left i nextFree data).1.toNat = nextFree.toNat + min left (nblocks.toNat - nextFree.toNat) ∧
    ∀ index < 256, wordAt (fillEntries nblocks left i nextFree data).2 index =
      if index < i.toNat then wordAt data index
      else if index - i.toNat < nblocks.toNat - nextFree.toNat then 0 else EOF := by
  induction left with
  | zero =>
    intro i nextFree data full _
    refine ⟨by rw [fillEntries, Nat.zero_min, Nat.add_zero], fun index small => ?_⟩
    rw [fillEntries, if_pos (by omega)]
  | succ left ih =>
    intro i nextFree data full small
    have advanced : (i + 1).toNat = i.toNat + 1 := by rw [UInt32.toNat_add, UInt32.toNat_one]; omega
    rw [fillEntries]
    by_cases more : nextFree < nblocks
    · have more' := UInt32.lt_iff_toNat_lt.mp more
      have counted : (nextFree + 1).toNat = nextFree.toNat + 1 := by rw [UInt32.toNat_add, UInt32.toNat_one]; omega
      obtain ⟨reached, words⟩ := @ih (i + 1) (nextFree + 1) (setWord data i 0) (by omega) (by omega)
      simp only [more, if_true]
      refine ⟨by rw [reached, counted]; omega, fun index inside => ?_⟩
      rw [words index inside, advanced, counted, wordAt_setWord, Nat.mod_eq_of_lt inside,
        Nat.mod_eq_of_lt (by omega : i.toNat < 256)]
      by_cases before : index < i.toNat
      · rw [if_pos (by omega), if_neg (by omega), if_pos before]
      · by_cases here : index = i.toNat
        · rw [if_pos (by omega), if_pos here, if_neg before, if_pos (by omega)]; rfl
        · have shifted : (index - (i.toNat + 1) < nblocks.toNat - (nextFree.toNat + 1)) ↔
              (index - i.toNat < nblocks.toNat - nextFree.toNat) := by omega
          rw [if_neg (by omega), if_neg before]
          simp only [shifted]
    · have full' : nblocks.toNat ≤ nextFree.toNat := Nat.not_lt.mp (mt UInt32.lt_iff_toNat_lt.mpr more)
      obtain ⟨reached, words⟩ := @ih (i + 1) nextFree (setWord data i (-1)) (by omega) (by omega)
      simp only [more, if_false]
      refine ⟨by rw [reached]; omega, fun index inside => ?_⟩
      rw [words index inside, advanced, wordAt_setWord, Nat.mod_eq_of_lt inside,
        Nat.mod_eq_of_lt (by omega : i.toNat < 256)]
      by_cases before : index < i.toNat
      · rw [if_pos (by omega), if_neg (by omega), if_pos before]
      · by_cases here : index = i.toNat
        · rw [if_pos (by omega), if_pos here, if_neg before, if_neg (by omega)]; rfl
        · rw [if_neg (by omega), if_neg before, if_neg (by omega), if_neg (by omega)]

/-- How the loop goes on from `rounds` FAT blocks that list `usable` data blocks. -/
structure Laid (start nblocks usable rounds : Nat) : Prop where
  atMost : start + usable + rounds ≤ nblocks + 1
  covered : usable ≤ 256 * rounds
  tight : 256 * rounds < usable + 256
  full : start + usable + rounds ≤ nblocks → usable = 256 * rounds

structure Written (start usable first last : Nat) (before after : State) : Prop where
  size : after.below.size = before.below.size
  static : after.fatblocks = before.fatblocks
  unfailed : after.failed = before.failed
  word : ∀ entry, 256 * first ≤ entry → entry < 256 * last →
    wordAt (after.below.block (start + entry / 256)) entry = if entry < usable then 0 else EOF
  other : ∀ position, position < start + first ∨ start + last ≤ position →
    after.below.block position = before.below.block position

theorem setupLoop_run {start : Nat} {nblocks : BlockNo} (fuel : Nat) :
    ∀ {state : State} {nextFree fatlistBlock nFatblocks : BlockNo} {data : Block} {usable rounds : Nat},
      state.below.size = nblocks → Laid start nblocks.toNat usable rounds → nextFree.toNat = start + usable + rounds →
      fatlistBlock.toNat = start + rounds → nFatblocks.toNat = rounds → nblocks.toNat + 2 ≤ nextFree.toNat + fuel →
      ∃ usable' rounds' count after, setupLoop nblocks fuel nextFree fatlistBlock nFatblocks data state =
        .done count after ∧
        count.toNat = rounds' ∧ Laid start nblocks.toNat usable' rounds' ∧ nblocks.toNat ≤ start + usable' + rounds' ∧
        rounds ≤ rounds' ∧ usable ≤ usable' ∧ (nblocks.toNat ≤ start + usable + rounds → usable' = usable) ∧
        Written start usable' rounds rounds' state after := by
  induction fuel with
  | zero =>
    intro state nextFree fatlistBlock nFatblocks data usable rounds sized laid free _ _ enough
    have := laid.atMost
    omega
  | succ fuel ih =>
    intro state nextFree fatlistBlock nFatblocks data usable rounds sized laid free position counted enough
    have reported := state.below.reported
    rw [sized] at reported
    have atMost := laid.atMost
    have covered := laid.covered
    have tight := laid.tight
    rw [setupLoop]
    by_cases more : nextFree < nblocks
    · have more' := UInt32.lt_iff_toNat_lt.mp more
      have even := laid.full (by omega)
      obtain ⟨reached, words⟩ := @fillEntries_eq nblocks 256 0 nextFree data rfl (by omega)
      cases filling : fillEntries nblocks FAT_PER_BLOCK.toNat 0 nextFree data with
      | mk filled block =>
      have split : fillEntries nblocks 256 0 nextFree data = (filled, block) := filling
      rw [split] at reached words
      have writable : fatlistBlock.toNat < state.below.size.toNat := by rw [position, sized]; omega
      have advanced : (filled + 1).toNat =
          start + (usable + min 256 (nblocks.toNat - nextFree.toNat)) + (rounds + 1) := by
        rw [UInt32.toNat_add, reached, UInt32.toNat_one]; omega
      have further : (fatlistBlock + 1).toNat = start + (rounds + 1) := by
        rw [UInt32.toNat_add, position, UInt32.toNat_one]; omega
      have counts : (nFatblocks + 1).toNat = rounds + 1 := by rw [UInt32.toNat_add, counted, UInt32.toNat_one]; omega
      have wider : Laid start nblocks.toNat (usable + min 256 (nblocks.toNat - nextFree.toNat)) (rounds + 1) := by
        refine ⟨?_, ?_, ?_, ?_⟩ <;> omega
      obtain ⟨usable', rounds', count, after, ran, value, laid', ended, longer, grown, stopped, written⟩ :=
        @ih (state.put fatlistBlock.toNat block) _ _ _ block _ _ sized wider advanced further counts (by omega)
      refine ⟨usable', rounds', count, after, ?_, value, laid', ended, by omega, by omega, by omega, ?_⟩
      · simp only [more, if_true]
        rw [Prog.bind_done (belowWrite_inside block writable)]
        exact ran
      · refine ⟨written.size, written.static, written.unfailed, fun entry low high => ?_, fun other outside => ?_⟩
        · by_cases here : entry < 256 * (rounds + 1)
          · have block' : start + entry / 256 = fatlistBlock.toNat := by omega
            rw [written.other _ (by omega), State.put_block, if_pos block', ← wordAt_mod, words _ (by omega)]
            have free : entry % 256 < nblocks.toNat - nextFree.toNat ↔ entry < usable' := by omega
            simp only [UInt32.toNat_zero, Nat.not_lt_zero, if_false, Nat.sub_zero, free]
          · exact written.word entry (by omega) high
        · rw [written.other _ (by omega), State.put_block, if_neg (by omega)]
    · have done := Nat.not_lt.mp (mt UInt32.lt_iff_toNat_lt.mpr more)
      simp only [more, if_false]
      refine ⟨usable, rounds, nFatblocks, state, rfl, counted,
        laid, by omega, Nat.le_refl _, Nat.le_refl _, fun _ => rfl,
        rfl, rfl, rfl, fun entry low high => ?_, fun _ _ => rfl⟩
      omega

theorem clearInodes_run (left : Nat) : ∀ {state : State} {i : BlockNo}, i.toNat + left ≤ state.below.size.toNat →
    ∃ after, clearInodes left i state = .done true after ∧ after.below.size = state.below.size ∧
      after.fatblocks = state.fatblocks ∧ after.failed = state.failed ∧ ∀ position, after.below.block position =
        if i.toNat ≤ position ∧ position < i.toNat + left then nullBlock else state.below.block position := by
  induction left with
  | zero =>
    intro state i _
    refine ⟨state, rfl, rfl, rfl, rfl, fun position => ?_⟩
    rw [if_neg (by omega)]
  | succ left ih =>
    intro state i room
    have reported := state.below.reported
    have writable : i.toNat < state.below.size.toNat := by omega
    have next : (i + 1).toNat = i.toNat + 1 := by rw [UInt32.toNat_add, UInt32.toNat_one]; omega
    obtain ⟨after, ran, size, static, unfailed, blocks⟩ :=
      @ih (state.put i.toNat nullBlock) (i + 1) (by rw [next, State.put_size]; omega)
    refine ⟨after, ?_, size, static, unfailed, fun position => ?_⟩
    · rw [clearInodes, Prog.bind_done (belowWrite_inside nullBlock writable)]
      exact ran
    · rw [blocks, next, State.put_block]
      by_cases here : position = i.toNat
      · rw [if_neg (by omega), if_pos here, if_pos (by omega)]
      · rw [if_neg here]
        have same : (i.toNat + 1 ≤ position ∧ position < i.toNat + 1 + left) ↔
            (i.toNat ≤ position ∧ position < i.toNat + (left + 1)) := by omega
        simp only [same]

def formatted (g : Geometry) (block : Nat → Block) : Volume where
  free := 0
  next entry := if entry < g.usable then 0 else EOF
  head _ := 0
  nblocks _ := 0
  data entry := block (g.dataPos entry)

/-- The sizes a store is formatted with: the FAT is no longer than it has to be. -/
structure Formats (g : Geometry) (nInodes : UInt32) (store : Store) : Prop where
  inodeblocks : g.inodeblocks = (inodeblocksFor nInodes).toNat
  size : g.size = store.size.toNat
  tight : g.fatblocks * 256 < g.usable + 256
  filled : g.size ≤ g.inodeblocks + 1 + g.fatblocks + g.usable
  even : g.inodeblocks + 1 + g.fatblocks + g.usable ≤ g.size → g.usable = g.fatblocks * 256

private theorem setupFatfreelist_run {state : State} {nInodes : UInt32}
    (room : (inodeblocksFor nInodes).toNat + 2 ≤ state.below.size.toNat) :
    ∃ g after, setupFatfreelist (inodeblocksFor nInodes + 1) state.below.size state = .done 0 after ∧
      Formats g nInodes state.below ∧ after.fatblocks.toNat = g.fatblocks ∧ after.below.size = state.below.size ∧
      after.failed = state.failed ∧
      (∀ entry < g.entries, wordAt (after.below.block (g.fatPos entry)) entry = if entry < g.usable then 0 else EOF) ∧
      ∀ entry, after.below.block (g.dataPos entry) = state.below.block (g.dataPos entry) := by
  have reported := state.below.reported
  have one : (inodeblocksFor nInodes + 1).toNat = (inodeblocksFor nInodes).toNat + 1 := by
    rw [UInt32.toNat_add, UInt32.toNat_one]; omega
  obtain ⟨usable, rounds, count, laid, ran, value, shape, ended, _, _, _, written⟩ :=
    @setupLoop_run ((inodeblocksFor nInodes).toNat + 1) state.below.size (state.below.size.toNat + 1) state
      (inodeblocksFor nInodes + 1) (inodeblocksFor nInodes + 1) 0 nullBlock 0 0 rfl
        ⟨by omega, by omega, by omega, by omega⟩
      one one rfl (by omega)
  have atMost := shape.atMost
  have covered := shape.covered
  have tight := shape.tight
  have readable : (0 : BlockNo).toNat < state.below.size.toNat := by rw [UInt32.toNat_zero]; omega
  let g : Geometry :=
    { inodeblocks := (inodeblocksFor nInodes).toNat, fatblocks := rounds, size := state.below.size.toNat, usable,
      fits := by omega, bounded := reported, covered := by omega, addressable := by omega, within := by omega,
      nonempty := by omega }
  refine ⟨g, { laid with fatblocks := count }, ?_, ⟨rfl, rfl, ?_, ?_, ?_⟩, value, written.size,
    written.unfailed, ?_, ?_⟩
  · rw [setupFatfreelist, Prog.bind_done (belowRead_inside readable)]
    simp only [Prog.bind_done ran]
    rfl
  · change rounds * 256 < usable + 256; omega
  · change state.below.size.toNat ≤ (inodeblocksFor nInodes).toNat + 1 + rounds + usable; omega
  · change (inodeblocksFor nInodes).toNat + 1 + rounds + usable ≤ state.below.size.toNat → usable = rounds * 256
    intro exact_
    have := shape.full (by omega)
    omega
  · intro entry inside
    change entry < rounds * 256 at inside
    exact written.word entry (by omega) (by omega)
  · intro entry
    refine written.other _ (.inr ?_)
    change _ ≤ (inodeblocksFor nInodes).toNat + 1 + rounds + entry
    omega

/-- Formatting a store whose super block is clear. -/
theorem fatdiskCreate_run {state : State} {nInodes : UInt32} (clear : nInodeblocks (state.below.block 0) = 0)
    (room : (inodeblocksFor nInodes).toNat + 2 ≤ state.below.size.toNat) :
    ∃ g after, fatdiskCreate nInodes state = .done 0 after ∧ Formats g nInodes state.below ∧
      Represents g (formatted g state.below.block) after ∧ after.failed = state.failed := by
  have reported := state.below.reported
  have two : (inodeblocksFor nInodes + 2).toNat = (inodeblocksFor nInodes).toNat + 2 := by
    rw [UInt32.toNat_add]
    change (_ + 2) % 2 ^ 32 = _
    omega
  have enough : ¬ state.below.size < inodeblocksFor nInodes + 2 := by
    rw [UInt32.lt_iff_toNat_lt, two]; omega
  have readable : (0 : BlockNo).toNat < state.below.size.toNat := by rw [UInt32.toNat_zero]; omega
  obtain ⟨g, laid, ran, formats, count, size, unfailed, words, data⟩ := setupFatfreelist_run room
  have writable : (0 : BlockNo).toNat < laid.below.size.toNat := by rw [size]; exact readable
  have fits := g.fits
  have inodeblocks := formats.inodeblocks
  have sized := formats.size
  obtain ⟨after, cleared, lastSize, static, lastUnfailed, blocks⟩ :=
    @clearInodes_run (inodeblocksFor nInodes).toNat
      (laid.put 0 (setWord (setWord (setWord nullBlock 0 (inodeblocksFor nInodes)) 2 0) 1 laid.fatblocks)) 1
      (by rw [State.put_size, size, UInt32.toNat_one]; omega)
  refine ⟨g, after, ?_, formats, ?_, lastUnfailed.trans unfailed⟩
  · have wrote := belowWrite_inside
      (setWord (setWord (setWord nullBlock 0 (inodeblocksFor nInodes)) 2 0) 1 laid.fatblocks) writable
    rw [fatdiskCreate, Prog.bind_done (Prog.get_run state)]
    simp only [enough, if_false]
    rw [Prog.bind_done (belowRead_inside readable)]
    simp only [UInt32.toNat_zero, clear, if_true]
    rw [Prog.bind_done ran, Prog.bind_done (Prog.get_run laid), Prog.bind_done wrote]
    simp only [Bool.not_true, Bool.false_eq_true, if_false]
    rw [UInt32.toNat_zero, Prog.bind_done cleared]
    rfl
  · have super : after.below.block 0 =
        setWord (setWord (setWord nullBlock 0 (inodeblocksFor nInodes)) 2 0) 1 laid.fatblocks := by
      rw [blocks, UInt32.toNat_one, if_neg (by omega), State.put_block, if_pos rfl]
    have inode : ∀ inode < g.inodes, after.below.block (inodePos inode) = nullBlock := by
      intro inode known
      have low := g.inodePos_le known
      rw [blocks, UInt32.toNat_one, if_pos (by unfold inodePos at *; omega)]
    have beyond : ∀ position, g.inodeblocks < position → after.below.block position = laid.below.block position := by
      intro position high
      rw [blocks, UInt32.toNat_one, if_neg (by omega), State.put_block, if_neg (by omega)]
    refine ⟨?_, ?_, ?_, ?_, ?_, ?_, ?_, ?_, ?_⟩
    · rw [lastSize, State.put_size, size, sized]
    · rw [static, State.put_fatblocks, count]
    · rw [super, inodeblocks]; rfl
    · rw [super, ← count]; rfl
    · rw [super]; rfl
    · intro entry inside
      rw [beyond _ (by unfold Geometry.fatPos; omega), words entry inside]; rfl
    · intro known small
      rw [inode known small]; rfl
    · intro known small
      rw [inode known small]; rfl
    · intro entry _
      rw [beyond _ (by unfold Geometry.dataPos; omega), data]; rfl

end Egos.Fatdisk
