import Egos.Proofs.FatdiskAlloc
import Egos.Proofs.FatdiskGrowth

/-! The loops of fatdisk.c on a represented volume: walking a chain, lengthening
a file, and freeing it. Each acts as the operation of the same purpose on volumes. -/

namespace Egos.Fatdisk
open Library Disk

theorem toNat_headIndex (inode : UInt32) : (2 * (inode % INODES_PER_BLOCK)).toNat = 2 * (inode.toNat % 128) := by
  rw [UInt32.toNat_mul, toNat_mod_inodes]
  change 2 * (inode.toNat % 128) % 2 ^ 32 = _
  omega

theorem toNat_nblocksIndex (inode : UInt32) :
    (2 * (inode % INODES_PER_BLOCK) + 1).toNat = 2 * (inode.toNat % 128) + 1 := by
  rw [UInt32.toNat_add, toNat_headIndex, UInt32.toNat_one]
  omega

structure Snapshot.Matches (snapshot : Snapshot) (state : State) : Prop where
  superblock : snapshot.superblock = state.below.block 0
  inodeblock : snapshot.inodeblock = state.below.block (inodePos snapshot.inodeNo.toNat)
  inodeBlockno : snapshot.inodeBlockno.toNat = inodePos snapshot.inodeNo.toNat

section
variable {g : Geometry} {v : Volume} {state : State} {snapshot : Snapshot}

theorem Snapshot.Matches.head_eq (same : snapshot.Matches state) (held : Represents g v state)
    (known : snapshot.inodeNo.toNat < g.inodes) : snapshot.head.toNat = v.head snapshot.inodeNo.toNat := by
  rw [Snapshot.head, toNat_word, toNat_headIndex, same.inodeblock]
  exact held.head _ known

theorem Snapshot.Matches.nblocks_eq (same : snapshot.Matches state) (held : Represents g v state)
    (known : snapshot.inodeNo.toNat < g.inodes) : snapshot.nblocks.toNat = v.nblocks snapshot.inodeNo.toNat := by
  rw [Snapshot.nblocks, toNat_word, toNat_nblocksIndex, same.inodeblock]
  exact held.nblocks _ known

theorem fatdiskGetSnapshot_run (held : Represents g v state) {inode : UInt32} (known : inode.toNat < g.inodes) :
    ∃ snapshot, fatdiskGetSnapshot inode state = .done (some snapshot) state ∧ snapshot.inodeNo = inode ∧
      snapshot.Matches state := by
  have position : (1 + inode / INODES_PER_BLOCK : UInt32).toNat = inodePos inode.toNat := by
    have group : (inode / INODES_PER_BLOCK).toNat = inode.toNat / 128 := rfl
    have := inode.toNat_lt
    rw [UInt32.toNat_add, group, UInt32.toNat_one, inodePos]
    omega
  have readable : (1 + inode / INODES_PER_BLOCK : UInt32).toNat < state.below.size.toNat := by
    have := g.inodePos_le known
    have := g.fits
    rw [position, held.size]; omega
  have inside : ¬ inode.toNat ≥ (nInodeblocks (state.below.block 0)).toNat * INODES_PER_BLOCK.toNat := by
    rw [held.nInodeblocks_eq]; exact Nat.not_le.mpr known
  refine ⟨⟨state.below.block 0, state.below.block (inodePos inode.toNat), 1 + inode / INODES_PER_BLOCK, inode⟩, ?_, rfl,
    rfl, rfl, position⟩
  rw [fatdiskGetSnapshot, Prog.bind_done held.read_super]
  simp only [inside, if_false]
  rw [Prog.bind_done (belowRead_inside readable), position]
  rfl

theorem fatdiskGetSnapshot_unknown (held : Represents g v state) {inode : UInt32} (unknown : g.inodes ≤ inode.toNat) :
    fatdiskGetSnapshot inode state = .done none state := by
  have outside : inode.toNat ≥ (nInodeblocks (state.below.block 0)).toNat * INODES_PER_BLOCK.toNat := by
    rw [held.nInodeblocks_eq]; exact unknown
  rw [fatdiskGetSnapshot, Prog.bind_done held.read_super]
  simp only [outside, if_true]
  rfl

/-- The FAT block of an entry holds the entry's successor. -/
theorem Represents.successor (held : Represents g v state) {entry : UInt32} (inside : entry.toNat < g.entries) :
    (word (state.below.block (g.fatPos entry.toNat)) (entry % FAT_PER_BLOCK)).toNat = v.next entry.toNat := by
  rw [toNat_word, toNat_mod_entries, wordAt_mod]
  exact held.next _ inside

theorem traverseLoop_run (held : Represents g v state) (steps : Nat) : ∀ start : FatEntryNo,
    (∀ step < steps, v.next^[step] start.toNat < g.entries) →
    ∃ reached : FatEntryNo, traverseLoop steps start state = .done reached state ∧
      reached.toNat = v.next^[steps] start.toNat := by
  induction steps with
  | zero => intro start _; exact ⟨start, rfl, rfl⟩
  | succ steps ih =>
    intro start inside
    have first : start.toNat < g.entries := inside 0 (by omega)
    obtain ⟨bno, located, position, readable⟩ := held.findFatBlockno_run first
    have successor := held.successor first
    obtain ⟨reached, walked, value⟩ := ih (word (state.below.block bno.toNat) (start % FAT_PER_BLOCK)) (by
      intro step small
      rw [position, successor]
      exact inside (step + 1) (by omega))
    refine ⟨reached, ?_, ?_⟩
    · rw [traverseLoop, Prog.bind_done located, Prog.bind_done (belowRead_inside readable)]
      exact walked
    · rw [value, position, successor]; rfl

theorem fatdiskTraverse_run (held : Represents g v state) {inode : UInt32} (known : inode.toNat < g.inodes)
    {offset : BlockNo} (below : offset.toNat < v.nblocks inode.toNat)
    (inside : ∀ step < offset.toNat, v.next^[step] (v.head inode.toNat) < g.entries) :
    ∃ reached : FatEntryNo, fatdiskTraverse inode offset state = .done reached state ∧
      reached.toNat = v.next^[offset.toNat] (v.head inode.toNat) := by
  obtain ⟨snapshot, taken, rfl, same⟩ := fatdiskGetSnapshot_run held known
  have head := same.head_eq held known
  have within : ¬ offset ≥ snapshot.nblocks := by
    rw [ge_iff_le, UInt32.le_iff_toNat_le, same.nblocks_eq held known]; omega
  obtain ⟨reached, walked, value⟩ := traverseLoop_run held offset.toNat snapshot.head (by rwa [head])
  refine ⟨reached, ?_, by rw [value, head]⟩
  rw [fatdiskTraverse, Prog.bind_done taken]
  simp only [within, if_false]
  exact walked

theorem Represents.fail (held : Represents g v state) : Represents g v { state with failed := true } :=
  ⟨held.size, held.static, held.inodeblocks, held.fatblocks, held.free, held.next, held.head, held.nblocks, held.data⟩

/-- Reading the block of an entry; the block of the last entry may lie past the store. -/
theorem readLoop_run (held : Represents g v state) (steps : Nat) : ∀ start : FatEntryNo,
    (∀ step < steps, v.next^[step] start.toNat < g.entries) → g.dataPos (v.next^[steps] start.toNat) < 2 ^ 32 →
    readLoop steps start state =
      if g.dataPos (v.next^[steps] start.toNat) < g.size then .done (some (v.data (v.next^[steps] start.toNat))) state
      else .done none { state with failed := true } := by
  induction steps with
  | zero =>
    intro start _ small
    obtain ⟨bno, located, position⟩ := held.fatentryToDatablock_run small
    rw [readLoop, Prog.bind_done located]
    change _ = if g.dataPos start.toNat < g.size then _ else _
    by_cases stored : g.dataPos start.toNat < g.size
    · rw [belowRead_inside (by rwa [held.size, position]), position, held.data _ stored, if_pos stored]; rfl
    · rw [belowRead_outside (by rw [held.size, position]; omega), if_neg stored]
  | succ steps ih =>
    intro start inside small
    have first : start.toNat < g.entries := inside 0 (by omega)
    obtain ⟨bno, located, position, readable⟩ := held.findFatBlockno_run first
    have successor := held.successor first
    rw [← position] at successor
    have rest := ih (word (state.below.block bno.toNat) (start % FAT_PER_BLOCK))
    rw [successor] at rest
    rw [readLoop, Prog.bind_done located, Prog.bind_done (belowRead_inside readable)]
    exact rest (fun step below => inside (step + 1) (by omega)) small

theorem fatdiskRead_run (held : Represents g v state) {inode : UInt32} (known : inode.toNat < g.inodes)
    {offset : BlockNo} (below : offset.toNat < v.nblocks inode.toNat)
    (inside : ∀ step < offset.toNat, v.next^[step] (v.head inode.toNat) < g.entries)
    (small : g.dataPos (v.next^[offset.toNat] (v.head inode.toNat)) < 2 ^ 32) :
    fatdiskRead inode offset state =
      if g.dataPos (v.next^[offset.toNat] (v.head inode.toNat)) < g.size
      then .done (some (v.data (v.next^[offset.toNat] (v.head inode.toNat)))) state
      else .done none { state with failed := true } := by
  obtain ⟨snapshot, taken, rfl, same⟩ := fatdiskGetSnapshot_run held known
  have head := same.head_eq held known
  have within : ¬ offset ≥ snapshot.nblocks := by
    rw [ge_iff_le, UInt32.le_iff_toNat_le, same.nblocks_eq held known]; omega
  rw [fatdiskRead, Prog.bind_done taken]
  simp only [within, if_false]
  rw [← head] at inside small ⊢
  exact readLoop_run held offset.toNat snapshot.head inside small

theorem fatdiskRead_unknown (held : Represents g v state) {inode : UInt32} (unknown : g.inodes ≤ inode.toNat)
    (offset : BlockNo) : fatdiskRead inode offset state = .done none state := by
  rw [fatdiskRead, Prog.bind_done (fatdiskGetSnapshot_unknown held unknown)]
  rfl

theorem fatdiskNblocks_unknown (held : Represents g v state) {inode : UInt32} (unknown : g.inodes ≤ inode.toNat) :
    fatdiskNblocks inode state = .done (-1) state := by
  rw [fatdiskNblocks, Prog.bind_done (fatdiskGetSnapshot_unknown held unknown)]
  rfl

theorem fatdiskSetsize_unknown (held : Represents g v state) {inode : UInt32} (unknown : g.inodes ≤ inode.toNat)
    (nblocks : BlockNo) : fatdiskSetsize inode nblocks state = .halted .uninitialized state := by
  rw [fatdiskSetsize, Prog.bind_done (fatdiskGetSnapshot_unknown held unknown)]
  rfl

theorem fatdiskRead_past (held : Represents g v state) {inode : UInt32} (known : inode.toNat < g.inodes)
    {offset : BlockNo} (past : v.nblocks inode.toNat ≤ offset.toNat) :
    fatdiskRead inode offset state = .done none state := by
  obtain ⟨snapshot, taken, rfl, same⟩ := fatdiskGetSnapshot_run held known
  have outside : offset ≥ snapshot.nblocks := by
    rw [ge_iff_le, UInt32.le_iff_toNat_le, same.nblocks_eq held known]; exact past
  rw [fatdiskRead, Prog.bind_done taken]
  simp only [outside, if_true]
  rfl

/-! Lengthening a file. The inode is edited in memory and written back at the end
of each round. -/

structure Snapshot.Edits (snapshot : Snapshot) (state : State) : Prop where
  superblock : snapshot.superblock = state.below.block 0
  inodeBlockno : snapshot.inodeBlockno.toNat = inodePos snapshot.inodeNo.toNat
  others : ∀ index < 256, index / 2 ≠ snapshot.inodeNo.toNat % 128 →
    wordAt snapshot.inodeblock index = wordAt (state.below.block (inodePos snapshot.inodeNo.toNat)) index

namespace Snapshot

@[simp] theorem setHead_inodeNo (snapshot : Snapshot) (entry : FatEntryNo) :
    (snapshot.setHead entry).inodeNo = snapshot.inodeNo := rfl

@[simp] theorem setNblocks_inodeNo (snapshot : Snapshot) (nblocks : BlockNo) :
    (snapshot.setNblocks nblocks).inodeNo = snapshot.inodeNo := rfl

theorem Matches.edits (same : snapshot.Matches state) : snapshot.Edits state :=
  ⟨same.superblock, same.inodeBlockno, fun _ _ _ => by rw [same.inodeblock]⟩

theorem wordAt_setHead (snapshot : Snapshot) (entry : FatEntryNo) {index : Nat} (small : index < 256) :
    wordAt (snapshot.setHead entry).inodeblock index =
      if index = 2 * (snapshot.inodeNo.toNat % 128) then entry.toNat else wordAt snapshot.inodeblock index := by
  rw [setHead, wordAt_setWord, toNat_headIndex, Nat.mod_eq_of_lt small, Nat.mod_eq_of_lt (by omega)]

theorem wordAt_setNblocks (snapshot : Snapshot) (nblocks : BlockNo) {index : Nat} (small : index < 256) :
    wordAt (snapshot.setNblocks nblocks).inodeblock index =
      if index = 2 * (snapshot.inodeNo.toNat % 128) + 1 then nblocks.toNat else wordAt snapshot.inodeblock index := by
  rw [setNblocks, wordAt_setWord, toNat_nblocksIndex, Nat.mod_eq_of_lt small, Nat.mod_eq_of_lt (by omega)]

theorem toNat_head (snapshot : Snapshot) :
    snapshot.head.toNat = wordAt snapshot.inodeblock (2 * (snapshot.inodeNo.toNat % 128)) := by
  rw [head, toNat_word, toNat_headIndex]

theorem toNat_nblocks (snapshot : Snapshot) :
    snapshot.nblocks.toNat = wordAt snapshot.inodeblock (2 * (snapshot.inodeNo.toNat % 128) + 1) := by
  rw [nblocks, toNat_word, toNat_nblocksIndex]

@[simp] theorem setHead_head (snapshot : Snapshot) (entry : FatEntryNo) : (snapshot.setHead entry).head = entry := by
  apply UInt32.toNat_inj.mp
  rw [toNat_head, wordAt_setHead _ _ (by omega)]
  exact if_pos rfl

@[simp] theorem setHead_nblocks (snapshot : Snapshot) (entry : FatEntryNo) :
    (snapshot.setHead entry).nblocks = snapshot.nblocks := by
  apply UInt32.toNat_inj.mp
  rw [toNat_nblocks, toNat_nblocks, wordAt_setHead _ _ (by omega)]
  exact if_neg (by rw [setHead_inodeNo]; omega)

@[simp] theorem setNblocks_nblocks (snapshot : Snapshot) (nblocks : BlockNo) :
    (snapshot.setNblocks nblocks).nblocks = nblocks := by
  apply UInt32.toNat_inj.mp
  rw [toNat_nblocks, wordAt_setNblocks _ _ (by omega)]
  exact if_pos rfl

@[simp] theorem setNblocks_head (snapshot : Snapshot) (nblocks : BlockNo) :
    (snapshot.setNblocks nblocks).head = snapshot.head := by
  apply UInt32.toNat_inj.mp
  rw [toNat_head, toNat_head, wordAt_setNblocks _ _ (by omega)]
  exact if_neg (by rw [setNblocks_inodeNo]; omega)

theorem Edits.setHead (edits : snapshot.Edits state) (entry : FatEntryNo) : (snapshot.setHead entry).Edits state := by
  refine ⟨edits.superblock, edits.inodeBlockno, fun index small apart => ?_⟩
  rw [setHead_inodeNo] at apart
  rw [wordAt_setHead _ _ small, if_neg (by omega)]
  exact edits.others index small apart

theorem Edits.setNblocks (edits : snapshot.Edits state) (nblocks : BlockNo) :
    (snapshot.setNblocks nblocks).Edits state := by
  refine ⟨edits.superblock, edits.inodeBlockno, fun index small apart => ?_⟩
  rw [setNblocks_inodeNo] at apart
  rw [wordAt_setNblocks _ _ small, if_neg (by omega)]
  exact edits.others index small apart

end Snapshot

/-- Writing the inode block of a snapshot makes the store below agree with it. -/
theorem writeInode_run (held : Represents g v state) (edits : snapshot.Edits state)
    (known : snapshot.inodeNo.toNat < g.inodes) :
    ∃ written, belowWrite snapshot.inodeBlockno snapshot.inodeblock state = .done true written ∧
      Represents g { v with
        head := Function.update v.head snapshot.inodeNo.toNat snapshot.head.toNat
        nblocks := Function.update v.nblocks snapshot.inodeNo.toNat snapshot.nblocks.toNat } written ∧
      snapshot.Matches written ∧ written.failed = state.failed := by
  have low := g.inodePos_le known
  have fits := g.fits
  have nonzero : 0 ≠ inodePos snapshot.inodeNo.toNat := by unfold inodePos; omega
  have writable : snapshot.inodeBlockno.toNat < state.below.size.toNat := by
    rw [edits.inodeBlockno, held.size]; omega
  refine ⟨_, belowWrite_inside _ writable, ?_, ?_, rfl⟩
  · rw [edits.inodeBlockno]
    exact held.put_inode known snapshot.toNat_head.symm snapshot.toNat_nblocks.symm edits.others
  · rw [edits.inodeBlockno]
    refine ⟨?_, ?_, edits.inodeBlockno⟩
    · rw [State.put_block, if_neg nonzero]; exact edits.superblock
    · rw [State.put_block, if_pos rfl]

/-- Linking changes the FAT at once and the inode in memory only. -/
theorem linkEntry_run (held : Represents g v state) (same : snapshot.Matches state)
    (known : snapshot.inodeNo.toNat < g.inodes) {last : FatEntryNo} (entry : FatEntryNo) (dirty : Bool)
    (inside : v.nblocks snapshot.inodeNo.toNat ≠ 0 → last.toNat < g.entries) :
    ∃ linked dirty' after w, linkEntry snapshot last entry dirty state = .done (linked, dirty') after ∧
      linked.inodeNo = snapshot.inodeNo ∧ linked.nblocks = snapshot.nblocks ∧ Represents g w after ∧
      v.link snapshot.inodeNo.toNat last.toNat entry.toNat =
        { w with head := Function.update w.head snapshot.inodeNo.toNat linked.head.toNat } ∧
      linked.Edits after ∧ (dirty' = false → linked.Matches after) ∧ after.failed = state.failed := by
  have nblocks := same.nblocks_eq held known
  by_cases first : snapshot.nblocks = 0
  · have none : v.nblocks snapshot.inodeNo.toNat = 0 := by rw [← nblocks, first]; rfl
    refine ⟨snapshot.setHead entry, true, state, v, ?_, rfl, snapshot.setHead_nblocks entry, held, ?_,
      same.edits.setHead entry, (fun clean => nomatch clean), rfl⟩
    · simp only [linkEntry, first, if_true]; rfl
    · rw [Volume.link, if_pos none, Snapshot.setHead_head]
  · have some : v.nblocks snapshot.inodeNo.toNat ≠ 0 := by
      rw [← nblocks]
      exact fun zero => first (UInt32.toNat_inj.mp zero)
    have last_inside := inside some
    obtain ⟨bno, located, position, readable⟩ := held.findFatBlockno_run last_inside
    have wrote := belowWrite_inside (setWord (state.below.block bno.toNat) (last % FAT_PER_BLOCK) entry) readable
    have represented := held.put_next last_inside entry
    rw [← position] at represented
    have unmoved : ∀ block, block ≤ g.inodeblocks → block ≠ bno.toNat := by
      intro block low
      rw [position, Geometry.fatPos]; omega
    have matched : snapshot.Matches (state.put bno.toNat
        (setWord (state.below.block bno.toNat) (last % FAT_PER_BLOCK) entry)) := by
      refine ⟨?_, ?_, same.inodeBlockno⟩
      · rw [State.put_block, if_neg (unmoved 0 (by omega))]; exact same.superblock
      · rw [State.put_block, if_neg (unmoved _ (g.inodePos_le known))]; exact same.inodeblock
    refine ⟨snapshot, dirty, _, _, ?_, rfl, rfl, represented, ?_, matched.edits, fun _ => matched, rfl⟩
    · simp only [linkEntry, first, if_false]
      rw [Prog.bind_done located, Prog.bind_done (belowRead_inside readable)]
      simp only [Prog.bind_done wrote, Bool.not_true, Bool.false_eq_true, if_false]
      rfl
    · rw [Volume.link, if_neg some, same.head_eq held known]
      simp only [Function.update_eq_self]

/-- At the end of a round the store below agrees with the inode in memory. -/
theorem storeInode_run {w : Volume} (held : Represents g w state) (edits : snapshot.Edits state)
    (known : snapshot.inodeNo.toNat < g.inodes) {offset : BlockNo} (small : offset.toNat + 1 < 2 ^ 32) {dirty : Bool}
    (clean : dirty = false → snapshot.Matches state)
    (nblocks : snapshot.nblocks.toNat = w.nblocks snapshot.inodeNo.toNat) :
    ∃ stored dirty' after, storeInode snapshot offset dirty state = .done (stored, dirty') after ∧
      stored.inodeNo = snapshot.inodeNo ∧ stored.Matches after ∧ after.failed = state.failed ∧
      Represents g (let linked := { w with head := Function.update w.head snapshot.inodeNo.toNat snapshot.head.toNat }
        if offset.toNat ≥ w.nblocks snapshot.inodeNo.toNat
        then linked.setSize snapshot.inodeNo.toNat (offset.toNat + 1) else linked) after := by
  have grown : (offset + 1).toNat = offset.toNat + 1 := by
    rw [UInt32.toNat_add, UInt32.toNat_one]; omega
  have grows : offset ≥ snapshot.nblocks ↔ offset.toNat ≥ w.nblocks snapshot.inodeNo.toNat := by
    rw [← nblocks]; exact UInt32.le_iff_toNat_le
  by_cases longer : offset ≥ snapshot.nblocks
  · obtain ⟨written, wrote, represented, matched, unfailed⟩ :=
      writeInode_run held (edits.setNblocks (offset + 1)) known
    refine ⟨_, true, written, ?_, snapshot.setNblocks_inodeNo _, matched, unfailed, ?_⟩
    · simp only [storeInode, longer, decide_true, if_true, Bool.or_true]
      rw [Prog.bind_done wrote]; rfl
    · simp only [grows.mp longer, if_true, Volume.setSize]
      rw [Snapshot.setNblocks_head, Snapshot.setNblocks_nblocks, grown] at represented
      exact represented
  · have shorter := mt grows.mpr longer
    cases dirty with
    | true =>
      obtain ⟨written, wrote, represented, matched, unfailed⟩ := writeInode_run held edits known
      refine ⟨snapshot, true, written, ?_, rfl, matched, unfailed, ?_⟩
      · simp only [storeInode, longer, decide_false, Bool.false_eq_true, if_false, Bool.or_false, if_true]
        rw [Prog.bind_done wrote]; rfl
      · simp only [shorter, if_false]
        rw [nblocks, Function.update_eq_self] at represented
        exact represented
    | false =>
      have matched := clean rfl
      refine ⟨snapshot, false, state, ?_, rfl, matched, rfl, ?_⟩
      · simp only [storeInode, longer, decide_false, Bool.false_eq_true, if_false, Bool.or_false]; rfl
      · simp only [shorter, if_false]
        rw [matched.head_eq held known, Function.update_eq_self]
        exact held

/-- The loop that lengthens a file does so on the volume, or panics with a full disk. -/
theorem addLoop_run {offset : BlockNo} (small : offset.toNat + 1 < 2 ^ 32) (count : Nat) :
    ∀ {v : Volume} {state : State} {snapshot : Snapshot} (last : FatEntryNo) (dirty : Bool),
      Represents g v state → snapshot.Matches state → snapshot.inodeNo.toNat < g.inodes → v.free < g.entries →
      (v.nblocks snapshot.inodeNo.toNat ≠ 0 → last.toNat < g.entries) →
      match v.addBlocks g snapshot.inodeNo.toNat offset.toNat count last.toNat with
      | some w => ∃ after, addLoop offset count snapshot last dirty state = .done () after ∧ Represents g w after ∧
          after.failed = state.failed
      | none => ∃ stopped, addLoop offset count snapshot last dirty state =
          .halted (.panic "fatdisk_find_free_entry: The disk is full\n") stopped := by
  induction count with
  | zero => intro v state snapshot last dirty held _ _ _ _; exact ⟨state, rfl, held, rfl⟩
  | succ count ih =>
    intro v state snapshot last dirty held same known inside lastInside
    have alloc := fatdiskAlloc_run held inside same.superblock
    have pointer : (fatFreeList snapshot.superblock).toNat = v.free := by rw [same.superblock, held.fatFreeList_eq]
    rw [Volume.addBlocks, Volume.addBlock]
    cases seen : v.alloc g with
    | none =>
      simp only [seen] at alloc
      obtain ⟨stopped, halted⟩ := alloc
      exact ⟨stopped, by rw [addLoop, Prog.bind_halted halted]⟩
    | some allocated =>
      simp only [seen] at alloc
      obtain ⟨moved, took, represented, unfailed, inodes⟩ := alloc
      obtain ⟨free, found, rfl⟩ := Volume.alloc_eq_some.mp seen
      have fresh : ({ snapshot with superblock := moved.below.block 0 } : Snapshot).Matches moved :=
        ⟨rfl, by rw [inodes _ known]; exact same.inodeblock, same.inodeBlockno⟩
      obtain ⟨linked, dirty', after, w, ran, sameInode, sameSize, linkHeld, link, edits, clean, linkUnfailed⟩ :=
        linkEntry_run represented fresh known (fatFreeList snapshot.superblock) dirty lastInside
      have linkSize : w.nblocks = v.nblocks := (congrArg Volume.nblocks link).symm.trans (Volume.link_nblocks _ _ _ _)
      have linkFree : w.free = free := (congrArg Volume.free link).symm.trans (Volume.link_free _ _ _ _)
      have size : linked.nblocks.toNat = w.nblocks linked.inodeNo.toNat := by
        rw [sameSize, sameInode, linkSize]; exact same.nblocks_eq held known
      have linkedKnown : linked.inodeNo.toNat < g.inodes := by rw [sameInode]; exact known
      obtain ⟨stored, dirty'', final, wrote, lastInode, matched, storeUnfailed, kept⟩ :=
        storeInode_run linkHeld edits linkedKnown small clean size
      have round : addLoop offset (count + 1) snapshot last dirty state =
          addLoop offset count stored (fatFreeList snapshot.superblock) dirty'' final := by
        rw [addLoop, Prog.bind_done took]
        simp only
        rw [Prog.bind_done ran]
        simp only
        rw [Prog.bind_done wrote]
      rw [pointer] at link
      have pointerInside : w.free < g.entries := linkFree ▸ Volume.nextFree_lt inside found
      have rest := ih (fatFreeList snapshot.superblock) dirty'' kept matched (by rw [lastInode]; exact linkedKnown)
        (by split <;> exact pointerInside) (fun _ => by rw [pointer]; exact inside)
      rw [lastInode, sameInode, pointer, storeUnfailed.trans (linkUnfailed.trans unfailed)] at rest
      simp only [Option.map_some, Option.bind_some, link, round]
      exact rest

theorem Geometry.dataPos_le {entry : Nat} (inside : entry < g.usable) : g.dataPos entry ≤ g.size := by
  have := g.within
  unfold dataPos; omega

theorem findLastEntry_run (held : Represents g v state) (same : snapshot.Matches state)
    (known : snapshot.inodeNo.toNat < g.inodes) (sound : v.Sound g snapshot.inodeNo.toNat) :
    ∃ last : FatEntryNo, findLastEntry snapshot.inodeNo snapshot state = .done last state ∧
      last.toNat = v.lastEntry snapshot.inodeNo.toNat := by
  have covered : g.usable ≤ g.entries := g.covered
  have nblocks := same.nblocks_eq held known
  by_cases some : snapshot.nblocks > 0
  · have positive : 0 < v.nblocks snapshot.inodeNo.toNat := by
      rw [← nblocks]; exact UInt32.lt_iff_toNat_lt.mp some
    have before : (snapshot.nblocks - 1).toNat = v.nblocks snapshot.inodeNo.toNat - 1 := by
      rw [UInt32.toNat_sub_of_le _ _ (UInt32.le_iff_toNat_le.mpr (by rw [UInt32.toNat_one]; omega)), nblocks,
        UInt32.toNat_one]
    obtain ⟨last, found, value⟩ := fatdiskTraverse_run held known (show (snapshot.nblocks - 1).toNat < _ by omega)
      (fun step inside => Nat.lt_of_lt_of_le (sound step (by omega)) covered)
    refine ⟨last, by rw [findLastEntry, if_pos some, found], ?_⟩
    rw [value, before, Volume.lastEntry, if_neg (by omega)]
  · have zero : v.nblocks snapshot.inodeNo.toNat = 0 := by
      rw [← nblocks]
      have := mt UInt32.lt_iff_toNat_lt.mpr some
      rw [UInt32.toNat_zero] at this; omega
    exact ⟨0, by rw [findLastEntry, if_neg some]; rfl, by rw [Volume.lastEntry, if_pos zero]; rfl⟩

/-- What `fatdisk_write` does before it stores the block, and the number of the block it stores to. -/
def fatdiskPlace (inodeNo : UInt32) (offset : BlockNo) : Fat (Option BlockNo) := do
  let some snapshot ← fatdiskGetSnapshot inodeNo | return none
  let addblks := if offset + 1 > snapshot.nblocks then offset + 1 - snapshot.nblocks else 0
  let lastEntry ← findLastEntry inodeNo snapshot
  addLoop offset addblks.toNat snapshot lastEntry false
  let entryForData ← fatdiskTraverse inodeNo offset
  let dataBlock ← fatentryToDatablock entryForData
  return some dataBlock

def fatdiskStore (block : Block) : Option BlockNo → Fat Int
  | none => return -1
  | some dataBlock => do
    let wrote ← belowWrite dataBlock block
    return if wrote then 0 else -1

theorem fatdiskWrite_eq (inode : UInt32) (offset : BlockNo) (block : Block) :
    fatdiskWrite inode offset block = fatdiskPlace inode offset >>= fatdiskStore block := by
  rw [fatdiskWrite, fatdiskPlace, Prog.bind_assoc]
  refine congrArg _ (funext fun taken => ?_)
  cases taken with
  | none => rfl
  | some snapshot => simp only [Prog.bind_assoc]; rfl

theorem fatdiskWrite_unknown (held : Represents g v state) {inode : UInt32} (unknown : g.inodes ≤ inode.toNat)
    (offset : BlockNo) (block : Block) : fatdiskWrite inode offset block state = .done (-1) state := by
  rw [fatdiskWrite, Prog.bind_done (fatdiskGetSnapshot_unknown held unknown)]
  rfl

/-- The entry that a write stores to is the one the chain of the longer file has at the offset. -/
theorem fatdiskPlace_run (held : Represents g v state) {inode : UInt32} (known : inode.toNat < g.inodes)
    {offset : BlockNo} (small : offset.toNat + 1 < 2 ^ 32) (pointer : v.free < g.entries)
    (sound : v.Sound g inode.toNat)
    (grown : ∀ w, v.grow g inode.toNat offset.toNat = some w →
      offset.toNat < w.nblocks inode.toNat ∧ w.Sound g inode.toNat) :
    match v.grow g inode.toNat offset.toNat with
    | some w => ∃ (target : BlockNo) (middle : State), fatdiskPlace inode offset state = .done (some target) middle ∧
        Represents g w middle ∧
        middle.failed = state.failed ∧ target.toNat = g.dataPos (w.next^[offset.toNat] (w.head inode.toNat))
    | none => ∃ stopped, fatdiskPlace inode offset state =
        .halted (.panic "fatdisk_find_free_entry: The disk is full\n") stopped := by
  have covered : g.usable ≤ g.entries := g.covered
  obtain ⟨snapshot, taken, rfl, same⟩ := fatdiskGetSnapshot_run held known
  have nblocks := same.nblocks_eq held known
  have count : (if offset + 1 > snapshot.nblocks then offset + 1 - snapshot.nblocks else 0).toNat =
      offset.toNat + 1 - v.nblocks snapshot.inodeNo.toNat := by
    have next : (offset + 1).toNat = offset.toNat + 1 := by rw [UInt32.toNat_add, UInt32.toNat_one]; omega
    by_cases longer : offset + 1 > snapshot.nblocks
    · rw [if_pos longer, UInt32.toNat_sub_of_le _ _ (UInt32.le_of_lt longer), next, nblocks]
    · have := UInt32.le_iff_toNat_le.mp (UInt32.not_lt.mp longer)
      rw [if_neg longer, UInt32.toNat_zero]
      omega
  obtain ⟨last, found, value⟩ := findLastEntry_run held same known sound
  have loop := addLoop_run small (offset.toNat + 1 - v.nblocks snapshot.inodeNo.toNat) last false held
    same known pointer
    (by
      intro some
      rw [value, Volume.lastEntry, if_neg some]
      exact Nat.lt_of_lt_of_le (sound _ (by omega)) covered)
  rw [value] at loop
  cases seen : v.grow g snapshot.inodeNo.toNat offset.toNat with
  | none =>
    rw [Volume.grow] at seen
    simp only [seen] at loop
    obtain ⟨stopped, halted⟩ := loop
    refine ⟨stopped, ?_⟩
    rw [fatdiskPlace, Prog.bind_done taken]
    simp only [count]
    rw [Prog.bind_done found, Prog.bind_halted halted]
  | some w =>
    obtain ⟨inside, stays⟩ := grown w seen
    rw [Volume.grow] at seen
    simp only [seen] at loop
    obtain ⟨middle, added, represented, unfailed⟩ := loop
    obtain ⟨entry, reached, entryValue⟩ := fatdiskTraverse_run represented known inside
      (fun step small => Nat.lt_of_lt_of_le (stays step (by omega)) covered)
    have usable := stays offset.toNat inside
    rw [← entryValue] at usable
    have bound := g.dataPos_le usable
    have bounded := g.bounded
    obtain ⟨bno, located, position⟩ := represented.fatentryToDatablock_run
      (show g.dataPos entry.toNat < 2 ^ 32 by omega)
    refine ⟨bno, middle, ?_, represented, unfailed, by rw [position, entryValue]⟩
    rw [fatdiskPlace, Prog.bind_done taken]
    simp only [count]
    rw [Prog.bind_done found, Prog.bind_done added, Prog.bind_done reached, Prog.bind_done located]
    rfl

/-- The write to an inode whose chain stays sound. -/
theorem fatdiskWrite_run (held : Represents g v state) {inode : UInt32} (known : inode.toNat < g.inodes)
    {offset : BlockNo} (small : offset.toNat + 1 < 2 ^ 32) (block : Block) (pointer : v.free < g.entries)
    (sound : v.Sound g inode.toNat)
    (grown : ∀ w, v.grow g inode.toNat offset.toNat = some w →
      offset.toNat < w.nblocks inode.toNat ∧ w.Sound g inode.toNat) :
    match v.writeBlock g inode.toNat offset.toNat block with
    | some (stored, w) => ∃ after, fatdiskWrite inode offset block state = .done (if stored then 0 else -1) after ∧
        Represents g w after ∧ after.failed = (state.failed || !stored)
    | none => ∃ stopped, fatdiskWrite inode offset block state =
        .halted (.panic "fatdisk_find_free_entry: The disk is full\n") stopped := by
  have place := fatdiskPlace_run held known small pointer sound grown
  rw [Volume.writeBlock, fatdiskWrite_eq]
  cases seen : v.grow g inode.toNat offset.toNat with
  | none =>
    simp only [seen] at place
    obtain ⟨stopped, halted⟩ := place
    exact ⟨stopped, Prog.bind_halted halted⟩
  | some w =>
    simp only [seen] at place
    obtain ⟨target, middle, placed, represented, unfailed, position⟩ := place
    simp only [Option.map_some, Prog.bind_done placed, ← position]
    by_cases stored : target.toNat < g.size
    · have writable : target.toNat < middle.below.size.toNat := by rw [represented.size]; exact stored
      simp only [stored, if_true]
      refine ⟨_, Prog.bind_done (belowWrite_inside block writable), ?_, ?_⟩
      · rw [position]; exact represented.put_data _ _
      · simpa using unfailed
    · have outside : middle.below.size.toNat ≤ target.toNat := by rw [represented.size]; omega
      simp only [stored, if_false]
      exact ⟨_, Prog.bind_done (belowWrite_outside block outside), represented.fail, by simp⟩

/-! Freeing a file. -/

theorem freeLoop_run (count : Nat) : ∀ {v : Volume} {state : State} (entry : FatEntryNo), Represents g v state →
    (∀ step < count, v.next^[step] entry.toNat < g.usable) → (List.iterate v.next entry.toNat count).Nodup →
    match v.releaseChain g count entry.toNat with
    | some w => ∃ after, freeLoop count entry state = .done () after ∧ Represents g w after ∧
        after.failed = state.failed ∧
        ∀ low ≤ g.inodeblocks, after.below.block low = state.below.block low
    | none => ∃ stopped, freeLoop count entry state = .halted (.panic "treedisk_free_block: target block") stopped := by
  induction count with
  | zero => intro v state entry held _ _; exact ⟨state, rfl, held, rfl, fun _ _ => rfl⟩
  | succ count ih =>
    intro v state entry held usable nodup
    have first : entry.toNat < g.usable := usable 0 (by omega)
    have inside : entry.toNat < g.entries := Nat.lt_of_lt_of_le first g.covered
    have bound := g.dataPos_le first
    have bounded := g.bounded
    obtain ⟨fatbno, located, position, readable⟩ := held.findFatBlockno_run inside
    obtain ⟨target, found, place⟩ := held.fatentryToDatablock_run (show g.dataPos entry.toNat < 2 ^ 32 by omega)
    have successor := held.successor inside
    rw [← position] at successor
    rw [Volume.releaseChain]
    by_cases stored : g.dataPos entry.toNat < g.size
    · have writable : target.toNat < state.below.size.toNat := by rw [place, held.size]; exact stored
      have apart : fatbno.toNat ≠ target.toNat := by
        have := g.fatPos_lt inside
        rw [position, place, Geometry.dataPos]; omega
      have zeroed := held.put_data entry.toNat nullBlock
      have freed := zeroed.put_next inside 0
      have same : (state.put target.toNat nullBlock).below.block fatbno.toNat = state.below.block fatbno.toNat := by
        rw [State.put_block, if_neg apart]
      rw [← place, ← position, same] at freed
      have cleared := belowWrite_inside nullBlock writable
      have marked := belowWrite_inside (setWord (state.below.block fatbno.toNat) (entry % FAT_PER_BLOCK) 0)
        (show fatbno.toNat < (state.put target.toNat nullBlock).below.size.toNat from readable)
      have tail := (List.nodup_cons.mp nodup).1
      have agree : ∀ step, step + 1 < count →
          v.next (v.next^[step] (v.next entry.toNat)) =
            Function.update v.next entry.toNat 0 (v.next^[step] (v.next entry.toNat)) := by
        intro step small
        rw [Function.update_of_ne]
        intro equal
        exact tail (List.mem_iterate.mpr ⟨step, by omega, equal.symm⟩)
      have rest := ih (word (state.below.block fatbno.toNat) (entry % FAT_PER_BLOCK)) freed
        (by
          rw [successor]
          intro step small
          have := iterate_step_congr agree small
          rw [UInt32.toNat_zero, this]
          exact usable (step + 1) (by omega))
        (by
          rw [successor, UInt32.toNat_zero, ← iterate_congr agree]
          exact (List.nodup_cons.mp nodup).2)
      have round : freeLoop (count + 1) entry state =
          freeLoop count (word (state.below.block fatbno.toNat) (entry % FAT_PER_BLOCK))
            ((state.put target.toNat nullBlock).put fatbno.toNat
              (setWord (state.below.block fatbno.toNat) (entry % FAT_PER_BLOCK) 0)) := by
        rw [freeLoop, Prog.bind_done located, Prog.bind_done (belowRead_inside readable)]
        simp only [Prog.bind_done found, Prog.bind_done cleared, Prog.bind_done marked, Bool.not_true,
          Bool.false_eq_true,
          if_false]
      have unmoved : ∀ low ≤ g.inodeblocks, ((state.put target.toNat nullBlock).put fatbno.toNat
          (setWord (state.below.block fatbno.toNat) (entry % FAT_PER_BLOCK) 0)).below.block low =
          state.below.block low := by
        intro low small
        have first : low ≠ fatbno.toNat := by rw [position, Geometry.fatPos]; omega
        have second : low ≠ target.toNat := by rw [place, Geometry.dataPos]; omega
        simp only [State.put_block, first, second, if_false]
      rw [successor] at rest
      change match Volume.releaseChain g count (v.next entry.toNat) (v.release entry.toNat) with
        | some w => _
        | none => _ at rest
      simp only [stored, if_true, round]
      cases seen : Volume.releaseChain g count (v.next entry.toNat) (v.release entry.toNat) with
      | none => simpa only [seen] using rest
      | some w =>
        simp only [seen] at rest
        obtain ⟨after, ran, represented, unfailed, kept⟩ := rest
        exact ⟨after, ran, represented, unfailed, fun low small => (kept low small).trans (unmoved low small)⟩
    · have outside : state.below.size.toNat ≤ target.toNat := by rw [place, held.size]; omega
      simp only [stored, if_false]
      refine ⟨{ state with failed := true }, ?_⟩
      rw [freeLoop, Prog.bind_done located, Prog.bind_done (belowRead_inside readable)]
      simp only [Prog.bind_done found, Prog.bind_done (belowWrite_outside nullBlock outside), Bool.not_false, if_true]
      rfl

theorem fatdiskSetsize_run (held : Represents g v state) {inode : UInt32} (known : inode.toNat < g.inodes)
    (sound : v.Sound g inode.toNat) (nodup : (nodes v.next v.head v.nblocks inode.toNat).Nodup) :
    match v.truncate g inode.toNat with
    | some w => ∃ after, fatdiskSetsize inode 0 state = .done 0 after ∧ Represents g w after ∧
        after.failed = state.failed
    | none => ∃ stopped, fatdiskSetsize inode 0 state =
        .halted (.panic "treedisk_free_block: target block") stopped := by
  obtain ⟨snapshot, taken, rfl, same⟩ := fatdiskGetSnapshot_run held known
  have nblocks := same.nblocks_eq held known
  have head := same.head_eq held known
  rw [Volume.truncate]
  by_cases empty : v.nblocks snapshot.inodeNo.toNat = 0
  · have zero : (0 : BlockNo) = snapshot.nblocks := by
      apply UInt32.toNat_inj.mp
      rw [nblocks, empty]; rfl
    simp only [empty, if_true]
    refine ⟨state, ?_, held, rfl⟩
    rw [fatdiskSetsize, Prog.bind_done taken]
    simp only [← zero, if_true]
    rfl
  · have some : ¬ (0 : BlockNo) = snapshot.nblocks := by
      intro zero
      rw [← nblocks, ← zero] at empty
      exact empty rfl
    have code : fatdiskSetsize snapshot.inodeNo 0 state = (do fatdiskFreeFile snapshot; return 0 : Fat Int) state := by
      rw [fatdiskSetsize, Prog.bind_done taken]
      simp only [some, if_false]
      rfl
    have loop := freeLoop_run (v.nblocks snapshot.inodeNo.toNat) snapshot.head held (by rw [head]; exact sound)
      (by rw [head]; exact nodup)
    rw [head] at loop
    simp only [empty, if_false, code]
    cases seen : Volume.releaseChain g (v.nblocks snapshot.inodeNo.toNat) (v.head snapshot.inodeNo.toNat) v with
    | none =>
      simp only [seen] at loop
      obtain ⟨stopped, halted⟩ := loop
      refine ⟨stopped, Prog.bind_halted ?_⟩
      rw [fatdiskFreeFile]
      simp only [Ne.symm some, if_false, nblocks]
      exact Prog.bind_halted halted
    | some w =>
      simp only [seen] at loop
      obtain ⟨middle, freed, represented, unfailed, kept⟩ := loop
      have matched : snapshot.Matches middle :=
        ⟨by rw [kept 0 (by omega)]; exact same.superblock, by rw [kept _ (g.inodePos_le known)]; exact same.inodeblock,
          same.inodeBlockno⟩
      obtain ⟨written, wrote, final, _, writeUnfailed⟩ :=
        writeInode_run represented ((matched.edits.setNblocks 0).setHead 0) known
      simp only [Snapshot.setHead_head, Snapshot.setHead_nblocks, Snapshot.setNblocks_nblocks] at final
      have ran : fatdiskFreeFile snapshot state = .done () written := by
        rw [fatdiskFreeFile]
        simp only [Ne.symm some, if_false, nblocks]
        rw [Prog.bind_done freed]
        rw [show snapshot.inodeBlockno = ((snapshot.setNblocks 0).setHead 0).inodeBlockno from rfl,
          Prog.bind_done wrote]
        rfl
      exact ⟨written, Prog.bind_done ran, final, writeUnfailed.trans unfailed⟩

/-- A file can only be truncated to nothing. -/
theorem fatdiskSetsize_refused (held : Represents g v state) {inode : UInt32} (known : inode.toNat < g.inodes)
    {size : BlockNo}
    (some : size ≠ 0) : ∃ value, fatdiskSetsize inode size state = .done value state := by
  obtain ⟨snapshot, taken, _, _⟩ := fatdiskGetSnapshot_run held known
  rw [fatdiskSetsize, Prog.bind_done taken]
  simp only
  by_cases same : size = snapshot.nblocks
  · rw [if_pos same]
    exact ⟨_, rfl⟩
  · rw [if_neg same, if_pos (UInt32.pos_iff_ne_zero.mpr some)]
    exact ⟨_, rfl⟩

theorem fatdiskNblocks_run (held : Represents g v state) {inode : UInt32} (known : inode.toNat < g.inodes)
    (small : v.nblocks inode.toNat < 2 ^ 31) : fatdiskNblocks inode state = .done (v.nblocks inode.toNat) state := by
  obtain ⟨snapshot, taken, rfl, same⟩ := fatdiskGetSnapshot_run held known
  have nblocks := same.nblocks_eq held known
  have value : snapshot.nblocks.toInt32.toInt = snapshot.nblocks.toNat := by
    change snapshot.nblocks.toBitVec.toInt = _
    rw [BitVec.toInt_eq_toNat_of_lt (by change 2 * snapshot.nblocks.toNat < 2 ^ 32; omega)]
    rfl
  rw [fatdiskNblocks, Prog.bind_done taken, ← nblocks]
  simp only [value]
  rfl

end
end Egos.Fatdisk
