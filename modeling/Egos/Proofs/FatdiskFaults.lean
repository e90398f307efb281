import Egos.Library.Faults
import Egos.Proofs.FatdiskRestart
import Egos.Proofs.FatdiskSearch
import Egos.Proofs.FatdiskSteps

/-! Writes on a store that may fail. A write that returns -1 has either done nothing yet or
has already published the new size of the file: the data block comes last. -/

namespace Egos.Fatdisk
open Library Disk

def resultOn {α : Type} (program : Fat α) (below : Store) : Option α :=
  (program { below, fatblocks := 0, failed := false }).value?

structure SameFiles (before after : Store) : Prop where
  sizes : ∀ inode, resultOn (fatdiskNblocks inode) after = resultOn (fatdiskNblocks inode) before
  blocks : ∀ inode offset, resultOn (fatdiskRead inode offset) after = resultOn (fatdiskRead inode offset) before

variable {α : Type}

/-- The run of a process whose accesses may fail, and which may be cut off. -/
abbrev Steps.faulty (program : Steps α) : Prog (Faulty State) (Option Halt) α :=
  program.runFaulty Access.serve Access.failure

abbrev Steps.Ends (program : Steps α) (state : State) (returned : α → State → Prop) (stopped : State → Prop) : Prop :=
  Effect.Ends Access.serve Access.failure program state returned stopped

namespace Stepwise
variable {state : State} {stopped : State → Prop}

theorem look_ends {offset : BlockNo} {next : Option Block → Steps α} {returned : α → State → Prop} (cut : stopped state)
    (found : ∀ block, state.below.read offset = some block → (next (some block)).Ends state returned stopped)
    (lost : ∀ after, after.below = state.below → (next none).Ends after returned stopped) :
    (belowRead offset >>= next).Ends state returned stopped := by
  have failed := lost state rfl
  cases look : state.below.read offset with
  | some block =>
    have ran : Access.serve (.read offset) state = .done (some block) state := by
      simp only [Access.serve, Fatdisk.belowRead, look]
    exact .access rfl ran cut (found _ look) failed
  | none =>
    have ran : Access.serve (.read offset) state = .done none { state with failed := true } := by
      simp only [Access.serve, Fatdisk.belowRead, look]
    exact .access rfl ran cut (lost _ rfl) failed

/-- A read changes no block, whether it succeeds or fails. -/
theorem read_ends {offset : BlockNo} {next : Option Block → Steps α} {returned : α → State → Prop} (cut : stopped state)
    (rest : ∀ block after, after.below = state.below → (next block).Ends after returned stopped) :
    (belowRead offset >>= next).Ends state returned stopped :=
  look_ends cut (fun _ _ => rest _ state rfl) fun after same => rest none after same

theorem write_ends {offset : BlockNo} {block : Block} {next : Bool → Steps α} {returned : α → State → Prop}
    (cut : stopped state)
    (wrote : ∀ below, state.below.write offset block = some below →
      (next true).Ends { state with below } returned stopped)
    (refused : ∀ after, after.below = state.below → (next false).Ends after returned stopped) :
    (belowWrite offset block >>= next).Ends state returned stopped := by
  have failed := refused state rfl
  cases put : state.below.write offset block with
  | some below =>
    have ran : Access.serve (.write offset block) state = .done true { state with below } := by
      simp only [Access.serve, Fatdisk.belowWrite, put]
    exact .access rfl ran cut (wrote _ put) failed
  | none =>
    have ran : Access.serve (.write offset block) state = .done false { state with failed := true } := by
      simp only [Access.serve, Fatdisk.belowWrite, put]
    exact .access rfl ran cut (refused _ rfl) failed

theorem static_ends {next : BlockNo → Steps α} {returned : α → State → Prop}
    (rest : (next state.fatblocks).Ends state returned stopped) :
    (getFatblocks >>= next).Ends state returned stopped := .call rfl rfl rest

def Reads (program : Steps α) : Prop :=
  ∀ state, program.Ends state (fun _ after => after.below = state.below) fun _ => True

theorem Reads.pure (value : α) : Reads (Pure.pure value) := fun _ => Effect.Ends.pure rfl

theorem Reads.halt (reason : Halt) : Reads (.halt reason : Steps α) := fun _ => Effect.Ends.halt trivial

theorem Reads.bind {β : Type} {first : Steps α} {next : α → Steps β} (left : Reads first)
    (right : ∀ value, Reads (next value)) :
    Reads (first >>= next) := fun state =>
  (left state).bind fun value after same => (right value after).weaken fun _ _ kept => kept.trans same

theorem Reads.read {offset : BlockNo} {next : Option Block → Steps α} (rest : ∀ block, Reads (next block)) :
    Reads (belowRead offset >>= next) := fun _ =>
  read_ends trivial fun block after same => (rest block after).weaken fun _ _ kept => kept.trans same

theorem fatentryToDatablock_reads (n : FatEntryNo) : Reads (fatentryToDatablock n) :=
  .read fun block => by cases block <;> exact .pure _

theorem findFatBlockno_reads (entry : FatEntryNo) : Reads (findFatBlockno entry) :=
  .read fun block => by cases block <;> exact .pure _

theorem scanBlocks_reads (superblock : Block) (count : Nat) (bno : BlockNo) (i : UInt32) :
    Reads (scanBlocks superblock count bno i) := by
  induction count generalizing bno i with
  | zero => exact .halt _
  | succ count ih =>
    refine .read fun block => ?_
    cases block with
    | none => exact .halt _
    | some fatblock =>
      dsimp only
      split
      · exact .pure _
      · exact fun state => static_ends (ih _ _ state)

theorem findFreeEntry_reads (bno : BlockNo) : Reads (findFreeEntry bno) := by
  refine .read fun block => ?_
  cases block with
  | none => exact .pure _
  | some superblock => exact fun state => static_ends (scanBlocks_reads _ _ _ _ state)

theorem fatdiskGetSnapshot_reads (inode : UInt32) : Reads (fatdiskGetSnapshot inode) := by
  refine .read fun block => ?_
  cases block with
  | none => exact .pure _
  | some superblock =>
    dsimp only
    split
    · exact .pure _
    · exact .read fun block => by cases block <;> exact .pure _

theorem traverseLoop_reads (offset : Nat) (start : FatEntryNo) : Reads (traverseLoop offset start) := by
  induction offset generalizing start with
  | zero => exact .pure _
  | succ offset ih =>
    refine (findFatBlockno_reads start).bind fun fatBno => .read fun block => ?_
    cases block with
    | none => exact .pure _
    | some fatblock => exact ih _

theorem fatdiskTraverse_reads (inode : UInt32) (offset : BlockNo) : Reads (fatdiskTraverse inode offset) := by
  refine (fatdiskGetSnapshot_reads inode).bind fun snapshot => ?_
  cases snapshot with
  | none => exact .pure _
  | some snapshot =>
    dsimp only
    split
    · exact .pure _
    · exact traverseLoop_reads _ _

theorem findLastEntry_reads (inode : UInt32) (snapshot : Snapshot) : Reads (findLastEntry inode snapshot) := by
  unfold findLastEntry
  split
  · exact fatdiskTraverse_reads _ _
  · exact .pure _

/-! Growing a file. -/

structure SameInode (snapshot other : Snapshot) : Prop where
  inodeNo : other.inodeNo = snapshot.inodeNo
  inodeBlockno : other.inodeBlockno = snapshot.inodeBlockno

theorem fatdiskAlloc_ends (snapshot : Snapshot) (state : State) :
    (fatdiskAlloc snapshot).Ends state (fun result _ => SameInode snapshot result.2 ∧
      result.2.inodeblock = snapshot.inodeblock)
      fun _ => True := by
  refine (findFatBlockno_reads _ state).bind fun fidxBno after _ => read_ends trivial fun block after _ => ?_
  cases block with
  | none => exact Effect.Ends.halt trivial
  | some fatblock =>
    refine write_ends trivial (fun below _ => ?_) fun after _ => Effect.Ends.halt trivial
    refine (findFreeEntry_reads _ _).bind fun free after _ => ?_
    exact write_ends trivial (fun below _ => Effect.Ends.pure ⟨⟨rfl, rfl⟩, rfl⟩) fun after _ => Effect.Ends.halt trivial

theorem linkEntry_ends (snapshot : Snapshot) (lastEntry freeBno : FatEntryNo) (dirty : Bool) (state : State) :
    (linkEntry snapshot lastEntry freeBno dirty).Ends state
      (fun result _ => SameInode snapshot result.1 ∧ result.1.nblocks = snapshot.nblocks ∧
        (dirty = true → result.2 = true))
      fun _ => True := by
  unfold linkEntry
  split
  · exact Effect.Ends.pure ⟨⟨rfl, rfl⟩, snapshot.setHead_nblocks freeBno, fun _ => rfl⟩
  · refine (findFatBlockno_reads _ state).bind fun lastEntryBno after _ => read_ends trivial fun block after _ => ?_
    cases block with
    | none => exact Effect.Ends.halt trivial
    | some fatblock =>
      exact write_ends trivial (fun below _ => Effect.Ends.pure ⟨⟨rfl, rfl⟩, rfl, id⟩)
        fun after _ => Effect.Ends.halt trivial

/-- The size still has to be set, or is set and about to be written. -/
def Pending (offset : BlockNo) (snapshot : Snapshot) (dirty : Bool) : Prop :=
  snapshot.nblocks ≤ offset ∨ dirty = true ∧ snapshot.nblocks = offset + 1

def Published (snapshot : Snapshot) (size : BlockNo) (below : Store) : Prop :=
  word (below.block snapshot.inodeBlockno.toNat) (2 * (snapshot.inodeNo % INODES_PER_BLOCK) + 1) = size

theorem SameInode.published {snapshot other : Snapshot} {size : BlockNo} {below : Store}
    (same : SameInode snapshot other)
    (published : Published other size below) : Published snapshot size below := by
  unfold Published at published ⊢
  rwa [same.inodeNo, same.inodeBlockno] at published

theorem SameInode.trans {first second third : Snapshot} (left : SameInode first second)
    (right : SameInode second third) :
    SameInode first third := ⟨right.inodeNo.trans left.inodeNo, right.inodeBlockno.trans left.inodeBlockno⟩

private theorem published_of_write {snapshot : Snapshot} {store below : Store}
    (put : store.write snapshot.inodeBlockno snapshot.inodeblock = some below) :
    Published snapshot snapshot.nblocks below := by
  unfold Store.write at put
  split at put
  · cases put
    exact congrArg (word · _) (Function.update_self ..)
  · cases put

theorem storeInode_ends {offset : BlockNo} {snapshot : Snapshot} {dirty : Bool}
    (pending : Pending offset snapshot dirty) (state : State) :
    (storeInode snapshot offset dirty).Ends state
      (fun result after => SameInode snapshot result.1 ∧ Pending offset result.1 result.2 ∧
        Published snapshot (offset + 1) after.below)
      fun _ => True := by
  by_cases grows : offset ≥ snapshot.nblocks
  · simp only [storeInode, grows, decide_true, if_true, Bool.or_true]
    refine write_ends trivial (fun below put => Effect.Ends.pure ⟨⟨rfl, rfl⟩, .inr ⟨rfl, ?_⟩, ?_⟩)
      fun after _ => Effect.Ends.halt trivial
    · exact snapshot.setNblocks_nblocks _
    · have published := published_of_write put
      rwa [Snapshot.setNblocks_nblocks] at published
  · obtain ⟨rfl, size⟩ := pending.resolve_left grows
    simp only [storeInode, grows, decide_false, Bool.false_eq_true, if_false, Bool.or_false, if_true]
    refine write_ends trivial (fun below put => Effect.Ends.pure ⟨⟨rfl, rfl⟩, .inr ⟨rfl, size⟩, ?_⟩)
      fun after _ => Effect.Ends.halt trivial
    exact size ▸ published_of_write put

/-- The last thing that a round of the loop writes is the inode with the new size. -/
theorem addLoop_ends {offset : BlockNo} (count : Nat) {snapshot : Snapshot} {lastEntry : FatEntryNo}
    {dirty : Bool} {state : State}
    (pending : Pending offset snapshot dirty) (started : count = 0 → Published snapshot (offset + 1) state.below) :
    (addLoop offset count snapshot lastEntry dirty).Ends state
      (fun _ after => Published snapshot (offset + 1) after.below)
      fun _ => True := by
  induction count generalizing snapshot lastEntry dirty state with
  | zero => exact Effect.Ends.pure (started rfl)
  | succ count ih =>
    refine (fatdiskAlloc_ends snapshot state).bind fun ⟨freeBno, allocated⟩ after ⟨inode, block⟩ => ?_
    refine (linkEntry_ends allocated lastEntry freeBno dirty after).bind
      fun ⟨linked, dirty'⟩ after ⟨inode', size, kept⟩ => ?_
    have pending' : Pending offset linked dirty' := by
      have old : allocated.nblocks = snapshot.nblocks := by
        unfold Snapshot.nblocks
        rw [block, inode.inodeNo]
      unfold Pending
      rw [size, old]
      exact pending.imp id fun ⟨changed, grown⟩ => ⟨kept changed, grown⟩
    refine (storeInode_ends pending' after).bind fun ⟨stored, dirty''⟩ after ⟨inode'', pending'', published⟩ => ?_
    have same := inode.trans (inode'.trans inode'')
    refine (ih pending'' fun _ => ?_).weaken fun _ _ => same.published
    exact (SameInode.mk inode''.inodeNo.symm inode''.inodeBlockno.symm).published published

def placeAndStore (inodeNo : UInt32) (offset : BlockNo) (block : Block) (snapshot : Snapshot) : Steps Int := do
  let addblks := if offset + 1 > snapshot.nblocks then offset + 1 - snapshot.nblocks else 0
  let lastEntry ← findLastEntry inodeNo snapshot
  addLoop offset addblks.toNat snapshot lastEntry false
  let entryForData ← fatdiskTraverse inodeNo offset
  let dataBlock ← fatentryToDatablock entryForData
  let wrote ← belowWrite dataBlock block
  return if wrote then 0 else -1

section Write
variable (inode : UInt32) {offset : BlockNo} {snapshot : Snapshot}

/-- Storing the data block comes last: when it fails, what the loop left is there. -/
private theorem store_ends (block : Block) {held : Store → Prop} (kept : held state.below) :
    (do let entryForData ← fatdiskTraverse inode offset
        let dataBlock ← fatentryToDatablock entryForData
        let wrote ← belowWrite dataBlock block
        return if wrote then (0 : Int) else -1 : Steps Int).Ends state
            (fun code after => code = -1 → held after.below) fun _ => True := by
  refine (fatdiskTraverse_reads inode offset state).bind fun entry after same => ?_
  refine (fatentryToDatablock_reads entry after).bind fun dataBlock after' same' => ?_
  refine write_ends trivial (fun below _ => Effect.Ends.pure nofun) fun last same'' => Effect.Ends.pure fun _ => ?_
  rwa [same'', same', same]

theorem place_stays (block : Block) (inside : ¬ snapshot.nblocks < offset + 1) (state : State) :
    (placeAndStore inode offset block snapshot).Ends state
        (fun code after => code = -1 → after.below = state.below) fun _ => True := by
  unfold placeAndStore
  rw [if_neg inside]
  refine (findLastEntry_reads inode snapshot state).bind fun lastEntry after same => ?_
  exact @store_ends after inode offset block (· = state.below) same

theorem place_publishes (block : Block) (grows : snapshot.nblocks < offset + 1) (state : State) :
    (placeAndStore inode offset block snapshot).Ends state
      (fun code after => code = -1 → Published snapshot (offset + 1) after.below)
      fun _ => True := by
  have more := UInt32.lt_iff_toNat_lt.mp grows
  have room := offset.toNat_lt
  have past : offset.toNat + 1 < 2 ^ 32 := by
    by_contra full
    rw [UInt32.toNat_add, UInt32.toNat_one, show (offset.toNat + 1) % 2 ^ 32 = 0 by omega] at more
    cases more
  have next : (offset + 1).toNat = offset.toNat + 1 := by
    rw [UInt32.toNat_add, UInt32.toNat_one]
    exact Nat.mod_eq_of_lt past
  have pending : Pending offset snapshot false := by
    refine .inl (UInt32.le_iff_toNat_le.mpr ?_)
    omega
  have rounds : (offset + 1 - snapshot.nblocks).toNat ≠ 0 := by
    rw [UInt32.toNat_sub_of_le _ _ (UInt32.le_of_lt grows)]
    omega
  unfold placeAndStore
  rw [if_pos grows]
  refine (findLastEntry_reads inode snapshot state).bind fun lastEntry after same => ?_
  refine (addLoop_ends _ pending fun none => absurd none rounds).bind fun _ grown published => ?_
  exact store_ends inode block published

end Write

/-- A read that returned: a block was read, or none because the store has none or the access failed. -/
private theorem read_returns {α : Type} {offset : BlockNo} {next : Option Block → Steps α} {before : State}
    {fates : Nat → Fate} {value : α}
    {after : Faulty State} (ran : (belowRead offset >>= next).faulty ⟨before, fates⟩ = .done value after) :
    ∃ block between, (next block).faulty ⟨between, fun k => fates (k + 1)⟩ = .done value after ∧
      between.below = before.below ∧
      match block with
      | some block => fates 0 = .served ∧ between = before ∧ Fatdisk.belowRead offset before = .done (some block) before
      | none => fates 0 = .served → ∃ state, Fatdisk.belowRead offset before = .done none state := by
  have split : (belowRead offset >>= next).faulty = Faulty.serve Access.serve Access.failure (.read offset) >>=
      fun block => (next block).faulty :=
    Effect.runFaulty_call _ _
  rw [split] at ran
  obtain ⟨block, ⟨between, later⟩, read, rest⟩ := Prog.bind_returns.mp ran
  obtain ⟨rfl, ⟨served, found⟩ | ⟨fails, rfl, kept⟩⟩ :=
    Faulty.serve_returns (show Access.failure (.read offset) = some none from rfl) read
  · refine ⟨block, between, rest, ?_⟩
    have same := found
    simp only [Access.serve, Fatdisk.belowRead] at same
    cases look : before.below.read offset with
    | some contents =>
      rw [look] at same
      cases same
      exact ⟨rfl, served, rfl, found⟩
    | none =>
      rw [look] at same
      cases same
      exact ⟨rfl, fun _ => ⟨_, found⟩⟩
  · change between = before at kept
    subst kept
    refine ⟨none, between, rest, rfl, fun served => ?_⟩
    cases fails.symm.trans served

/-- The snapshot is taken in two accesses; when one of them fails, nothing has changed. -/
theorem fatdiskGetSnapshot_faulty {inode : UInt32} {before : State} {fates : Nat → Fate}
    {taken : Option Snapshot} {after : Faulty State}
    (ran : (fatdiskGetSnapshot inode).faulty ⟨before, fates⟩ = .done taken after) :
    match taken with
    | none => after.state.below = before.below ∧ ¬ (fates 0 = .served ∧ fates 1 = .served ∧
        ∃ snapshot state, Fatdisk.fatdiskGetSnapshot inode before = .done (some snapshot) state)
    | some snapshot => after.state = before ∧ fates 0 = .served ∧ fates 1 = .served ∧
        Fatdisk.fatdiskGetSnapshot inode before = .done (some snapshot) before ∧ snapshot.inodeNo = inode ∧
        snapshot.inodeBlockno = 1 + inode / INODES_PER_BLOCK := by
  obtain ⟨block, between, rest, same, found⟩ := read_returns ran
  cases block with
  | none =>
    cases rest
    refine ⟨same, ?_⟩
    rintro ⟨first, _, snapshot, state, taken⟩
    obtain ⟨_, none⟩ := found first
    unfold Fatdisk.fatdiskGetSnapshot at taken
    rw [Prog.bind_done none] at taken
    cases taken
  | some superblock =>
    obtain ⟨first, rfl, super⟩ := found
    unfold Fatdisk.fatdiskGetSnapshot
    rw [Prog.bind_done super]
    by_cases outside : inode.toNat ≥ (nInodeblocks superblock).toNat * INODES_PER_BLOCK.toNat
    · simp only [outside, if_true] at rest ⊢
      cases rest
      refine ⟨rfl, ?_⟩
      rintro ⟨_, _, _, _, taken⟩
      cases taken
    · simp only [outside, if_false] at rest ⊢
      obtain ⟨block, between', last, same', found'⟩ := read_returns rest
      cases block with
      | none =>
        cases last
        refine ⟨same', ?_⟩
        rintro ⟨_, second, snapshot, state, taken⟩
        obtain ⟨_, none⟩ := found' second
        rw [Prog.bind_done none] at taken
        cases taken
      | some inodeblock =>
        obtain ⟨second, rfl, inode⟩ := found'
        cases last
        exact ⟨rfl, first, second, Prog.bind_done inode, rfl, rfl⟩

end Stepwise

def sizeOn (below : Store) (inode : UInt32) : Option BlockNo := do
  let superblock ← below.read 0
  if inode.toNat ≥ (nInodeblocks superblock).toNat * INODES_PER_BLOCK.toNat then none
  let inodeblock ← below.read (1 + inode / INODES_PER_BLOCK)
  return word inodeblock (2 * (inode % INODES_PER_BLOCK) + 1)

private theorem belowRead_returns (offset : BlockNo) (state : State) :
    ∃ after, belowRead offset state = .done (state.below.read offset) after ∧ after.below = state.below := by
  unfold belowRead
  cases state.below.read offset with
  | none => exact ⟨_, rfl, rfl⟩
  | some block => exact ⟨_, rfl, rfl⟩

theorem getSnapshot_size (inode : UInt32) (state : State) :
    ∃ taken after, fatdiskGetSnapshot inode state = .done taken after ∧
        taken.map Snapshot.nblocks = sizeOn state.below inode := by
  obtain ⟨middle, first, same⟩ := belowRead_returns 0 state
  obtain ⟨last, second, _⟩ := belowRead_returns (1 + inode / INODES_PER_BLOCK) middle
  rw [same] at second
  unfold fatdiskGetSnapshot sizeOn
  rw [Prog.bind_done first]
  cases state.below.read 0 with
  | none => exact ⟨none, middle, rfl, rfl⟩
  | some superblock =>
    by_cases outside : inode.toNat ≥ (nInodeblocks superblock).toNat * INODES_PER_BLOCK.toNat
    · simp only [outside, if_true, Option.bind_eq_bind, Option.bind_some]
      exact ⟨none, middle, rfl, rfl⟩
    · simp only [outside, if_false, Option.bind_eq_bind, Option.bind_some]
      rw [Prog.bind_done second]
      cases state.below.read (1 + inode / INODES_PER_BLOCK) with
      | none => exact ⟨none, last, rfl, rfl⟩
      | some inodeblock => exact ⟨_, last, rfl, rfl⟩

theorem resultOn_nblocks (below : Store) (inode : UInt32) :
    resultOn (fatdiskNblocks inode) below = some ((sizeOn below inode).elim (-1) fun size => size.toInt32.toInt) := by
  obtain ⟨taken, after, ran, size⟩ := getSnapshot_size inode { below, fatblocks := 0, failed := false }
  unfold resultOn fatdiskNblocks
  rw [Prog.bind_done ran, ← size]
  cases taken <;> rfl

theorem sizeOn_word {below : Store} {inode : UInt32} {size : BlockNo} (known : sizeOn below inode = some size) :
    word (below.block (1 + inode / INODES_PER_BLOCK).toNat) (2 * (inode % INODES_PER_BLOCK) + 1) = size := by
  unfold sizeOn at known
  obtain ⟨superblock, _, rest⟩ := Option.bind_eq_some_iff.mp known
  split at rest
  · cases rest
  · obtain ⟨inodeblock, read, value⟩ := Option.bind_eq_some_iff.mp rest
    unfold Store.read at read
    split at read
    · cases read
      exact Option.some.inj value
    · cases read

/-- Two sizes that a client can tell apart. -/
private theorem toInt_injective {first second : BlockNo} (same : first.toInt32.toInt = second.toInt32.toInt) :
    first = second :=
  congrArg Int32.toUInt32 (Int32.toInt_inj.mp same)

/-- The longer file is seen by the client. -/
theorem SameFiles.unpublished {before : State} {after : Store} {snapshot : Snapshot} {inode : UInt32} {offset : BlockNo}
    (same : SameFiles before.below after) (taken : fatdiskGetSnapshot inode before = .done (some snapshot) before)
    (known : snapshot.inodeNo = inode ∧ snapshot.inodeBlockno = 1 + inode / INODES_PER_BLOCK)
    (grows : snapshot.nblocks < offset + 1) :
    ¬ Stepwise.Published snapshot (offset + 1) after := by
  intro published
  obtain ⟨taken', _, ran, size⟩ := getSnapshot_size inode before
  cases taken.symm.trans ran
  have sizes := same.sizes inode
  rw [resultOn_nblocks, resultOn_nblocks, ← size] at sizes
  have equal := Option.some.inj sizes
  change (sizeOn after inode).elim _ _ = snapshot.nblocks.toInt32.toInt at equal
  cases now : sizeOn after inode with
  | none =>
    rw [now] at equal
    have largest : snapshot.nblocks = 2 ^ 32 - 1 := toInt_injective (equal.symm.trans (by decide))
    rw [largest] at grows
    exact absurd (UInt32.le_iff_toNat_le.mpr (Nat.le_of_lt_succ (offset + 1).toNat_lt)) (UInt32.not_le.mpr grows)
  | some size =>
    rw [now] at equal
    have kept : size = snapshot.nblocks := toInt_injective equal
    unfold Stepwise.Published at published
    rw [known.1, known.2, sizeOn_word now] at published
    rw [← kept, published] at grows
    exact UInt32.lt_irrefl _ grows

/-- A write that returns -1 leaves every file as it was if and only if it took no snapshot, or
the file was already long enough. -/
theorem write_restores_iff {inode : UInt32} {offset : BlockNo} {block : Block} {before : State}
    {fates : Nat → Fate} {after : Faulty State}
    (failed : (Stepwise.fatdiskWrite inode offset block).faulty ⟨before, fates⟩ = .done (-1) after) :
    SameFiles before.below after.state.below ↔
      ¬ (fates 0 = .served ∧ fates 1 = .served ∧ Grows before (.write inode offset block)) := by
  have split : (Stepwise.fatdiskWrite inode offset block).faulty = (Stepwise.fatdiskGetSnapshot inode).faulty >>= _ :=
    Effect.runFaulty_bind
  rw [split] at failed
  obtain ⟨taken, ⟨between, later⟩, first, rest⟩ := Prog.bind_returns.mp failed
  have snapshot := Stepwise.fatdiskGetSnapshot_faulty first
  cases taken with
  | none =>
    obtain ⟨same, untaken⟩ := snapshot
    cases rest
    exact ⟨fun _ ⟨zero, one, snapshot, state, taken, _⟩ => untaken ⟨zero, one, snapshot, state, taken⟩,
      fun _ => same ▸ ⟨fun _ => rfl, fun _ _ => rfl⟩⟩
  | some snapshot =>
    obtain ⟨rfl, zero, one, read, known⟩ := snapshot
    change (Stepwise.placeAndStore inode offset block snapshot).faulty ⟨between, later⟩ = .done (-1) after at rest
    by_cases grows : snapshot.nblocks < offset + 1
    · have published := (Stepwise.place_publishes inode block grows between).done rest rfl
      exact ⟨fun same => absurd published (same.unpublished read known grows),
        fun short => absurd ⟨zero, one, snapshot, between, read, grows⟩ short⟩
    · have same : after.state.below = between.below := (Stepwise.place_stays inode block grows between).done rest rfl
      refine ⟨fun _ ⟨_, _, other, state, taken, longer⟩ => ?_, fun _ => same ▸ ⟨fun _ => rfl, fun _ _ => rfl⟩⟩
      cases read.symm.trans taken
      exact grows longer

/-! The first block of a file, on a store that loses the last access of the write. -/

def tinyCreated : State := (fatdiskCreate 1 tinyStore).state

def lastFails (k : Nat) : Fate := if k = 12 then .fails else .served

def tinyTorn : Outcome (Faulty State) (Option Halt) Int :=
  (Stepwise.fatdiskWrite 0 0 nullBlock).faulty ⟨tinyCreated, lastFails⟩

private theorem tiny_created : fatdiskCreate 1 tinyStore = .done 0 tinyCreated :=
  Outcome.done_of_value (by decide +kernel)

private theorem tiny_torn :
    (Stepwise.fatdiskWrite 0 0 nullBlock).faulty ⟨tinyCreated, lastFails⟩ = .done (-1) tinyTorn.state :=
  Outcome.done_of_value (by decide +kernel)

theorem write_restores_tiny : SameFiles tinyCreated.below tinyTorn.state.state.below ↔
    ¬ (lastFails 0 = .served ∧ lastFails 1 = .served ∧ Grows tinyCreated (.write 0 0 nullBlock)) :=
      write_restores_iff tiny_torn

theorem write_tears : ¬ ∀ (nInodes : UInt32) (initial created before : State) (calls : List Call),
    nInodeblocks (initial.below.block 0) = 0 → fatdiskCreate nInodes initial = .done 0 created →
      Run Returns created calls before →
    ∀ (inode : UInt32) (offset : BlockNo) (block : Block) (fates : Nat → Fate) (after : Faulty State),
      (Stepwise.fatdiskWrite inode offset block).faulty ⟨before, fates⟩ = .done (-1) after →
          SameFiles before.below after.state.below := by
  intro always
  have same := always 1 tinyStore tinyCreated tinyCreated [] rfl tiny_created .nil 0 0 nullBlock lastFails _ tiny_torn
  have longer : resultOn (fatdiskNblocks 0) tinyTorn.state.state.below = some 1 := by decide +kernel
  have empty : resultOn (fatdiskNblocks 0) tinyCreated.below = some 0 := by decide +kernel
  cases longer.symm.trans ((same.sizes 0).trans empty)

end Egos.Fatdisk
