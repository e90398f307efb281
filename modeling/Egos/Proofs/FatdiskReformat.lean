import Egos.Proofs.FatdiskFaults
import Egos.Proofs.TreediskReformat

/-! Formatting a FAT volume that is interrupted. As in the tree file system the super block comes
before the inode blocks; what is more, a failed read of setup_fatfreelist goes unnoticed. -/

namespace Egos.Fatdisk
open Library Disk

/-- A call of fatdisk_create that fails, or ends before it returns; only the store outlives it. -/
def Interrupted (nInodes : UInt32) (before after : Store) : Prop :=
  ∃ fatblocks fates, ((Stepwise.fatdiskCreate nInodes).faulty ⟨⟨before, fatblocks, false⟩, fates⟩).value? ≠ some 0 ∧
    ((Stepwise.fatdiskCreate nInodes).faulty ⟨⟨before, fatblocks, false⟩, fates⟩).state.state.below = after

/-- The super block says that the store is formatted, and every inode has size 0 and no head. -/
structure Empty (nInodes : UInt32) (store : Store) : Prop where
  inodeblocks : nInodeblocks (store.block 0) = inodeblocksFor nInodes
  head : ∀ inode, inode < (inodeblocksFor nInodes).toNat * 128 →
    wordAt (store.block (inodePos inode)) (2 * (inode % 128)) = 0
  nblocks : ∀ inode, inode < (inodeblocksFor nInodes).toNat * 128 →
    wordAt (store.block (inodePos inode)) (2 * (inode % 128) + 1) = 0

/-- The FAT is laid out as well: every usable entry is free, and the free pointer is at the first. -/
def LaidOut (nInodes : UInt32) (store : Store) : Prop :=
  ∃ g, Formats g nInodes store ∧ Represents g (formatted g store.block) ⟨store, UInt32.ofNat g.fatblocks, false⟩

/-- A call that returns 0 after calls that were interrupted leaves a store with the property. -/
def Restartable (holds : Store → Prop) (nInodes : UInt32) (initial : Store) : Prop :=
  ∀ between fatblocks fates after, Relation.ReflTransGen (Interrupted nInodes) initial between →
    (Stepwise.fatdiskCreate nInodes).faulty ⟨⟨between, fatblocks, false⟩, fates⟩ = .done 0 after →
      holds after.state.below

namespace Stepwise
variable {α : Type} {state : State} {stopped : State → Prop}

theorem size_ends : getSize.Ends state (fun size after => size = state.below.size ∧ after = state) stopped :=
  .call rfl rfl (.pure ⟨rfl, rfl⟩)

theorem create_ends_small {nInodes : UInt32} (small : state.below.size.toNat < (inodeblocksFor nInodes).toNat + 2) :
    (fatdiskCreate nInodes).Ends state (fun code after => after.below = state.below ∧ code ≠ 0)
        (fun after => after.below = state.below) := by
  have refused : state.below.size < inodeblocksFor nInodes + 2 := by
    rw [UInt32.lt_iff_toNat_lt, inodeblocksFor_two]
    exact small
  refine size_ends.bind fun nblocks after ⟨size, same⟩ => ?_
  subst size same
  rw [if_pos refused]
  exact .pure ⟨rfl, nofun⟩

def SameUpTo (n : Nat) (before after : State) : Prop :=
  after.below.size = before.below.size ∧ ∀ position ≤ n, after.below.block position = before.below.block position

theorem write_some {store below : Store} {offset : BlockNo} {block : Block}
    (put : store.write offset block = some below) :
    below = { store with block := Function.update store.block offset.toNat block } := by
  unfold Store.write at put
  split at put
  · exact (Option.some.inj put).symm
  · cases put

theorem SameUpTo.write {n : Nat} {before : State} {below : Store} {offset : BlockNo} {block : Block}
    (same : SameUpTo n before state)
    (past : n < offset.toNat) (put : state.below.write offset block = some below) :
    SameUpTo n before { state with below } := by
  cases write_some put
  exact ⟨same.1, fun position low => (Function.update_of_ne (by omega) _ _).trans (same.2 position low)⟩

theorem SameUpTo.refused {n : Nat} {before after : State} (same : SameUpTo n before state)
    (kept : after.below = state.below) :
    SameUpTo n before after := by
  unfold SameUpTo at same ⊢
  rwa [kept]

theorem setupLoop_ends {n : Nat} {nblocks : BlockNo} (fuel : Nat) {nextFree fatlistBlock count : BlockNo}
    {data : Block} {before : State}
    (reported : nblocks.toNat < 2 ^ 31) (same : SameUpTo n before state) (past : n < fatlistBlock.toNat)
    (behind : fatlistBlock.toNat ≤ nextFree.toNat) :
    (setupLoop nblocks fuel nextFree fatlistBlock count data).Ends state
        (fun _ => SameUpTo n before) (SameUpTo n before) := by
  induction fuel generalizing nextFree fatlistBlock count data state with
  | zero => exact .halt same
  | succ fuel ih =>
    unfold setupLoop
    split
    · rename_i more
      have more' := UInt32.lt_iff_toNat_lt.mp more
      obtain ⟨reached, _⟩ := @fillEntries_eq nblocks 256 0 nextFree data rfl (by omega)
      change Steps.Ends (belowWrite fatlistBlock (fillEntries nblocks 256 0 nextFree data).2 >>= _) _ _ _
      refine write_ends same (fun below put => ?_) fun after kept => ?_
      · have next : (fatlistBlock + 1).toNat = fatlistBlock.toNat + 1 := by
          rw [UInt32.toNat_add, UInt32.toNat_one]
          omega
        have further : ((fillEntries nblocks 256 0 nextFree data).1 + 1).toNat =
            (fillEntries nblocks 256 0 nextFree data).1.toNat + 1 := by
          rw [UInt32.toNat_add, UInt32.toNat_one, reached]
          omega
        exact ih (same.write past put) (by omega) (by
          change _ ≤ ((fillEntries nblocks 256 0 nextFree data).1 + 1).toNat
          rw [next, further, reached]
          omega)
      · exact .halt (same.refused kept)
    · exact .pure same

theorem setupFatfreelist_ends {n nblocks : BlockNo} (reported : nblocks.toNat < 2 ^ 31) (small : n.toNat + 1 < 2 ^ 32) :
    (setupFatfreelist (n + 1) nblocks).Ends state (fun _ => SameUpTo n.toNat state) (SameUpTo n.toNat state) := by
  have next : (n + 1).toNat = n.toNat + 1 := by
    rw [UInt32.toNat_add, UInt32.toNat_one]
    exact Nat.mod_eq_of_lt small
  have start : SameUpTo n.toNat state state := ⟨rfl, fun _ _ => rfl⟩
  refine read_ends start fun block after kept => ?_
  cases block with
  | none => exact .pure (start.refused kept)
  | some superblock =>
    refine (setupLoop_ends _ reported (start.refused kept) (by omega) (Nat.le_refl _)).bind fun count after same => ?_
    exact .call rfl rfl (.pure same)

/-- Clearing blocks that hold zeros. -/
theorem clearInodes_ends {left : Nat} {i : BlockNo} (small : i.toNat + left < 2 ^ 32)
    (nulls : ∀ position, i.toNat ≤ position → position < i.toNat + left → state.below.block position = nullBlock) :
    (clearInodes left i).Ends state (fun _ after => after.below = state.below)
        fun after => after.below = state.below := by
  induction left generalizing i state with
  | zero => exact .pure rfl
  | succ left ih =>
    have next : (i + 1).toNat = i.toNat + 1 := by
      rw [UInt32.toNat_add, UInt32.toNat_one]
      omega
    refine write_ends rfl (fun below put => ?_) fun after kept => .pure kept
    have same : below = state.below := by
      rw [write_some put, ← nulls i.toNat (Nat.le_refl _) (by omega)]
      exact congrArg (fun block => { state.below with block }) (Function.update_eq_self _ _)
    subst same
    exact ih (by omega) fun position low high => nulls position (by omega) (by omega)

/-- What interrupted calls leave of a store whose inode blocks hold zeros. -/
structure Kept (nInodes : UInt32) (store : Store) : Prop where
  nulls : ∀ position, 1 ≤ position → position ≤ (inodeblocksFor nInodes).toNat → store.block position = nullBlock
  super : nInodeblocks (store.block 0) = 0 ∨ nInodeblocks (store.block 0) = inodeblocksFor nInodes

theorem create_ends {nInodes : UInt32} (kept : Kept nInodes state.below) :
    (fatdiskCreate nInodes).Ends state
      (fun code after => Kept nInodes after.below ∧
        (code = 0 → nInodeblocks (after.below.block 0) = inodeblocksFor nInodes))
      (fun after => Kept nInodes after.below) := by
  have few := inodeblocksFor_lt nInodes
  have reported := state.below.reported
  refine size_ends.bind fun nblocks after ⟨size, same⟩ => ?_
  subst size same
  split
  · exact .pure ⟨kept, nofun⟩
  refine look_ends kept (fun superblock look => ?_) fun after' same => .pure ⟨same.symm ▸ kept, nofun⟩
  have contents : superblock = after.below.block 0 := by
    unfold Store.read at look
    split at look
    · exact (Option.some.inj look).symm
    · cases look
  subst contents
  dsimp only
  split
  · rename_i clear
    have low : ∀ {other : State}, SameUpTo (inodeblocksFor nInodes).toNat after other → Kept nInodes other.below := by
      intro other same
      refine ⟨fun position some inodes => ?_, .inl ?_⟩
      · rw [same.2 position inodes]
        exact kept.nulls position some inodes
      · rw [same.2 0 (Nat.zero_le _)]
        exact clear
    refine ((setupFatfreelist_ends reported (by omega)).stopped_mono fun other same => low same).bind
      fun free laid same => ?_
    refine static_ends (write_ends (low same) (fun below put => ?_)
      fun other refused => .pure ⟨refused ▸ low same, nofun⟩)
    have written := write_some put
    have counted : nInodeblocks (below.block 0) = inodeblocksFor nInodes := by
      rw [written]
      rfl
    have nulls : ∀ position, 1 ≤ position → position ≤ (inodeblocksFor nInodes).toNat →
        below.block position = nullBlock := by
      intro position some inodes
      rw [written]
      have apart : position ≠ (0 : BlockNo).toNat := Nat.ne_of_gt some
      exact (Function.update_of_ne apart _ _).trans ((low same).nulls position some inodes)
    have held : Kept nInodes below := ⟨nulls, .inr counted⟩
    have cleared : (clearInodes (inodeblocksFor nInodes).toNat 1).Ends { laid with below }
      (fun _ other => other.below = below)
        fun other => other.below = below := by
      refine clearInodes_ends (by rw [UInt32.toNat_one]; omega) fun position some inodes => nulls position some ?_
      rw [UInt32.toNat_one] at inodes
      omega
    refine (cleared.stopped_mono fun other same => same ▸ held).bind fun done other same => ?_
    have ended : Kept nInodes other.below := same ▸ held
    cases done with
    | false => exact .pure ⟨ended, nofun⟩
    | true => exact .pure ⟨ended, fun _ => same ▸ counted⟩
  · rename_i formatted
    split
    · rename_i counted
      exact .pure ⟨kept, fun _ => counted⟩
    · exact .halt kept

end Stepwise

section Restart
variable {nInodes : UInt32} {initial : Store}

/-- A call in which setup_fatfreelist cannot read the super block, cut off before the inode blocks. -/
def unread (k : Nat) : Fate :=
  match k with
  | 0 => .served
  | 1 => .fails
  | 2 => .served
  | _ => .cut

/-- What that call leaves: a super block with the free pointer -1, and no FAT. -/
def halfFormatted (nInodes : UInt32) (initial : Store) : Store :=
  { initial with block := Function.update initial.block 0 (setWord (setWord (setWord nullBlock 0 (inodeblocksFor nInodes)) 2 (-1)) 1 0) }

theorem interrupted_unread (some : inodeblocksFor nInodes ≠ 0) (clear : nInodeblocks (initial.block 0) = 0)
    (room : (inodeblocksFor nInodes).toNat + 2 ≤ initial.size.toNat) :
    Interrupted nInodes initial (halfFormatted nInodes initial) := by
  have enough : ¬ initial.size < inodeblocksFor nInodes + 2 := by
    rw [UInt32.lt_iff_toNat_lt, inodeblocksFor_two]
    exact Nat.not_lt.mpr room
  have nonempty : (0 : BlockNo).toNat < initial.size.toNat := Nat.lt_of_lt_of_le (Nat.succ_pos _) room
  obtain ⟨left, count⟩ : ∃ left, (inodeblocksFor nInodes).toNat = left + 1 :=
    Nat.exists_eq_succ_of_ne_zero fun none => some (UInt32.toNat_inj.mp none)
  have ran : ∃ later state, (Stepwise.fatdiskCreate nInodes).faulty ⟨⟨initial, 0, false⟩, unread⟩ =
    .halted none ⟨state, later⟩ ∧
      state.below = halfFormatted nInodes initial := by
    let before : State := ⟨initial, 0, false⟩
    let super := setWord (setWord (setWord nullBlock 0 (inodeblocksFor nInodes)) 2 (-1)) 1 0
    refine ⟨fun k => unread (k + 1 + 1 + 1 + 1), before.put 0 super, ?_, rfl⟩
    have sized : Stepwise.getSize.faulty ⟨before, unread⟩ = .done initial.size ⟨before, unread⟩ := rfl
    have listed : (Stepwise.setupFatfreelist (inodeblocksFor nInodes + 1) initial.size).faulty ⟨before,
      fun k => unread (k + 1)⟩ =
        .done (-1) ⟨before, fun k => unread (k + 1 + 1)⟩ := rfl
    have static : Stepwise.getFatblocks.faulty ⟨before, fun k => unread (k + 1 + 1)⟩ =
      .done 0 ⟨before, fun k => unread (k + 1 + 1)⟩ := rfl
    refine Eq.trans (congrFun Effect.runFaulty_bind _) (Eq.trans (Prog.bind_done sized) ?_)
    rw [if_neg enough]
    refine Eq.trans (Effect.runFaulty_access rfl (belowRead_inside nonempty) rfl) ?_
    dsimp only
    rw [if_pos (show nInodeblocks (before.below.block (0 : BlockNo).toNat) = 0 from clear)]
    refine Eq.trans (congrFun Effect.runFaulty_bind _) (Eq.trans (Prog.bind_done listed) ?_)
    refine Eq.trans (congrFun Effect.runFaulty_bind _) (Eq.trans (Prog.bind_done static) ?_)
    refine Eq.trans (Effect.runFaulty_access rfl (belowWrite_inside super nonempty) rfl) ?_
    rw [count]
    exact Effect.runFaulty_cut rfl rfl
  obtain ⟨later, state, ran, below⟩ := ran
  refine ⟨0, unread, ?_, ?_⟩
  · rw [ran]
    exact nofun
  · rw [ran]
    exact below

theorem create_formatted {store : Store} (room : (inodeblocksFor nInodes).toNat + 2 ≤ store.size.toNat)
    (some : inodeblocksFor nInodes ≠ 0)
    (counted : nInodeblocks (store.block 0) = inodeblocksFor nInodes) :
    fatdiskCreate nInodes ⟨store, 0, false⟩ = .done 0 ⟨store, 0, false⟩ := by
  have enough : ¬ store.size < inodeblocksFor nInodes + 2 := by
    rw [UInt32.lt_iff_toNat_lt, inodeblocksFor_two]
    exact Nat.not_lt.mpr room
  have nonempty : (0 : BlockNo).toNat < store.size.toNat := Nat.lt_of_lt_of_le (Nat.succ_pos _) room
  have other : ¬ nInodeblocks (store.block 0) = 0 := fun zero => some (counted.symm.trans zero)
  unfold fatdiskCreate
  rw [Prog.bind_done (Prog.get_run _), if_neg enough, Prog.bind_done (belowRead_inside nonempty)]
  simp only [UInt32.toNat_zero, counted, some, if_false, if_true]
  rfl

/-- A call of fatdisk_create returns 0 on a store whose super block says that it is formatted. -/
theorem Restartable.formatted {holds : Store → Prop} {store : Store} (restartable : Restartable holds nInodes initial)
    (interrupted : Interrupted nInodes initial store) (room : (inodeblocksFor nInodes).toNat + 2 ≤ store.size.toNat)
    (some : inodeblocksFor nInodes ≠ 0) (counted : nInodeblocks (store.block 0) = inodeblocksFor nInodes) :
    holds store := by
  have finds := create_formatted room some counted
  rw [← Stepwise.fatdiskCreate_run] at finds
  obtain ⟨k, served⟩ := @Effect.runFaulty_served _ _ _ _ _ _ Access.failure _ _ _ _ finds
  exact restartable store 0 _ _ (.single interrupted) (served (fun _ => .served) fun _ _ => rfl)

/-- A store that is too small is never formatted. -/
theorem restartable_small {holds : Store → Prop} (small : initial.size.toNat < (inodeblocksFor nInodes).toNat + 2) :
    Restartable holds nInodes initial := by
  intro between fatblocks fates after calls ran
  have same : between = initial := by
    clear ran
    induction calls with
    | refl => rfl
    | tail _ call ih =>
      obtain ⟨fatblocks, fates, _, rfl⟩ := call
      subst ih
      have ends := @Stepwise.create_ends_small ⟨_, fatblocks, false⟩ nInodes small
      exact (ends.weaken fun _ _ ended => ended.1).ended fates
  subst same
  exact absurd rfl (Effect.Ends.done (@Stepwise.create_ends_small ⟨_, fatblocks, false⟩ nInodes small) ran).2

theorem inodeblocksFor_ne_zero (some : 1 ≤ nInodes) : inodeblocksFor nInodes ≠ 0 := by
  intro none
  have count := inodeblocksFor_toNat nInodes
  have positive := UInt32.le_iff_toNat_le.mp some
  rw [UInt32.toNat_one] at positive
  rw [none, UInt32.toNat_zero] at count
  omega

/-- Inodes that are all empty have no bit set in their blocks. -/
theorem Empty.nulls {store : Store} (empty : Empty nInodes store) {position : Nat} (low : 1 ≤ position)
    (high : position ≤ (inodeblocksFor nInodes).toNat) : store.block position = nullBlock := by
  funext slot
  have small := slot.isLt
  change slot.val < 256 at small
  have known : (position - 1) * 128 + slot.val / 2 < (inodeblocksFor nInodes).toNat * 128 := by omega
  have block : inodePos ((position - 1) * 128 + slot.val / 2) = position := by
    unfold inodePos
    omega
  have head := empty.head _ known
  have nblocks := empty.nblocks _ known
  rw [block] at head nblocks
  have index : ((position - 1) * 128 + slot.val / 2) % 128 = slot.val / 2 := by omega
  rw [index] at head nblocks
  apply UInt32.toNat_inj.mp
  rcases Nat.mod_two_eq_zero_or_one slot.val with even | odd
  · have same : Fin.ofNat WORDS (2 * (slot.val / 2)) = slot :=
      Fin.ext (show 2 * (slot.val / 2) % 256 = slot.val by omega)
    unfold wordAt at head
    rw [same] at head
    exact head
  · have same : Fin.ofNat WORDS (2 * (slot.val / 2) + 1) = slot :=
      Fin.ext (show (2 * (slot.val / 2) + 1) % 256 = slot.val by omega)
    unfold wordAt at nblocks
    rw [same] at nblocks
    exact nblocks

theorem empty_of_nulls {store : Store} (counted : nInodeblocks (store.block 0) = inodeblocksFor nInodes)
    (nulls : ∀ position, 1 ≤ position → position ≤ (inodeblocksFor nInodes).toNat → store.block position = nullBlock) :
    Empty nInodes store := by
  have null : ∀ inode, inode < (inodeblocksFor nInodes).toNat * 128 → store.block (inodePos inode) = nullBlock := by
    intro inode known
    apply nulls <;> unfold inodePos <;> omega
  refine ⟨counted, fun inode known => ?_, fun inode known => ?_⟩
  · rw [null inode known]
    rfl
  · rw [null inode known]
    rfl

section Exact
variable (some : 1 ≤ nInodes) (clear : nInodeblocks (initial.block 0) = 0)
include some clear

theorem restartable_empty_iff :
    Restartable (Empty nInodes) nInodes initial ↔ initial.size.toNat < (inodeblocksFor nInodes).toNat + 2 ∨
    ∀ position, 1 ≤ position → position ≤ (inodeblocksFor nInodes).toNat → initial.block position = nullBlock := by
  have nonzero := inodeblocksFor_ne_zero some
  constructor
  · intro restartable
    by_cases room : (inodeblocksFor nInodes).toNat + 2 ≤ initial.size.toNat
    · have empty := restartable.formatted (interrupted_unread nonzero clear room) room nonzero rfl
      refine .inr fun position low high => ?_
      have apart : position ≠ 0 := Nat.ne_of_gt low
      exact (Function.update_of_ne apart _ _).symm.trans (empty.nulls low high)
    · exact .inl (Nat.not_le.mp room)
  · rintro (small | nulls)
    · exact restartable_small small
    · intro between fatblocks fates after calls ran
      have kept : Stepwise.Kept nInodes between := by
        clear ran
        induction calls with
        | refl => exact ⟨nulls, .inl clear⟩
        | tail _ call ih =>
          obtain ⟨fatblocks, fates, _, rfl⟩ := call
          have ends := @Stepwise.create_ends ⟨_, fatblocks, false⟩ nInodes ih
          exact (ends.weaken fun _ _ ended => ended.1).ended fates
      obtain ⟨held, counted⟩ := Effect.Ends.done (@Stepwise.create_ends ⟨between, fatblocks, false⟩ nInodes kept) ran
      exact empty_of_nulls (counted rfl) held.nulls

theorem restartable_laidOut_iff :
    Restartable (LaidOut nInodes) nInodes initial ↔ initial.size.toNat < (inodeblocksFor nInodes).toNat + 2 := by
  have nonzero := inodeblocksFor_ne_zero some
  constructor
  · intro restartable
    by_contra enough
    have room := Nat.not_lt.mp enough
    obtain ⟨g, _, held⟩ := restartable.formatted (interrupted_unread nonzero clear room) room nonzero rfl
    have free : wordAt ((halfFormatted nInodes initial).block 0) 2 = 0 := held.free
    have last : wordAt ((halfFormatted nInodes initial).block 0) 2 = 2 ^ 32 - 1 := rfl
    rw [last] at free
    cases free
  · exact restartable_small

end Exact
end Restart
end Egos.Fatdisk

namespace Egos

/-- When formatting can be interrupted: in both file systems, if the inode blocks hold zeros before;
the FAT of a store that can be formatted is never safe. -/
theorem create_restartable_iff {nInodes : UInt32} (some : 1 ≤ nInodes) :
    (∀ {z : Treedisk.BlockSize} {initial : Treedisk.State z}, Treedisk.nInodeblocks (initial.mem 0) = 0 →
      (Treedisk.Restartable nInodes initial ↔ initial.below.size.toNat < (Treedisk.inodeBlocks z nInodes).toNat + 2 ∨
        ∀ b, 1 ≤ b → b ≤ Treedisk.inodeBlocks z nInodes → initial.mem b = Treedisk.nullBlock)) ∧
    ∀ {initial : Disk.Store}, Fatdisk.nInodeblocks (initial.block 0) = 0 →
      (Fatdisk.Restartable (Fatdisk.Empty nInodes) nInodes initial ↔
        initial.size.toNat < (Fatdisk.inodeblocksFor nInodes).toNat + 2 ∨
        ∀ position, 1 ≤ position → position ≤ (Fatdisk.inodeblocksFor nInodes).toNat →
          initial.block position = Disk.nullBlock) ∧
      (Fatdisk.Restartable (Fatdisk.LaidOut nInodes) nInodes initial ↔
          initial.size.toNat < (Fatdisk.inodeblocksFor nInodes).toNat + 2) :=
  ⟨fun clear => Treedisk.restartable_iff some clear,
    fun clear => ⟨Fatdisk.restartable_empty_iff some clear, Fatdisk.restartable_laidOut_iff some clear⟩⟩

/-! A store of five blocks whose first inode block holds ones from an earlier use. -/

def usedTree : Treedisk.State .large where
  below := { size := 5, block := fun b => if b = 1 then fun _ => 1 else Treedisk.nullBlock, reported := by decide }
  freed := []

theorem five_reported : (5 : Disk.BlockNo).toNat < 2 ^ 31 := by decide

def usedStore : Disk.Store where
  size := 5
  block position := if position = 1 then fun _ => 1 else Disk.nullBlock
  reported := five_reported

theorem create_restartable_used :
    (Treedisk.Restartable 1 usedTree ↔ usedTree.below.size.toNat < (Treedisk.inodeBlocks .large 1).toNat + 2 ∨
      ∀ b, 1 ≤ b → b ≤ Treedisk.inodeBlocks .large 1 → usedTree.mem b = Treedisk.nullBlock) ∧
    (Fatdisk.Restartable (Fatdisk.LaidOut 1) 1 usedStore ↔
        usedStore.size.toNat < (Fatdisk.inodeblocksFor 1).toNat + 2) :=
  ⟨(create_restartable_iff (by decide)).1 rfl, ((create_restartable_iff (by decide)).2 rfl).2⟩

/-- The inodes of the earlier use are there again. -/
theorem create_resurrects :
    (¬ ∀ (nInodes : UInt32) (initial : Treedisk.State .large), 1 ≤ nInodes → Treedisk.nInodeblocks (initial.mem 0) = 0 →
      Treedisk.Restartable nInodes initial) ∧
    ¬ ∀ (nInodes : UInt32) (initial : Disk.Store), 1 ≤ nInodes → Fatdisk.nInodeblocks (initial.block 0) = 0 →
      Fatdisk.Restartable (Fatdisk.Empty nInodes) nInodes initial := by
  refine ⟨fun always => ?_, fun always => ?_⟩
  · rcases (Treedisk.restartable_iff (by decide) rfl).mp (always 1 usedTree (by decide) rfl) with small | nulls
    · exact absurd small (by decide)
    · exact absurd (congrFun (nulls 1 (by decide) (by decide)) 0) (by decide)
  · rcases (Fatdisk.restartable_empty_iff (by decide) rfl).mp (always 1 usedStore (by decide) rfl) with small | nulls
    · exact absurd small (by decide)
    · exact absurd (congrFun (nulls 1 (by decide) (by decide)) 0) (by decide)

end Egos
