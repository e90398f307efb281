import Egos.Grass.BlockFailures
import Egos.Proofs.BlkfileContents
import Egos.Proofs.BlkfileAccess

/-! The loops over blocks with calls that may fail, and wherever the blocks are. -/

namespace Egos.Files

theorem served_le (fails : UInt32 → Bool) (first : UInt32) (left : Nat) : served fails first left ≤ left := by
  induction left generalizing first with
  | zero => exact Nat.le_refl 0
  | succ left ih =>
    unfold served
    split_ifs
    · exact Nat.zero_le _
    · exact Nat.succ_le_succ (ih _)

theorem next_add (first : UInt32) (j : Nat) : first + 1 + UInt32.ofNat j = first + UInt32.ofNat (j + 1) := by
  rw [UInt32.ofNat_add, UInt32.add_assoc]
  congr 1
  exact UInt32.add_comm ..

theorem add_ne {first : UInt32} {j : Nat} (positive : 0 < j) (small : j < 2 ^ 32) :
    (first + UInt32.ofNat j).toNat ≠ first.toNat := by
  have bound := first.toNat_lt
  rw [UInt32.toNat_add, UInt32.toNat_ofNat']
  omega

/-- The calls before the end of the loop have not failed, and the next one has. -/
theorem served_spec (fails : UInt32 → Bool) (first : UInt32) (left : Nat) :
    (∀ j < served fails first left, fails (first + UInt32.ofNat j) = false) ∧
      (served fails first left < left → fails (first + UInt32.ofNat (served fails first left)) = true) := by
  induction left generalizing first with
  | zero => exact ⟨nofun, nofun⟩
  | succ left ih =>
    have start : first + UInt32.ofNat 0 = first := UInt32.add_zero first
    unfold served
    cases here : fails first with
    | true =>
      rw [if_pos rfl]
      refine ⟨nofun, fun _ => ?_⟩
      rwa [start]
    | false =>
      obtain ⟨before, after⟩ := ih (first + 1)
      rw [if_neg Bool.false_ne_true]
      refine ⟨fun j below => ?_, fun less => ?_⟩
      · cases j with
        | zero => rwa [start]
        | succ j =>
          rw [← next_add]
          exact before j (Nat.lt_of_succ_lt_succ below)
      · rw [← next_add]
        exact after (Nat.lt_of_succ_lt_succ less)

theorem served_none_iff {fails : UInt32 → Bool} {first : UInt32} {left : Nat} :
    served fails first left = 0 ↔ (left ≠ 0 → fails first = true) := by
  cases left with
  | zero => exact ⟨fun _ none => absurd rfl none, fun _ => rfl⟩
  | succ left =>
    unfold served
    split_ifs with failed
    · exact ⟨fun _ _ => failed, fun _ => rfl⟩
    · exact ⟨nofun, fun fails => absurd (fails (Nat.succ_ne_zero left)) failed⟩

structure Delivers (serve : (c : Call) → Library.Prog InodeStore Halt c.Reply) : Prop where
  find : ∀ pid s, serve (.find pid) s = .done (s.uid pid) s
  send : ∀ dst reply s, serve (.send dst reply) s = .done () { s with sent := s.sent ++ [(dst, reply)] }

theorem InodeStore.delivers : Delivers InodeStore.serve := ⟨fun _ _ => rfl, fun _ _ _ => rfl⟩

theorem Failures.delivers (failures : Failures) : Delivers failures.serve := ⟨fun _ _ => rfl, fun _ _ _ => rfl⟩

/-- How a service reads and writes the blocks of an inode: some reads and writes fail. -/
structure Serves (serve : (c : Call) → Library.Prog InodeStore Halt c.Reply) (ino : UInt32)
    (lost fails : UInt32 → Bool) : Prop where
  read : ∀ offset s, serve (.blockRead ino offset) s =
    .done (if lost offset then none else (s.blocks ino)[offset.toNat]?) s
  write : ∀ offset block s, serve (.blockWrite ino offset block) s =
    if fails offset then .done false s else .done true (s.write ino offset.toNat block)

theorem InodeStore.serves {ino : UInt32} (inside : ino.toNat < Blkfile.MAX_INODES) :
    Serves InodeStore.serve ino (fun _ => false) fun _ => false where
  read offset s := by
    unfold InodeStore.serve
    dsimp only
    rw [if_pos inside]
    rfl
  write offset block s := if_pos inside

theorem Failures.serves (failures : Failures) {ino : UInt32} (inside : ino.toNat < Blkfile.MAX_INODES) :
    Serves failures.serve ino (failures.read ino) (failures.write ino) where
  read offset s := by
    unfold Failures.serve
    dsimp only
    split_ifs
    · rfl
    · exact (InodeStore.serves inside).read offset s
  write offset block s := by
    unfold Failures.serve
    dsimp only
    split_ifs
    · rfl
    · exact (InodeStore.serves inside).write offset block s

end Egos.Files

namespace Egos.Blkfile
open Library Files
open Grass (Pid Uid)
open Disk (BLOCK_SIZE)

/-- Where a byte of the blocks from a number on is in the inode. -/
def place (first : UInt32) (k : Nat) : Nat :=
  (first + UInt32.ofNat (k / BLOCK_SIZE)).toNat * BLOCK_SIZE + k % BLOCK_SIZE

theorem place_row {i k : Nat} (le : i ≤ k / BLOCK_SIZE) : (k - i * BLOCK_SIZE) / BLOCK_SIZE = k / BLOCK_SIZE - i ∧
    Fin.ofNat BLOCK_SIZE (k - i * BLOCK_SIZE) = Fin.ofNat BLOCK_SIZE k := by
  have low : i * BLOCK_SIZE ≤ k := (Nat.mul_le_mul_right _ le).trans (Nat.div_mul_le_self k BLOCK_SIZE)
  refine ⟨by rw [Nat.mul_comm, Nat.sub_mul_div], ?_⟩
  rw [← InodeStore.column_add i (k - i * BLOCK_SIZE), Nat.add_sub_cancel' low]

theorem InodeStore.byte_place (s : InodeStore) (ino first : UInt32) (k : Nat) : s.byte ino (place first k) =
    (s.blocks ino).getD (first + UInt32.ofNat (k / BLOCK_SIZE)).toNat zeroBlock (Fin.ofNat BLOCK_SIZE k) := by
  have column : Fin.ofNat BLOCK_SIZE (k % BLOCK_SIZE) = Fin.ofNat BLOCK_SIZE k := Fin.ext (Nat.mod_mod k BLOCK_SIZE)
  unfold InodeStore.byte place
  rw [InodeStore.row_add, InodeStore.column_add, Nat.div_eq_of_lt (Nat.mod_lt k (by decide)), Nat.add_zero, column]

def missing (s : InodeStore) (ino : UInt32) (lost : UInt32 → Bool) (offset : UInt32) : Bool :=
  lost offset || decide ((s.blocks ino).length ≤ offset.toNat)

section Delivers
variable {serve : (c : Call) → Prog InodeStore Halt c.Reply} {s : InodeStore} {src : Pid} {u : Uid} {cache : Cache}

theorem findUid_delivers (delivers : Delivers serve) (live : s.uid src = some u) :
    (findUid src).run serve s = .done u s := by
  unfold findUid call
  rw [Effect.run_bind, Effect.run_perform, Prog.bind_done (delivers.find src s), live]
  rfl

theorem allowed_delivers (delivers : Delivers serve) (live : s.uid src = some u) (owner other : UInt32)
    (stat : FileStat) :
    (allowed owner other (some stat) src).run serve s = .done (decide (Permitted owner other u stat)) s := by
  unfold allowed
  rw [Effect.run_bind, Prog.bind_done (findUid_delivers delivers live)]
  by_cases super : u = 0
  · have granted : decide (Permitted owner other u stat) = true := decide_eq_true (Or.inl super)
    rw [if_pos super, granted]
    rfl
  · rw [if_neg super]
    have granted : (if u = stat.stUid then decide (stat.stMode &&& owner ≠ 0) else decide (stat.stMode &&& other ≠ 0)) =
        decide (Permitted owner other u stat) := by
      by_cases own : u = stat.stUid
      · rw [own] at super
        simp [Permitted, MayUse, super, own]
      · simp [Permitted, MayUse, super, own]
    rw [← granted]
    rfl

/-- A sender that is gone is a null pointer. -/
theorem findUid_gone (delivers : Delivers serve) (gone : s.uid src = none) :
    (findUid src).run serve s = .halted .nullPointer s := by
  unfold findUid call
  rw [Effect.run_bind, Effect.run_perform, Prog.bind_done (delivers.find src s), gone]
  rfl

theorem allowed_gone (delivers : Delivers serve) (gone : s.uid src = none) (owner other : UInt32)
    (stat : Option FileStat) :
    (allowed owner other stat src).run serve s = .halted .nullPointer s := by
  unfold allowed
  rw [Effect.run_bind, Prog.bind_halted (findUid_gone delivers gone)]

theorem send_delivers (delivers : Delivers serve) (reply : FileReply) :
    (call (.send src reply)).run serve s = .done () (InodeStore.reply s src reply) := by
  unfold call
  rw [Effect.run_perform]
  exact delivers.send src reply s

theorem refuse_delivers (delivers : Delivers serve) :
    (refuse cache src).run serve s = .done cache (InodeStore.reply s src (.cleared .error)) := by
  unfold refuse respond
  rw [Effect.run_bind, Prog.bind_done (send_delivers delivers _)]
  rfl

end Delivers

/-! What holds whenever a request has been handled. -/

/-- The program leaves the table and the store as they should be, if it returns. -/
def Ends (serve : (c : Call) → Prog InodeStore Halt c.Reply) (s : InodeStore) (fine : Cache → InodeStore → Prop)
    (program : Server Cache) : Prop :=
  ∀ after t, program.run serve s = .done after t → fine after t

/-- A condition on the end of a request that holds if the request is refused. -/
structure Refusable (serve : (c : Call) → Prog InodeStore Halt c.Reply) (cache : Cache) (s : InodeStore) (src : Pid)
    (fine : Cache → InodeStore → Prop) : Prop where
  delivers : Delivers serve
  refused : fine cache (InodeStore.reply s src (.cleared .error))

section Ends
variable {serve : (c : Call) → Prog InodeStore Halt c.Reply} {cache : Cache} {s : InodeStore} {src : Pid}
    {fine : Cache → InodeStore → Prop}
  {program : Server Cache}

theorem ends_done {after : Cache} {t : InodeStore} (ran : program.run serve s = .done after t) :
    Ends serve s fine program ↔ fine after t := by
  constructor
  · exact fun ends => ends after t ran
  · rintro holds _ _ again
    rw [ran] at again
    cases again
    exact holds

theorem ends_halted {reason : Halt} {t : InodeStore} (ran : program.run serve s = .halted reason t) :
    Ends serve s fine program := by
  intro after t again
  rw [ran] at again
  cases again

/-- A program that begins with another one that returns and changes nothing. -/
theorem ends_bind {α : Type} {first : Server α} {value : α} (ran : first.run serve s = .done value s)
    {next : α → Server Cache} :
    Ends serve s fine (first >>= next) ↔ Ends serve s fine (next value) := by
  unfold Ends
  rw [Effect.run_bind, Prog.bind_done ran]

namespace Refusable

theorem refuse (holds : Refusable serve cache s src fine) : Ends serve s fine (refuse cache src) :=
  (ends_done (refuse_delivers holds.delivers)).mpr holds.refused

theorem cond (holds : Refusable serve cache s src fine) {condition : Prop} [Decidable condition] :
    Ends serve s fine (if condition then Blkfile.refuse cache src else program) ↔
        (¬ condition → Ends serve s fine program) := by
  split_ifs with met
  · exact ⟨fun _ other => absurd met other, fun _ => holds.refuse⟩
  · exact ⟨fun ends _ => ends, fun ends => ends met⟩

theorem file (holds : Refusable serve cache s src fine) {ino : UInt32} {found : FileStat → Server Cache} :
    Ends serve s fine (match cache.allocated ino with | none => Blkfile.refuse cache src | some stat => found stat) ↔
      ∀ stat, cache.allocated ino = some stat → Ends serve s fine (found stat) := by
  cases cache.allocated ino with
  | none => exact ⟨nofun, fun _ => holds.refuse⟩
  | some stat =>
    constructor
    · rintro ends _ ⟨⟩
      exact ends
    · exact fun ends => ends stat rfl

theorem sender (holds : Refusable serve cache s src fine) {next : Uid → Server Cache} :
    Ends serve s fine (findUid src >>= next) ↔ ∀ u, s.uid src = some u → Ends serve s fine (next u) := by
  cases live : s.uid src with
  | none =>
    have halts : (findUid src >>= next).run serve s = .halted .nullPointer s := by
      rw [Effect.run_bind, Prog.bind_halted (findUid_gone holds.delivers live)]
    exact ⟨nofun, fun _ => ends_halted halts⟩
  | some u =>
    rw [ends_bind (findUid_delivers holds.delivers live)]
    constructor
    · rintro ends _ ⟨⟩
      exact ends
    · exact fun ends => ends u rfl

theorem granted (holds : Refusable serve cache s src fine) {owner other : UInt32} {stat : FileStat}
    {granted : Server Cache} :
    Ends serve s fine (do
      match ← allowed owner other (some stat) src with
      | false => Blkfile.refuse cache src
      | true => granted) ↔
    ∀ u, s.uid src = some u → Permitted owner other u stat → Ends serve s fine granted := by
  cases live : s.uid src with
  | none =>
    have halts : (do
        match ← allowed owner other (some stat) src with
        | false => Blkfile.refuse cache src
        | true => granted : Server Cache).run serve s = .halted .nullPointer s := by
      rw [Effect.run_bind, Prog.bind_halted (allowed_gone holds.delivers live owner other _)]
    exact ⟨nofun, fun _ => ends_halted halts⟩
  | some u =>
    rw [ends_bind (allowed_delivers holds.delivers live owner other stat)]
    by_cases permitted : Permitted owner other u stat
    · rw [decide_eq_true permitted]
      constructor
      · rintro ends _ ⟨⟩ _
        exact ends
      · exact fun ends => ends u rfl permitted
    · rw [decide_eq_false permitted]
      constructor
      · rintro _ _ ⟨⟩ granted
        exact absurd granted permitted
      · exact fun _ => holds.refuse

/-- A deletion by a permitted sender of an entry in the table; past the table nothing is answered. -/
theorem deletion (holds : Refusable serve cache s src fine) {req : FileRequest} :
    Ends serve s fine (doDelete cache req src) ↔
    ∀ stat u, cache.entry req.ino = some stat → s.uid src = some u →
      Permitted P_FILE_OWNER_WRITE P_FILE_OTHER_WRITE u stat →
      Ends serve s fine (if stat.stAlloc then do
        let cache := cache.put req.ino { stat with stAlloc := false }
        flushStatCache cache
        let success ← call (.blockSetsize req.ino 0)
        respondUnless success src
        call (.send src (.cleared .ok))
        pure cache
      else do
        call (.send src (.cleared .ok))
        pure cache) := by
  unfold doDelete
  cases entry : cache.entry req.ino with
  | none =>
    refine ⟨fun _ => nofun, fun _ => holds.cond.mpr fun _ => ?_⟩
    have halts : ∃ reason t, (do
        match ← writeAllowed none src with
        | false => Blkfile.refuse cache src
        | true => .halt (.outOfBounds "stat_cache") : Server Cache).run serve s = .halted reason t := by
      unfold writeAllowed allowed
      rw [Effect.run_bind, Effect.run_bind]
      cases live : s.uid src with
      | none => exact ⟨_, _, Prog.bind_halted (Prog.bind_halted (findUid_gone holds.delivers live))⟩
      | some u =>
        rw [Prog.bind_assoc, Prog.bind_done (findUid_delivers holds.delivers live)]
        by_cases super : u = 0
        · rw [if_pos super]
          exact ⟨_, _, rfl⟩
        · rw [if_neg super]
          exact ⟨_, _, rfl⟩
    obtain ⟨reason, t, ran⟩ := halts
    exact ends_halted ran
  | some stat =>
    have inside : ¬ MAX_INODES < req.ino.toNat := (entry_eq entry).1.not_gt
    rw [if_neg inside]
    refine holds.granted.trans ⟨fun ends other u same live permitted => ?_,
      fun ends u live permitted => ends stat u rfl live permitted⟩
    cases same
    exact ends u live permitted

end Refusable

end Ends

section Loops
variable {serve : (c : Call) → Prog InodeStore Halt c.Reply} {ino : UInt32} {lost fails : UInt32 → Bool}
    {s : InodeStore}

/-- The loop reads the blocks before the first one that is missing. -/
theorem readBlocks_serves (serves : Serves serve ino lost fails) {left i : Nat} {offset : UInt32} {addr : Buffer}
    (room : (i + left) * BLOCK_SIZE ≤ addr.capacity) :
    ∃ filled : Buffer, (readBlocks ino left i offset addr).run serve s =
      .done (i + served (missing s ino lost) offset left, filled) s ∧
      filled.capacity = addr.capacity ∧
      ∀ k, filled.byte k = if i ≤ k / BLOCK_SIZE ∧ k / BLOCK_SIZE < i + served (missing s ino lost) offset left
        then s.byte ino (place offset (k - i * BLOCK_SIZE)) else addr.byte k := by
  induction left generalizing i offset addr with
  | zero => exact ⟨addr, rfl, rfl, fun k =>
      (if_neg fun inside => Nat.lt_irrefl _ (Nat.lt_of_le_of_lt inside.1 inside.2)).symm⟩
  | succ left ih =>
    have read := serves.read offset s
    have enough : (i + 1) * BLOCK_SIZE ≤ addr.capacity := (Nat.mul_le_mul_right _ (by omega)).trans room
    unfold readBlocks served call
    rw [Effect.run_bind, Effect.run_perform]
    by_cases gone : missing s ino lost offset = true
    · have none : (if lost offset = true then none else (s.blocks ino)[offset.toNat]?) = none := by
        rcases (Bool.or_eq_true _ _).mp gone with lost | past
        · exact if_pos lost
        · rw [List.getElem?_eq_none (of_decide_eq_true past), ite_self]
      rw [none] at read
      rw [if_pos gone, Prog.bind_done read]
      exact ⟨addr, rfl, rfl, fun k => (if_neg
        fun inside => Nat.lt_irrefl _ (Nat.lt_of_le_of_lt inside.1 inside.2)).symm⟩
    · obtain ⟨kept, stored⟩ := not_or.mp (mt (Bool.or_eq_true _ _).mpr gone)
      have stored := Nat.not_le.mp (mt decide_eq_true stored)
      rw [if_neg kept, List.getElem?_eq_getElem stored] at read
      obtain ⟨filled, ran, capacity, bytes⟩ := @ih (i + 1) (offset + 1) (addr.putBlock i (s.blocks ino)[offset.toNat])
        (by rw [Nat.add_right_comm]; exact room)
      rw [if_neg gone, Prog.bind_done read]
      dsimp only
      rw [if_neg (Nat.not_lt.mpr enough), ran]
      refine ⟨filled, by rw [Nat.add_right_comm]; rfl, capacity, fun k => ?_⟩
      rw [bytes k]
      by_cases here : k / BLOCK_SIZE = i
      · rw [if_neg (by omega), if_pos (by omega)]
        have put : (addr.putBlock i (s.blocks ino)[offset.toNat]).byte k =
            (s.blocks ino)[offset.toNat] (Fin.ofNat BLOCK_SIZE (k - i * BLOCK_SIZE)) :=
          if_pos (InodeStore.row_iff.mpr here)
        have same : (s.blocks ino).getD (offset + 0).toNat zeroBlock = (s.blocks ino)[offset.toNat] := by
          rw [UInt32.add_zero, List.getD_eq_getElem?_getD, List.getElem?_eq_getElem stored]
          rfl
        obtain ⟨row, column⟩ := place_row here.ge
        rw [put, InodeStore.column_row here, InodeStore.byte_place, row, here, Nat.sub_self]
        change _ = (s.blocks ino).getD (offset + 0).toNat zeroBlock _
        rw [same, column]
      · have put : (addr.putBlock i (s.blocks ino)[offset.toNat]).byte k = addr.byte k :=
          if_neg fun inside => here (InodeStore.row_iff.mp inside)
        rw [put]
        by_cases later : i + 1 ≤ k / BLOCK_SIZE ∧ k / BLOCK_SIZE < i + 1 + served (missing s ino lost) (offset + 1) left
        · obtain ⟨row, column⟩ := place_row later.1
          obtain ⟨row', column'⟩ := place_row (Nat.le_of_succ_le later.1)
          have shifted : k / BLOCK_SIZE - (i + 1) + 1 = k / BLOCK_SIZE - i := by omega
          rw [if_pos later, if_pos (by omega), InodeStore.byte_place, InodeStore.byte_place, row, column, row',
            column', next_add, shifted]
        · rw [if_neg later, if_neg (by omega)]

/-- What the blocks of a buffer from row `i` on leave in an inode when the first of them are written
to the blocks from a number on. -/
structure Overwrote (s : InodeStore) (ino first : UInt32) (count : Nat) (written : Nat → UInt8)
    (after : InodeStore) : Prop where
  uid : after.uid = s.uid
  sent : after.sent = s.sent
  others : ∀ other, other ≠ ino → after.blocks other = s.blocks other
  grows : (s.blocks ino).length ≤ (after.blocks ino).length
  stored : ∀ j < count, (first + UInt32.ofNat j).toNat < (after.blocks ino).length
  new : ∀ k, k / BLOCK_SIZE < count → after.byte ino (place first k) = written k
  old : ∀ p, (∀ j < count, p / BLOCK_SIZE ≠ (first + UInt32.ofNat j).toNat) → after.byte ino p = s.byte ino p

theorem Overwrote.none {first : UInt32} {written : Nat → UInt8} : Overwrote s ino first 0 written s :=
  ⟨rfl, rfl, fun _ _ => rfl, Nat.le_refl _, fun _ less => absurd less (Nat.not_lt_zero _),
    fun _ less => absurd less (Nat.not_lt_zero _),
    fun _ _ => rfl⟩

/-- The loop writes the blocks before the first one that fails. -/
theorem writeBlocks_serves (serves : Serves serve ino lost fails) {left i : Nat} {offset : UInt32}
    {addr : Buffer} (word : left ≤ 2 ^ 32)
    (room : (i + left) * BLOCK_SIZE ≤ addr.capacity) :
    ∃ after, (writeBlocks ino left i offset addr).run serve s = .done (decide (served fails offset left = left)) after ∧
      Overwrote s ino offset (served fails offset left) (fun k => addr.byte (i * BLOCK_SIZE + k)) after := by
  induction left generalizing i offset s with
  | zero => exact ⟨s, rfl, Overwrote.none⟩
  | succ left ih =>
    have write := serves.write offset (addr.block i) s
    have enough : (i + 1) * BLOCK_SIZE ≤ addr.capacity := (Nat.mul_le_mul_right _ (by omega)).trans room
    unfold writeBlocks served call
    rw [if_neg (Nat.not_lt.mpr enough), Effect.run_bind, Effect.run_perform]
    cases failed : fails offset with
    | true =>
      rw [failed, if_pos rfl] at write
      rw [Prog.bind_done write, if_pos rfl]
      refine ⟨s, ?_, Overwrote.none⟩
      rw [decide_eq_false (Nat.succ_ne_zero left).symm]
      rfl
    | false =>
      rw [failed, if_neg Bool.false_ne_true] at write
      obtain ⟨after, ran, uid, sent, others, grows, stored, new, old⟩ :=
        @ih (s.write ino offset.toNat (addr.block i)) (i + 1) (offset + 1) (by omega)
        (by rw [Nat.add_right_comm]; exact room)
      rw [Prog.bind_done write, if_neg Bool.false_ne_true]
      have wrote : InodeStore.Wrote s ino offset.toNat 1
          (fun p => addr.byte (i * BLOCK_SIZE + p % BLOCK_SIZE)) (s.write ino offset.toNat (addr.block i)) :=
        .one fun p _ => rfl
      have length := wrote.length
      rw [if_neg Nat.one_ne_zero] at length
      refine ⟨after, ?_, uid, sent, fun other different =>
        (others other different).trans (wrote.others other different), by omega,
        fun j below => ?_, fun k below => ?_, fun p apart => ?_⟩
      · rw [ran]
        simp only [Nat.add_right_cancel_iff]
      · cases j with
        | zero =>
          rw [show offset + UInt32.ofNat 0 = offset from UInt32.add_zero offset]
          omega
        | succ j =>
          rw [← next_add]
          exact stored j (Nat.lt_of_succ_lt_succ below)
      · have made := served_le fails (offset + 1) left
        have whole := Nat.div_add_mod' k BLOCK_SIZE
        cases row : k / BLOCK_SIZE with
        | zero =>
          have at_ : place offset k = offset.toNat * BLOCK_SIZE + k % BLOCK_SIZE := by
            unfold place
            rw [row]
            exact congrArg (fun b : UInt32 => b.toNat * BLOCK_SIZE + k % BLOCK_SIZE) (UInt32.add_zero offset)
          have here : place offset k / BLOCK_SIZE = offset.toNat := by
            rw [at_, InodeStore.row_add, Nat.div_eq_of_lt (Nat.mod_lt k (by decide)), Nat.add_zero]
          have apart : ∀ j < served fails (offset + 1) left,
              place offset k / BLOCK_SIZE ≠ (offset + 1 + UInt32.ofNat j).toNat := by
            intro j less
            rw [here, next_add]
            exact (add_ne (Nat.succ_pos j) (by omega)).symm
          have column : place offset k % BLOCK_SIZE = k := by
            rw [at_, Nat.mul_add_mod_self_right, Nat.mod_mod]
            rw [row, Nat.zero_mul] at whole
            omega
          rw [old _ apart, wrote.byte, here, if_pos ⟨Nat.le_refl _, Nat.lt_succ_self _⟩, column]
        | succ m =>
          rw [row, Nat.add_mul] at whole
          have later : place offset k = place (offset + 1) (k - 1 * BLOCK_SIZE) := by
            obtain ⟨less, -⟩ := @place_row 1 k (by omega)
            have same : (k - 1 * BLOCK_SIZE) % BLOCK_SIZE = k % BLOCK_SIZE := by
              rw [Nat.mul_comm, Nat.sub_mul_mod (by omega)]
            unfold place
            rw [less, row, same, next_add]
            rfl
          obtain ⟨less, -⟩ := @place_row 1 k (by omega)
          have low : 1 * BLOCK_SIZE ≤ k := (Nat.mul_le_mul_right _ (by omega)).trans (Nat.div_mul_le_self k BLOCK_SIZE)
          rw [later, new _ (by omega), Nat.add_mul, Nat.add_assoc, Nat.add_sub_cancel' low]
      · have first : p / BLOCK_SIZE ≠ offset.toNat := by
          have start := apart 0 (Nat.succ_pos _)
          rwa [show offset + UInt32.ofNat 0 = offset from UInt32.add_zero offset] at start
        have rest : ∀ j < served fails (offset + 1) left, p / BLOCK_SIZE ≠ (offset + 1 + UInt32.ofNat j).toNat := by
          intro j less
          rw [next_add]
          exact apart (j + 1) (Nat.succ_lt_succ less)
        rw [old p rest, wrote.byte, if_neg (by omega)]

theorem flush_serves (serves : Serves serve 0 lost fails) (cache : Cache) :
    ∃ after, (flushStatCache cache).run serve s = .done () after ∧ Flushed s after := by
  obtain ⟨after, ran, wrote⟩ := @writeBlocks_serves serve 0 lost fails s serves cacheBlocks.toNat 0 0
    cache.buffer (by decide)
    (show (0 + cacheBlocks.toNat) * BLOCK_SIZE ≤ MAX_INODES * statSize by decide)
  refine ⟨after, ?_, wrote.uid, wrote.sent, wrote.others⟩
  unfold flushStatCache multiblockWrite
  rw [Effect.run_bind, Prog.bind_done ran]
  rfl

end Loops

/-- The last steps of the handlers that change an entry. -/
theorem finish_serves {serve : (c : Call) → Prog InodeStore Halt c.Reply} {s : InodeStore} {src : Pid}
    (delivers : Delivers serve)
    {lost fails : UInt32 → Bool} (table : Serves serve 0 lost fails) (changed : Cache) (reply : FileReply) :
    ∃ t, (do
      flushStatCache changed
      call (.send src reply)
      pure changed : Server Cache).run serve s = .done changed (InodeStore.reply t src reply) ∧ Flushed s t := by
  obtain ⟨t, flushed, kept⟩ := @flush_serves serve _ _ s table changed
  refine ⟨t, ?_, kept⟩
  rw [Effect.run_bind, Prog.bind_done flushed, Effect.run_bind, Prog.bind_done (send_delivers delivers reply)]
  rfl

def answeredUnless (success : Bool) (src : Pid) (s : InodeStore) : InodeStore :=
  if success then s else InodeStore.reply s src (.cleared .error)

section Setsize
variable {serve : (c : Call) → Prog InodeStore Halt c.Reply} {s : InodeStore} {src : Pid}

theorem respondUnless_delivers (delivers : Delivers serve) (success : Bool) :
    (respondUnless success src).run serve s = .done () (answeredUnless success src s) := by
  cases success with
  | true => rfl
  | false => exact send_delivers delivers _

/-- The end of blkfile_do_setsize, from the call of the block server on. -/
theorem setsize_serves (delivers : Delivers serve) {lost fails : UInt32 → Bool}
    (table : Serves serve 0 lost fails) {ino size : UInt32} {success : Bool}
    {middle : InodeStore} (called : (call (.blockSetsize ino size)).run serve s = .done success middle)
    (cache : Cache) (stat : FileStat) (offset : UInt64) :
    ∃ t, (do
      let success ← call (.blockSetsize ino size)
      respondUnless success src
      let cache := cache.put ino { stat with stSize := offset }
      flushStatCache cache
      respond .ok src
      pure cache : Server Cache).run serve s = .done (cache.put ino { stat with stSize := offset })
        (InodeStore.reply t src (.cleared .ok)) ∧
    Flushed (answeredUnless success src middle) t := by
  obtain ⟨t, flushed, kept⟩ := @flush_serves serve _ _ (answeredUnless success src middle) table
    (cache.put ino { stat with stSize := offset })
  refine ⟨t, ?_, kept⟩
  rw [Effect.run_bind, Prog.bind_done called, Effect.run_bind,
    Prog.bind_done (respondUnless_delivers delivers success), Effect.run_bind,
    Prog.bind_done flushed]
  unfold respond
  rw [Effect.run_bind, Prog.bind_done (send_delivers delivers _)]
  rfl

end Setsize

/-! The buffer of blkfile_put is large enough, also where its numbers have been cut off. -/

section Room
variable {fileSize offset : UInt64} {size : UInt32}

theorem row_toNat (x : UInt64) : (x / UInt64.ofNat BLOCK_SIZE).toNat = x.toNat / 1024 := by
  rw [UInt64.toNat_div]
  rfl

theorem extent_blocks (fileSize offset : UInt64) (size : UInt32) :
    (extent fileSize offset size).startBlock = offset / UInt64.ofNat BLOCK_SIZE ∧
    (extent fileSize offset size).endBlock = (offset + size.toUInt64) / UInt64.ofNat BLOCK_SIZE := by
  unfold extent
  dsimp only
  split_ifs
  · exact ⟨rfl, rfl⟩
  · exact ⟨rfl, rfl⟩

def Extent.rows (e : Extent) : UInt64 := e.endBlock - e.startBlock + 1

theorem capacity_toNat (rows : UInt64) : (rows * UInt64.ofNat BLOCK_SIZE).toNat = rows.toNat * 1024 % 2 ^ 64 := by
  rw [UInt64.toNat_mul]
  rfl

theorem write_room (rows : UInt64) : rows.toUInt32.toNat * BLOCK_SIZE ≤ (rows * UInt64.ofNat BLOCK_SIZE).toNat := by
  rw [capacity_toNat, UInt64.toNat_toUInt32]
  change _ * 1024 ≤ _
  omega

theorem rows_toNat : (extent fileSize offset size).rows.toNat =
    (2 ^ 64 - offset.toNat / 1024 + (offset.toNat + size.toNat) % 2 ^ 64 / 1024 + 1) % 2 ^ 64 := by
  obtain ⟨start, finish⟩ := extent_blocks fileSize offset size
  unfold Extent.rows
  rw [start, finish, UInt64.toNat_add, UInt64.toNat_sub, row_toNat, row_toNat, UInt64.toNat_add,
    UInt32.toNat_toUInt64, UInt64.toNat_one]
  omega

theorem data_room : offset.toNat % BLOCK_SIZE + size.toNat ≤
    ((extent fileSize offset size).rows * UInt64.ofNat BLOCK_SIZE).toNat := by
  have large := offset.toNat_lt
  have small := size.toNat_lt
  rw [capacity_toNat, rows_toNat]
  change offset.toNat % 1024 + _ ≤ _
  omega

theorem read_room (reads : ¬ (fileSize / UInt64.ofNat BLOCK_SIZE < (extent fileSize offset size).startBlock ∨
    fileSize = 0)) :
    (extent fileSize offset size).nblocks.toNat * BLOCK_SIZE ≤
        ((extent fileSize offset size).rows * UInt64.ofNat BLOCK_SIZE).toNat := by
  obtain ⟨start, -⟩ := extent_blocks fileSize offset size
  have behind := UInt64.not_lt.mp fun less => reads (Or.inl less)
  rw [start, UInt64.le_iff_toNat_le, row_toNat, row_toNat] at behind
  by_cases extends_ : fileSize < offset + size.toUInt64
  · have count : (extent fileSize offset size).nblocks.toNat =
        (fileSize.toNat / 1024 - offset.toNat / 1024 + 1) % 2 ^ 32 := by
      unfold extent
      dsimp only
      rw [if_pos extends_, UInt64.toNat_toUInt32, UInt64.toNat_add, UInt64.toNat_sub, row_toNat, row_toNat,
        UInt64.toNat_one]
      have large := fileSize.toNat_lt
      omega
    have less := UInt64.lt_iff_toNat_lt.mp extends_
    have large := offset.toNat_lt
    have small := size.toNat_lt
    rw [UInt64.toNat_add, UInt32.toNat_toUInt64] at less
    rw [count, capacity_toNat, rows_toNat]
    change _ * 1024 ≤ _
    omega
  · have count : (extent fileSize offset size).nblocks = (extent fileSize offset size).rows.toUInt32 := by
      unfold Extent.rows extent
      dsimp only
      rw [if_neg extends_]
    rw [count]
    exact write_room _

end Room

/-! blkfile_put for all offsets and sizes. -/

/-- The write begins with old blocks: not in a new file, and not after the last block of the file. -/
def ReadsOld (fileSize : UInt64) (e : Extent) : Prop :=
  ¬ (fileSize / UInt64.ofNat BLOCK_SIZE < e.startBlock ∨ fileSize = 0)

instance (fileSize : UInt64) (e : Extent) : Decidable (ReadsOld fileSize e) := inferInstanceAs (Decidable (¬ _))

def oldBlocks (s : InodeStore) (ino : UInt32) (lost : UInt32 → Bool) (fileSize : UInt64) (e : Extent) : Nat :=
  if ReadsOld fileSize e then served (missing s ino lost) e.startBlock.toUInt32 e.nblocks.toNat else 0

def Unreadable (s : InodeStore) (ino : UInt32) (lost : UInt32 → Bool) (fileSize : UInt64) (e : Extent) : Prop :=
  ReadsOld fileSize e ∧ e.nblocks ≠ 0 ∧ missing s ino lost e.startBlock.toUInt32 = true

instance (s : InodeStore) (ino : UInt32) (lost : UInt32 → Bool) (fileSize : UInt64) (e : Extent) :
    Decidable (Unreadable s ino lost fileSize e) :=
  inferInstanceAs (Decidable (_ ∧ _))

/-- A byte of the blocks that are written: the data, around it what has been read, and zeros elsewhere. -/
def putByte (s : InodeStore) (ino first : UInt32) (blocks : Nat) (offset : UInt64) (data : List UInt8)
    (k : Nat) : UInt8 :=
  if offset.toNat % BLOCK_SIZE ≤ k ∧ k < offset.toNat % BLOCK_SIZE + data.length then data.getD
    (k - offset.toNat % BLOCK_SIZE) 0
  else if k / BLOCK_SIZE < blocks then s.byte ino (place first k) else 0

section Put
variable {serve : (c : Call) → Prog InodeStore Halt c.Reply} {ino : UInt32}
    {lost fails lost' fails' : UInt32 → Bool} {s : InodeStore}
  {fileSize offset : UInt64} {size : UInt32}

theorem oldContents_serves (serves : Serves serve ino lost fails) :
    let e := extent fileSize offset size
    ∃ contents : Buffer, (oldContents ino fileSize e).run serve s =
        .done (if Unreadable s ino lost fileSize e then none else some contents) s ∧
      contents.capacity = (e.rows * UInt64.ofNat BLOCK_SIZE).toNat ∧
      ∀ k, contents.byte k = if k / BLOCK_SIZE < oldBlocks s ino lost fileSize e then s.byte ino
          (place e.startBlock.toUInt32 k) else 0 := by
  intro e
  unfold oldContents oldBlocks
  dsimp only
  by_cases reads : ReadsOld fileSize e
  · obtain ⟨filled, ran, capacity, bytes⟩ :=
      @readBlocks_serves serve ino lost fails s serves e.nblocks.toNat 0 e.startBlock.toUInt32
      (.clear (e.rows * UInt64.ofNat BLOCK_SIZE).toNat) (by rw [Nat.zero_add]; exact read_room reads)
    refine ⟨filled, ?_, capacity, fun k => ?_⟩
    · rw [if_neg reads, Effect.run_bind]
      unfold multiblockRead
      rw [Effect.run_bind, Prog.bind_assoc]
      change ((readBlocks ino e.nblocks.toNat 0 e.startBlock.toUInt32
        (.clear (e.rows * UInt64.ofNat BLOCK_SIZE).toNat)).run serve >>= _) s = _
      rw [Prog.bind_done ran]
      have first : (0 + served (missing s ino lost) e.startBlock.toUInt32 e.nblocks.toNat = 0 ∧ e.nblocks ≠ 0) ↔
          Unreadable s ino lost fileSize e := by
        unfold Unreadable
        rw [Nat.zero_add, served_none_iff]
        constructor
        · rintro ⟨fails, some⟩
          exact ⟨reads, some, fails fun zero => some (UInt32.toNat_inj.mp zero)⟩
        · rintro ⟨-, some, gone⟩
          exact ⟨fun _ => gone, some⟩
      by_cases unreadable : Unreadable s ino lost fileSize e
      · dsimp only
        rw [if_pos (first.mpr unreadable), if_pos unreadable]
        rfl
      · dsimp only
        rw [if_neg (mt first.mp unreadable), if_neg unreadable]
        rfl
    · rw [bytes k, if_pos reads, Nat.zero_mul, Nat.sub_zero, Nat.zero_add]
      simp only [Nat.zero_le, true_and]
      rfl
  · refine ⟨.clear (e.rows * UInt64.ofNat BLOCK_SIZE).toNat, ?_, rfl, fun k => ?_⟩
    · rw [if_pos (not_not.mp reads), if_neg fun unreadable => reads unreadable.1]
      rfl
    · rw [if_neg reads, if_neg (Nat.not_lt_zero _)]
      rfl

variable {data : List UInt8} {stat : FileStat}

structure Puts (serve : (c : Call) → Prog InodeStore Halt c.Reply) (lost fails : UInt32 → Bool) (cache : Cache)
    (ino : UInt32) (stat : FileStat)
    (offset : UInt64) (data : List UInt8) (size : UInt32) (s after : InodeStore) : Prop where
  wrote : Overwrote s ino (extent stat.stSize offset size).startBlock.toUInt32
    (served fails (extent stat.stSize offset size).startBlock.toUInt32
      (extent stat.stSize offset size).rows.toUInt32.toNat)
    (putByte s ino (extent stat.stSize offset size).startBlock.toUInt32
      (oldBlocks s ino lost stat.stSize (extent stat.stSize offset size)) offset data) after
  fails_ : served fails (extent stat.stSize offset size).startBlock.toUInt32
    (extent stat.stSize offset size).rows.toUInt32.toNat ≠
      (extent stat.stSize offset size).rows.toUInt32.toNat →
    (put cache ino stat offset data size).run serve s = .done none after
  returns : served fails (extent stat.stSize offset size).startBlock.toUInt32
    (extent stat.stSize offset size).rows.toUInt32.toNat =
      (extent stat.stSize offset size).rows.toUInt32.toNat →
    ∃ last, (put cache ino stat offset data size).run serve s =
      .done (some (cache.put ino { stat with stSize := (extent stat.stSize offset size).finalSize })) last ∧
        Flushed after last

theorem put_unreadable (serves : Serves serve ino lost fails) (cache : Cache)
    (unreadable : Unreadable s ino lost stat.stSize (extent stat.stSize offset size)) :
    (put cache ino stat offset data size).run serve s = .done none s := by
  obtain ⟨contents, ran, _, _⟩ := @oldContents_serves serve ino lost fails s stat.stSize offset size serves
  rw [if_pos unreadable] at ran
  unfold put
  dsimp only
  rw [Effect.run_bind, Prog.bind_done ran]
  rfl

theorem put_serves (serves : Serves serve ino lost fails) (table : Serves serve 0 lost' fails') (cache : Cache)
    (readable : ¬ Unreadable s ino lost stat.stSize (extent stat.stSize offset size)) :
    ∃ after, Puts serve lost fails cache ino stat offset data size s after := by
  obtain ⟨contents, ran, capacity, bytes⟩ := @oldContents_serves serve ino lost fails s stat.stSize offset size serves
  rw [if_neg readable] at ran
  have room := @data_room stat.stSize offset size
  rw [← capacity] at room
  obtain ⟨after, written, uid, sent, others, grows, stored, new, old⟩ :=
    @writeBlocks_serves serve ino lost fails s serves
    (extent stat.stSize offset size).rows.toUInt32.toNat 0 (extent stat.stSize offset size).startBlock.toUInt32
    (contents.put (offset.toNat % BLOCK_SIZE) data) (extent stat.stSize offset size).rows.toUInt32.toNat_lt.le
    (by rw [Nat.zero_add]; exact (write_room _).trans capacity.ge)
  have steps : (put cache ino stat offset data size).run serve s =
      ((writeBlocks ino (extent stat.stSize offset size).rows.toUInt32.toNat 0
        (extent stat.stSize offset size).startBlock.toUInt32
        (contents.put (offset.toNat % BLOCK_SIZE) data)).run serve >>=
          fun written => Effect.run serve (match written with
          | false => pure none
          | true => do
            let cache := cache.put ino { stat with stSize := (extent stat.stSize offset size).finalSize }
            flushStatCache cache
            pure (some cache))) s := by
    unfold put
    dsimp only
    rw [Effect.run_bind, Prog.bind_done ran]
    dsimp only
    rw [if_neg (Nat.not_lt.mpr room), Effect.run_bind]
    rfl
  rw [Prog.bind_done written] at steps
  refine ⟨after, ⟨uid, sent, others, grows, stored, fun k below => ?_, old⟩, fun failed => ?_, fun whole => ?_⟩
  · rw [new k below, Nat.zero_mul, Nat.zero_add]
    unfold Buffer.put putByte
    dsimp only
    rw [bytes k]
  · rw [steps, decide_eq_false failed]
    rfl
  · obtain ⟨last, flushed, kept⟩ := @flush_serves serve lost' fails' after table
      (cache.put ino { stat with stSize := (extent stat.stSize offset size).finalSize })
    refine ⟨last, ?_, kept⟩
    rw [steps, decide_eq_true whole]
    dsimp only
    rw [Effect.run_bind, Prog.bind_done flushed]
    rfl

end Put

end Egos.Blkfile
