import Egos.Block.Clockdisk
import Egos.Library.Ensures
import Egos.Library.Tally

/-! The cache of clockdisk.c cannot be told from the store below it: each block is
cached at most once, and with its current contents. -/

namespace Egos.Clockdisk
open Library Library.Prog Disk

variable {σ : Type} {nblocks : BlockNo}

namespace State

def Live (s : State σ nblocks) (i : Fin nblocks.toNat) : Prop := (s.binfo i).status ≠ .empty

def Missing (s : State σ nblocks) (offset : BlockNo) : Prop := ∀ i, s.Live i → (s.binfo i).offset ≠ offset

end State

structure Cached (size : σ → Nat) (contents : σ → BlockNo → Block) (s : State σ nblocks) : Prop where
  unique : ∀ i j, s.Live i → s.Live j → (s.binfo i).offset = (s.binfo j).offset → i = j
  inside : ∀ i, s.Live i → (s.binfo i).offset.toNat < size s.below
  current : ∀ i, s.Live i → s.blocks i = contents s.below (s.binfo i).offset

/-- What a call of the cache does to the store below and to the answer. -/
abbrev Serves (size : σ → Nat) (contents : σ → BlockNo → Block) {α : Type} (program : Clock σ nblocks α)
    (s : State σ nblocks)
    (answer : α) (below : σ) : Prop :=
  Ensures (fun _ => False) program s fun value after => value = answer ∧ after.below = below ∧
    Cached size contents after

variable {size : σ → Nat} {contents : σ → BlockNo → Block}

theorem lookup_some {s : State σ nblocks} {offset : BlockNo} {i : Fin nblocks.toNat}
    (found : s.lookup offset = some i) :
    s.Live i ∧ (s.binfo i).offset = offset := by
  have hit := List.find?_some found
  simp only [Bool.and_eq_true, decide_eq_true_eq] at hit
  exact ⟨hit.2, hit.1⟩

theorem lookup_none {s : State σ nblocks} {offset : BlockNo} (missed : s.lookup offset = none) : s.Missing offset := by
  intro i live same
  have miss := List.find?_eq_none.mp missed i (List.mem_finRange i)
  simp only [Bool.and_eq_true, decide_eq_true_eq, not_and] at miss
  exact miss same live

namespace Cached
variable {s after : State σ nblocks}

/-- Only marks and statistics are different. -/
theorem keep (cached : Cached size contents s) (below : after.below = s.below) (blocks : after.blocks = s.blocks)
    (offsets : ∀ i, (after.binfo i).offset = (s.binfo i).offset) (live : ∀ i, after.Live i → s.Live i) :
    Cached size contents after := by
  refine ⟨?_, ?_, ?_⟩
  · intro i j first second same
    rw [offsets, offsets] at same
    exact cached.unique i j (live i first) (live j second) same
  · intro i lives
    rw [below, offsets]
    exact cached.inside i (live i lives)
  · intro i lives
    rw [below, blocks, offsets]
    exact cached.current i (live i lives)

theorem setStatus (cached : Cached size contents s) (i : Fin nblocks.toNat) (status : Status) (lives : s.Live i) :
    Cached size contents (s.setStatus i status) := by
  refine cached.keep rfl rfl ?_ ?_
  · intro j
    change (Function.update s.binfo i _ j).offset = _
    by_cases same : j = i
    · subst same
      rw [Function.update_self]
    · rw [Function.update_of_ne same]
  · intro j live
    by_cases same : j = i
    · rw [same]
      exact lives
    · change (Function.update s.binfo i _ j).status ≠ _ at live
      rw [Function.update_of_ne same] at live
      exact live

/-- An entry is filled with the current contents of a block that no other entry caches. -/
theorem fill (cached : Cached size contents s) {offset : BlockNo} (i : Fin nblocks.toNat)
    (others : ∀ j, j ≠ i → s.Live j → (s.binfo j).offset ≠ offset) (inside : offset.toNat < size s.below)
    (binfo : after.binfo = Function.update s.binfo i { status := .used, offset })
    (blocks : after.blocks = Function.update s.blocks i (contents s.below offset)) (below : after.below = s.below) :
    Cached size contents after := by
  have here : (after.binfo i).offset = offset := by rw [binfo, Function.update_self]
  have kept : ∀ j, j ≠ i → after.binfo j = s.binfo j := fun j other => by rw [binfo, Function.update_of_ne other]
  have lives : ∀ j, j ≠ i → after.Live j → s.Live j := by
    intro j other live
    unfold State.Live at live
    rw [kept j other] at live
    exact live
  refine ⟨?_, ?_, ?_⟩
  · intro j k first second same
    by_cases left : j = i
    · by_cases right : k = i
      · exact left.trans right.symm
      · rw [left, here, kept k right] at same
        exact absurd same.symm (others k right (lives k right second))
    · by_cases right : k = i
      · rw [right, here, kept j left] at same
        exact absurd same (others j left (lives j left first))
      · rw [kept j left, kept k right] at same
        exact cached.unique j k (lives j left first) (lives k right second) same
  · intro j live
    rw [below]
    by_cases same : j = i
    · rw [same, here]
      exact inside
    · rw [kept j same]
      exact cached.inside j (lives j same live)
  · intro j live
    rw [below, blocks]
    by_cases same : j = i
    · rw [same, here, Function.update_self]
    · rw [kept j same, Function.update_of_ne same]
      exact cached.current j (lives j same live)

end Cached

private def isUsed (info : BlockInfo) : Bool := decide (info.status = .used)

section Update
variable [NeZero nblocks.toNat] {offset : BlockNo}

/-- Each round of the loop finds fewer recently used entries. -/
private theorem cacheLoop_serves (rounds : Nat) {s : State σ nblocks} (cached : Cached size contents s)
    (missing : s.Missing offset)
    (inside : offset.toNat < size s.below) (fuel : tally isUsed s.binfo < rounds) :
    Serves size contents (cacheLoop offset (contents s.below offset) rounds) s () s.below := by
  induction rounds generalizing s with
  | zero => exact absurd fuel (Int.not_lt.mpr (tally_nonneg _ _))
  | succ rounds ih =>
    have filled : Ensures (fun _ => False) (do
        .modify fun s : State σ nblocks => { s with binfo := Function.update s.binfo s.hand { status := .used, offset } }
        .modify (·.setBlock s.hand (contents s.below offset))
        .modify fun s : State σ nblocks => { s with clockHand := s.clockHand + 1 } : Clock σ nblocks Unit) s
        fun value after => value = () ∧ after.below = s.below ∧ Cached size contents after :=
      ⟨rfl, rfl, cached.fill s.hand (fun j _ => missing j) inside rfl rfl rfl⟩
    apply Ensures.get
    cases status : (s.binfo s.hand).status with
    | empty => exact filled
    | unused => exact filled
    | used =>
      have lives : s.Live s.hand := by
        unfold State.Live
        rw [status]
        exact nofun
      let t : State σ nblocks := { s.setStatus s.hand .unused with clockHand := s.clockHand + 1 }
      have aged : Cached size contents t :=
        (cached.setStatus s.hand .unused lives).keep rfl rfl (fun _ => rfl) fun _ => id
      have absent : t.Missing offset := by
        intro i live
        have known := missing i
        change (Function.update s.binfo s.hand _ i).status ≠ _ at live
        change (Function.update s.binfo s.hand _ i).offset ≠ _
        by_cases same : i = s.hand
        · subst same
          rw [Function.update_self]
          exact known lives
        · rw [Function.update_of_ne same] at live ⊢
          exact known live
      have fewer : tally isUsed t.binfo = tally isUsed s.binfo - 1 := by
        change tally isUsed (Function.update s.binfo s.hand _) = _
        rw [tally_update]
        simp [weight, isUsed, status]
      apply Ensures.modify
      apply Ensures.modify
      exact ih aged absent inside (by omega)

theorem cacheUpdate_serves {s : State σ nblocks} (cached : Cached size contents s) (missing : s.Missing offset)
    (inside : offset.toNat < size s.below) :
    Serves size contents (cacheUpdate offset (contents s.below offset)) s () s.below := by
  let t : State σ nblocks := { s with clockHand := if s.clockHand > nblocks then s.clockHand % nblocks else s.clockHand }
  have same : Cached size contents t := cached.keep rfl rfl (fun _ => rfl) fun _ => id
  have enough := tally_le isUsed s.binfo
  rw [Fintype.card_fin] at enough
  apply Ensures.modify
  exact cacheLoop_serves (nblocks.toNat + 1) same missing inside (by push_cast; omega)

end Update

section Calls
variable [NeZero nblocks.toNat] {below : BlockIf σ} (lawful : IsArray below size contents) {s : State σ nblocks}
  (cached : Cached size contents s)
include lawful cached

omit [NeZero nblocks.toNat] in
private theorem setsize_serves (count : BlockNo) :
    Serves size contents (clockdiskSetsize below count) s (below.setsize s.below count).1
        (below.setsize s.below count).2 := by
  let t : State σ nblocks := { s with binfo := fun i =>
    if (s.binfo i).status ≠ .empty ∧ (s.binfo i).offset ≥ count then { s.binfo i with status := .empty } else s.binfo i }
  have offsets : ∀ i, (t.binfo i).offset = (s.binfo i).offset := by
    intro i
    change (ite _ _ _ : BlockInfo).offset = _
    split <;> rfl
  have live : ∀ i, t.Live i → s.Live i ∧ (s.binfo i).offset < count := by
    intro i lives
    change (ite _ _ _ : BlockInfo).status ≠ _ at lives
    split at lives
    · exact absurd rfl lives
    · rename_i stays
      exact ⟨lives, UInt32.not_le.mp fun past => stays ⟨lives, past⟩⟩
  have dropped : Cached size contents t := cached.keep rfl rfl offsets fun i lives => (live i lives).1
  have agrees : ∀ i, t.Live i → (s.binfo i).offset.toNat < size (below.setsize s.below count).2 ∧
      contents (below.setsize s.below count).2 (s.binfo i).offset = contents s.below (s.binfo i).offset := by
    intro i lives
    obtain ⟨before, small⟩ := live i lives
    have inside := cached.inside i before
    by_cases failed : (below.setsize s.below count).1 = -1
    · obtain ⟨same, kept⟩ := lawful.setsizeFails s.below count failed
      exact ⟨same ▸ inside, kept _ inside⟩
    · obtain ⟨resized, kept⟩ := lawful.setsize s.below count failed
      exact ⟨resized ▸ UInt32.lt_iff_toNat_lt.mp small, kept _ inside small⟩
  refine ⟨rfl, rfl, dropped.unique, ?_, ?_⟩
  · intro i lives
    have inside := (agrees i lives).1
    rw [← offsets] at inside
    exact inside
  · intro i lives
    have known := dropped.current i lives
    rw [offsets] at known
    change s.blocks i = contents (below.setsize s.below count).2 (t.binfo i).offset
    rw [offsets, (agrees i lives).2]
    exact known

private theorem read_serves (offset : BlockNo) (buffer : Block) :
    Serves size contents (clockdiskRead below offset buffer) s (below.read s.below offset buffer) s.below := by
  apply Ensures.get
  cases found : s.lookup offset with
  | some i =>
    obtain ⟨lives, same⟩ := lookup_some found
    have inside := cached.inside i lives
    have current := cached.current i lives
    rw [same] at inside current
    refine ⟨?_, rfl, (cached.setStatus i .used lives).keep rfl rfl (fun _ => rfl) fun _ => id⟩
    rw [lawful.read s.below offset buffer inside, ← current]
  | none =>
    have missing := lookup_none found
    let t : State σ nblocks := { s with readMiss := s.readMiss + 1 }
    have counted : Cached size contents t := cached.keep rfl rfl (fun _ => rfl) fun _ => id
    apply Ensures.modify
    cases failed : decide ((below.read s.below offset buffer).1 = -1) with
    | true => exact ⟨rfl, rfl, counted⟩
    | false =>
      have inside : offset.toNat < size s.below := by
        by_contra past
        exact of_decide_eq_false failed (lawful.readPast s.below offset buffer (Nat.not_lt.mp past))
      rw [lawful.read s.below offset buffer inside]
      apply Ensures.bind (cacheUpdate_serves counted missing inside)
      exact fun _ after served => ⟨rfl, served.2⟩

omit [NeZero nblocks.toNat] in
/-- After a write that has failed. -/
private theorem failed_cached {offset : BlockNo} {block : Block} (failed : (below.write s.below offset block).1 = -1) :
    Cached size contents { s with below := (below.write s.below offset block).2 } := by
  obtain ⟨same, kept⟩ := lawful.writeFails s.below offset block failed
  refine ⟨cached.unique, fun i live => same ▸ cached.inside i live, fun i live => ?_⟩
  exact (cached.current i live).trans (kept _ (cached.inside i live)).symm

omit [NeZero nblocks.toNat] in
/-- After a successful write of a block that no entry but the given one caches. -/
private theorem written_cached {offset : BlockNo} {block : Block}
    (wrote : (below.write s.below offset block).1 ≠ -1) {after : State σ nblocks}
    (store : after.below = (below.write s.below offset block).2) (binfo : after.binfo = s.binfo)
    (blocks : ∀ i, s.Live i → if (s.binfo i).offset = offset then after.blocks i =
    block else after.blocks i = s.blocks i) :
    Cached size contents after := by
  obtain ⟨_, same, kept⟩ := lawful.write s.below offset block wrote
  have live : ∀ i, after.Live i → s.Live i := by
    intro i lives
    unfold State.Live at lives
    rw [binfo] at lives
    exact lives
  refine ⟨?_, ?_, ?_⟩
  · intro i j first second
    rw [binfo]
    exact cached.unique i j (live i first) (live j second)
  · intro i lives
    rw [store, binfo, same]
    exact cached.inside i (live i lives)
  · intro i lives
    have memory := blocks i (live i lives)
    rw [store, binfo, kept _ (cached.inside i (live i lives))]
    split at memory
    · rename_i here
      rw [memory, if_pos here]
    · rename_i other
      rw [memory, if_neg other]
      exact cached.current i (live i lives)

private theorem write_serves (offset : BlockNo) (block : Block) :
    Serves size contents (clockdiskWrite below offset block) s (below.write s.below offset block).1
      (below.write s.below offset block).2 := by
  apply Ensures.get
  cases found : s.lookup offset with
  | some i =>
    obtain ⟨lives, same⟩ := lookup_some found
    have used := cached.setStatus i .used lives
    apply Ensures.modify
    apply Ensures.modify
    cases failed : decide ((below.write s.below offset block).1 = -1) with
    | true => exact ⟨(of_decide_eq_true failed).symm, rfl, failed_cached lawful used (of_decide_eq_true failed)⟩
    | false =>
      refine ⟨rfl, rfl, written_cached lawful used (of_decide_eq_false failed) rfl rfl ?_⟩
      intro j live
      split
      · rename_i hit
        have here : ((s.setStatus i .used).binfo i).offset = offset := by
          change (Function.update s.binfo i _ i).offset = _
          rw [Function.update_self]
          exact same
        have marked : (s.setStatus i .used).Live i := by
          change (Function.update s.binfo i _ i).status ≠ _
          rw [Function.update_self]
          exact nofun
        rw [used.unique j i live marked (hit.trans here.symm)]
        exact Function.update_self ..
      · rename_i miss
        apply Function.update_of_ne
        rintro rfl
        apply miss
        change (Function.update s.binfo j _ j).offset = _
        rw [Function.update_self]
        exact same
  | none =>
    have missing := lookup_none found
    apply Ensures.modify
    cases failed : decide ((below.write s.below offset block).1 = -1) with
    | true => exact ⟨(of_decide_eq_true failed).symm, rfl, failed_cached lawful cached (of_decide_eq_true failed)⟩
    | false =>
      have wrote := of_decide_eq_false failed
      obtain ⟨inside, grown, kept⟩ := lawful.write s.below offset block wrote
      let t : State σ nblocks := { s with below := (below.write s.below offset block).2, writeMiss := s.writeMiss + 1 }
      have through : Cached size contents t := by
        refine written_cached lawful cached wrote rfl rfl fun j live => ?_
        rw [if_neg (missing j live)]
      have update := cacheUpdate_serves (s := t) through missing (grown.symm ▸ inside)
      have stored : contents t.below offset = block := (kept offset inside).trans (if_pos rfl)
      rw [stored] at update
      apply Ensures.modify
      apply Ensures.bind update
      exact fun _ after served => ⟨rfl, served.2⟩

theorem call_serves (call : Call) :
    Serves size contents (call.perform below) s (call.direct below s.below).1 (call.direct below s.below).2 := by
  cases call with
  | nblocks => exact ⟨rfl, rfl, cached⟩
  | setsize count =>
    apply Ensures.bind (setsize_serves lawful cached count)
    rintro _ after ⟨rfl, served⟩
    exact ⟨rfl, served⟩
  | read offset buffer =>
    apply Ensures.bind (read_serves lawful cached offset buffer)
    rintro _ after ⟨rfl, served⟩
    exact ⟨rfl, served⟩
  | write offset block =>
    apply Ensures.bind (write_serves lawful cached offset block)
    rintro _ after ⟨rfl, served⟩
    exact ⟨rfl, served⟩

end Calls

private theorem calls_serve [NeZero nblocks.toNat] {below : BlockIf σ} (lawful : IsArray below size contents)
    (calls : List Call)
    {s : State σ nblocks} (cached : Cached size contents s) :
    Serves size contents (performAll below calls) s (directAll below calls s.below).1
        (directAll below calls s.below).2 := by
  induction calls generalizing s with
  | nil => exact ⟨rfl, rfl, cached⟩
  | cons call rest ih =>
    apply Ensures.bind (call_serves lawful cached call)
    rintro _ middle ⟨rfl, store, kept⟩
    apply Ensures.bind (ih kept)
    rintro _ after ⟨rfl, served⟩
    rw [store] at served ⊢
    exact ⟨rfl, served⟩

/-- Every sequence of calls returns, with the answers of the store below, which it leaves
as if it had been used directly. -/
theorem clockdisk_transparent [NeZero nblocks.toNat] {below : BlockIf σ} (lawful : IsArray below size contents) (s : σ)
    (memory : Fin nblocks.toNat → Block) (calls : List Call) :
    ∃ cache, performAll below calls (clockdiskInit s memory) = .done (directAll below calls s).1 cache ∧
      cache.below = (directAll below calls s).2 ∧ Cached size contents cache := by
  have start : Cached size contents (clockdiskInit s memory) :=
    ⟨fun i _ live => absurd rfl live, fun i live => absurd rfl live, fun i live => absurd rfl live⟩
  obtain ⟨answers, cache, ran, rfl, store, cached⟩ := (calls_serve lawful calls start).total
  exact ⟨cache, ran, store, cached⟩

/-- An array of blocks whose size an `int` can report; it refuses any other size. -/
def arrayStore : BlockIf Store where
  nblocks s := s.size.toNat
  read s offset buffer := if offset < s.size then (0, s.block offset.toNat) else (-1, buffer)
  write s offset block :=
    match s.write offset block with
    | some after => (0, after)
    | none => (-1, s)
  setsize s count := if small : count.toNat < 2 ^ 31 then (s.size.toNat, { s with size := count, reported := small })
    else (-1, s)

theorem arrayStore_isArray : IsArray arrayStore (·.size.toNat) fun s offset => s.block offset.toNat where
  read s offset buffer inside := if_pos (UInt32.lt_iff_toNat_lt.mpr inside)
  readPast s offset buffer past := by
    change (if offset < s.size then _ else _ : Int × Block).1 = -1
    rw [if_neg (by rw [UInt32.lt_iff_toNat_lt]; omega)]
  write s offset block wrote := by
    by_cases inside : offset < s.size
    · simp only [arrayStore, Store.write, if_pos inside]
      refine ⟨UInt32.lt_iff_toNat_lt.mp inside, trivial, fun other _ => ?_⟩
      by_cases same : other = offset
      · rw [if_pos same, same, Function.update_self]
      · rw [if_neg same, Function.update_of_ne fun equal => same (UInt32.toNat_inj.mp equal)]
    · simp [arrayStore, Store.write, inside] at wrote
  writeFails s offset block failed := by
    by_cases inside : offset < s.size
    · simp [arrayStore, Store.write, inside] at failed
    · simp [arrayStore, Store.write, inside]
  setsize s count shrunk := by
    by_cases small : count.toNat < 2 ^ 31
    · simp only [arrayStore, dif_pos small]
      exact ⟨trivial, fun _ _ _ => trivial⟩
    · simp only [arrayStore, dif_neg small] at shrunk
      exact absurd rfl shrunk
  setsizeFails s count failed := by
    by_cases small : count.toNat < 2 ^ 31
    · simp only [arrayStore, dif_pos small] at failed
      omega
    · simp only [arrayStore, dif_neg small]
      exact ⟨trivial, fun _ _ => trivial⟩

instance : NeZero (2 : BlockNo).toNat := ⟨by decide⟩

theorem clockdisk_transparent_array :
    ∃ cache, performAll arrayStore
        [.write 3 fun _ => 7, .read 3 nullBlock, .read 0 nullBlock, .read 1 nullBlock, .setsize 3, .read 3 nullBlock]
        (clockdiskInit ⟨4, fun _ => nullBlock, by decide⟩ fun _ : Fin (2 : BlockNo).toNat => nullBlock) =
      .done [(0, none), (0, some fun _ => 7), (0, some nullBlock), (0, some nullBlock), (4, none),
        (-1, some nullBlock)] cache ∧
      cache.below.size = 3 := by
  obtain ⟨cache, ran, below, _⟩ := clockdisk_transparent arrayStore_isArray ⟨4, fun _ => nullBlock, by decide⟩
    (fun _ : Fin (2 : BlockNo).toNat => nullBlock)
    [.write 3 fun _ => 7, .read 3 nullBlock, .read 0 nullBlock, .read 1 nullBlock, .setsize 3, .read 3 nullBlock]
  exact ⟨cache, ran, congrArg Store.size below⟩

end Egos.Clockdisk
