import Egos.Block.Checkdisk

/-! The check layer lets no changed block through, and raises no false alarm. -/

namespace Egos.Checkdisk
open Library Disk

namespace BlockList
variable {bl : BlockList} {offset : BlockNo} {block : Block}

theorem find_cons (entry : BlockNo × Block) (i : BlockNo) :
    find (entry :: bl) i = if entry.1 = i then some entry.2 else bl.find i := by
  unfold find
  by_cases here : entry.1 = i
  · simp [here]
  · simp [here]

theorem find_truncate (nblocks i : BlockNo) :
    (bl.truncate nblocks).find i = if i < nblocks then bl.find i else none := by
  induction bl with
  | nil => simp [truncate, find]
  | cons entry rest ih =>
    unfold truncate at ih ⊢
    rw [List.filter_cons, find_cons]
    by_cases inside : entry.1 < nblocks
    · rw [if_pos (decide_eq_true inside), find_cons, ih]
      by_cases here : entry.1 = i
      · simp [here, here ▸ inside]
      · simp [here]
    · rw [if_neg (by simpa using inside), ih]
      by_cases here : entry.1 = i
      · simp [here ▸ inside]
      · simp [here]

theorem find_replace {known : Block} (found : bl.find offset = some known) (i : BlockNo) :
    (replace offset block bl).find i = Function.update bl.find offset (some block) i := by
  induction bl with
  | nil => simp [find] at found
  | cons entry rest ih =>
    rw [find_cons] at found
    unfold replace
    by_cases here : entry.1 = offset
    · rw [if_pos here, find_cons]
      by_cases same : i = offset
      · simp [same]
      · have apart : ¬ offset = i := Ne.symm same
        simp [same, apart, find_cons, here]
    · rw [if_neg here] at found ⊢
      rw [find_cons, ih found]
      by_cases same : i = offset
      · simp [same, here]
      · simp [same, find_cons]

theorem find_enter (i : BlockNo) : (bl.enter offset block).find i = Function.update bl.find offset (some block) i := by
  unfold enter
  cases found : bl.find offset with
  | some known => exact find_replace found i
  | none =>
    rw [find_cons]
    by_cases same : i = offset
    · simp [same]
    · have apart : ¬ offset = i := Ne.symm same
      simp [same, apart]

end BlockList

variable {σ : Type} {b : BlockStore σ}

def Sound (known : BlockNo → Option Block) : Event → Prop
  | .read offset result block => 0 ≤ result → ∀ last, known offset = some last → block = last
  | _ => True

section Steps
variable {s : State σ} {offset nblocks : BlockNo} {block buffer : Block}

theorem below_run {α : Type} (method : σ → α × σ) :
    below method s = .done (method s.below).1 { s with below := (method s.below).2 } := rfl

/-- The three ways in which a read ends. -/
theorem read_failed (failed : (b.read offset buffer s.below).1.1 < 0) : checkdiskRead b offset buffer s =
    .done (-1, (b.read offset buffer s.below).1.2) { s with below := (b.read offset buffer s.below).2 } := by
  unfold checkdiskRead
  rw [Prog.bind_done (below_run _)]
  dsimp only
  rw [if_pos failed]
  rfl

theorem read_known {last : Block} (served : ¬ (b.read offset buffer s.below).1.1 < 0)
    (found : s.bl.find offset = some last) :
    checkdiskRead b offset buffer s = if last ≠ (b.read offset buffer s.below).1.2 then
      .halted .corrupted { s with below := (b.read offset buffer s.below).2 } else
      .done (0, (b.read offset buffer s.below).1.2) { s with below := (b.read offset buffer s.below).2 } := by
  unfold checkdiskRead
  rw [Prog.bind_done (below_run _)]
  dsimp only
  rw [if_neg served, Prog.bind_done (Prog.get_run _)]
  dsimp only
  rw [found]
  dsimp only
  split_ifs
  · rfl
  · rfl

theorem read_new (served : ¬ (b.read offset buffer s.below).1.1 < 0) (absent : s.bl.find offset = none) :
    checkdiskRead b offset buffer s = .done (0, (b.read offset buffer s.below).1.2)
      { below := (b.read offset buffer s.below).2, bl := (offset, (b.read offset buffer s.below).1.2) :: s.bl } := by
  unfold checkdiskRead
  rw [Prog.bind_done (below_run _)]
  dsimp only
  rw [if_neg served, Prog.bind_done (Prog.get_run _)]
  dsimp only
  rw [absent]
  rfl

theorem write_failed (failed : (b.write offset block s.below).1 < 0) : checkdiskWrite b offset block s =
    .done (b.write offset block s.below).1 { s with below := (b.write offset block s.below).2 } := by
  unfold checkdiskWrite
  rw [Prog.bind_done (below_run _), if_pos failed]
  rfl

theorem write_served (served : ¬ (b.write offset block s.below).1 < 0) : checkdiskWrite b offset block s =
    .done (b.write offset block s.below).1
        { below := (b.write offset block s.below).2, bl := s.bl.enter offset block } := by
  unfold checkdiskWrite
  rw [Prog.bind_done (below_run _), if_neg served]
  rfl

end Steps

/-- Whatever the store does, the block list is what the client can know. -/
theorem exec_sound {call : Call} {s after : State σ} {event : Event} {known : BlockNo → Option Block}
    (same : ∀ i, s.bl.find i = known i)
    (ran : exec b call s = .done event after) : Sound known event ∧ ∀ i, after.bl.find i = remember known event i := by
  cases call with
  | nblocks =>
    cases ran
    exact ⟨trivial, same⟩
  | setsize nblocks =>
    cases ran
    refine ⟨trivial, fun i => ?_⟩
    rw [BlockList.find_truncate, same]
    rfl
  | write offset block =>
    obtain ⟨result, middle, wrote, returned⟩ := Prog.bind_returns.mp ran
    cases returned
    refine ⟨trivial, fun i => ?_⟩
    by_cases failed : (b.write offset block s.below).1 < 0
    · rw [write_failed failed] at wrote
      cases wrote
      simp [remember, failed, same]
    · rw [write_served failed] at wrote
      cases wrote
      simp [remember, failed, BlockList.find_enter, Function.update_apply, same]
  | read offset buffer =>
    obtain ⟨⟨result, block⟩, middle, read, returned⟩ := Prog.bind_returns.mp ran
    cases returned
    by_cases failed : (b.read offset buffer s.below).1.1 < 0
    · rw [read_failed failed] at read
      cases read
      exact ⟨fun success => absurd success (by decide), fun i => by simp [remember, same]⟩
    cases found : s.bl.find offset with
    | none =>
      rw [read_new failed found] at read
      cases read
      refine ⟨fun _ last held => ?_, fun i => ?_⟩
      · rw [← same, found] at held
        cases held
      · by_cases here : offset = i
        · simp [remember, BlockList.find_cons, here]
        · simp [remember, BlockList.find_cons, here, Ne.symm here, same]
    | some last =>
      rw [read_known failed found] at read
      by_cases differs : last ≠ (b.read offset buffer s.below).1.2
      · rw [if_pos differs] at read
        cases read
      rw [if_neg differs] at read
      have equal := not_not.mp differs
      cases read
      refine ⟨fun _ held known => ?_, fun i => ?_⟩
      · rw [← same, found] at known
        cases known
        exact equal.symm
      · by_cases here : i = offset
        · simp [remember, here, found, equal]
        · simp [remember, here, same]

theorem run_sound {calls : List Call} {s final : State σ} {events : List Event} {known : BlockNo → Option Block}
    (same : ∀ i, s.bl.find i = known i) (ran : run b calls s = .done events final) :
    ∀ before event after, events = before ++ event :: after → Sound (before.foldl remember known) event := by
  induction calls generalizing s events known with
  | nil =>
    cases ran
    intro before event after split
    simp at split
  | cons call calls ih =>
    obtain ⟨first, middle, executed, rest⟩ := Prog.bind_returns.mp ran
    obtain ⟨later, last, ranOn, returned⟩ := Prog.bind_returns.mp rest
    cases returned
    obtain ⟨sound, kept⟩ := exec_sound same executed
    intro before event after split
    cases before with
    | nil =>
      cases split
      exact sound
    | cons head tail =>
      cases split
      exact ih kept ranOn tail event after rfl

/-- Over an array, the block list holds blocks of the array. -/
theorem exec_array {contents : σ → BlockNo → Option Block} (array : IsArray b contents) {s : State σ}
    (listed : ∀ i block, s.bl.find i = some block → contents s.below i = some block) (call : Call) :
    ∃ bl : BlockList, exec b call s = .done (b.exec call s.below).1 { below := (b.exec call s.below).2, bl } ∧
      ∀ i block, bl.find i = some block → contents (b.exec call s.below).2 i = some block := by
  cases call with
  | nblocks => exact ⟨s.bl, rfl, fun i block found => array.nblocks _ i block (listed i block found)⟩
  | setsize nblocks =>
    refine ⟨s.bl.truncate nblocks, rfl, fun i block found => ?_⟩
    rw [BlockList.find_truncate] at found
    split_ifs at found with inside
    exact array.setsize _ nblocks i block inside (listed i block found)
  | write offset block =>
    unfold exec
    by_cases failed : (b.write offset block s.below).1 < 0
    · refine ⟨s.bl, Prog.bind_done (write_failed failed), fun i held found => ?_⟩
      exact array.unwritten _ offset block i held (.inl failed) (listed i held found)
    · refine ⟨s.bl.enter offset block, Prog.bind_done (write_served failed), fun i held found => ?_⟩
      rw [BlockList.find_enter] at found
      by_cases here : i = offset
      · rw [here, Function.update_self] at found
        cases found
        rw [here]
        exact array.written _ offset _ (Int.not_lt.mp failed)
      · rw [Function.update_of_ne here] at found
        exact array.unwritten _ offset block i held (.inr here) (listed i held found)
  | read offset buffer =>
    have kept : ∀ i block, s.bl.find i = some block → contents (b.read offset buffer s.below).2 i = some block :=
      fun i block found => array.unread _ offset buffer i block (listed i block found)
    unfold exec BlockStore.exec
    dsimp only
    rcases array.reads s.below offset buffer with success | failure
    · have served : ¬ (b.read offset buffer s.below).1.1 < 0 := by rw [success]; decide
      have read := array.read _ offset buffer success
      rw [success]
      cases found : s.bl.find offset with
      | none =>
        refine ⟨_, Prog.bind_done (read_new served found), fun i block listed => ?_⟩
        rw [BlockList.find_cons] at listed
        by_cases here : offset = i
        · rw [if_pos here] at listed
          cases listed
          rw [← here]
          exact read
        · rw [if_neg here] at listed
          exact kept i block listed
      | some last =>
        have equal : last = (b.read offset buffer s.below).1.2 :=
          Option.some.inj ((kept offset last found).symm.trans read)
        have ran : checkdiskRead b offset buffer s = _ := read_known served found
        rw [if_neg (not_not.mpr equal)] at ran
        exact ⟨s.bl, Prog.bind_done ran, kept⟩
    · have failed : (b.read offset buffer s.below).1.1 < 0 := by rw [failure]; decide
      refine ⟨s.bl, ?_, kept⟩
      rw [Prog.bind_done (read_failed failed), failure]
      rfl

theorem run_array {contents : σ → BlockNo → Option Block} (array : IsArray b contents) {s : State σ}
    (listed : ∀ i block, s.bl.find i = some block → contents s.below i = some block) (calls : List Call) :
    ∃ bl : BlockList, run b calls s = .done (b.run calls s.below).1 { below := (b.run calls s.below).2, bl } := by
  induction calls generalizing s with
  | nil => exact ⟨s.bl, rfl⟩
  | cons call calls ih =>
    obtain ⟨bl, executed, kept⟩ := exec_array array listed call
    obtain ⟨final, ran⟩ := ih (s := ⟨(b.exec call s.below).2, bl⟩) kept
    refine ⟨final, ?_⟩
    unfold run
    rw [Prog.bind_done executed, Prog.bind_done ran]
    rfl

/-- No read that succeeds returns another block than the one last read or written at its offset, whatever the store
does; over an array there is no alarm, and the results are those of the array. -/
theorem checks_reads (b : BlockStore σ) (start : σ) (calls : List Call) :
    (∀ events final, run b calls (.init start) = .done events final → ∀ before offset result block after,
      events = before ++ .read offset result block :: after → 0 ≤ result →
        ∀ last, known before offset = some last → block = last) ∧
    ∀ contents, IsArray b contents → ∃ bl : BlockList,
      run b calls (.init start) = .done (b.run calls start).1 { below := (b.run calls start).2, bl } := by
  constructor
  · intro events final ran before offset result block after split success last held
    have nothing : ∀ i, (State.init start).bl.find i = (fun _ => none : BlockNo → Option Block) i := fun _ => rfl
    exact run_sound nothing ran before _ after split success last held
  · exact fun contents array => run_array array (s := .init start) (fun i block found => nomatch found) calls

def arrayStore : BlockStore Store where
  nblocks store := (Int.ofNat store.size.toNat, store)
  read offset buffer store :=
    match store.read offset with
    | some block => ((0, block), store)
    | none => ((-1, buffer), store)
  write offset block store :=
    match store.write offset block with
    | some store => (0, store)
    | none => (-1, store)
  setsize _ store := (-1, store)

theorem arrayStore_array : IsArray arrayStore Store.read where
  nblocks _ _ _ held := held
  reads store offset buffer := by
    unfold arrayStore
    dsimp only
    cases store.read offset with
    | some block => exact .inl rfl
    | none => exact .inr rfl
  read store offset buffer success := by
    unfold arrayStore at success ⊢
    dsimp only at success ⊢
    cases found : store.read offset with
    | some block => exact found
    | none =>
      rw [found] at success
      cases success
  unread store offset buffer i block held := by
    unfold arrayStore
    dsimp only
    cases store.read offset with
    | some block => exact held
    | none => exact held
  written store offset block success := by
    unfold arrayStore Store.write at success ⊢
    dsimp only at success ⊢
    by_cases inside : offset < store.size
    · rw [if_pos inside]
      unfold Store.read
      dsimp only
      rw [if_pos inside, Function.update_self]
    · rw [if_neg inside] at success
      cases success
  unwritten store offset block i held other found := by
    unfold arrayStore Store.write at other ⊢
    dsimp only at other ⊢
    by_cases inside : offset < store.size
    · rw [if_pos inside] at other ⊢
      have apart : i.toNat ≠ offset.toNat := fun same => other.elim
        (fun failed => absurd failed (Int.lt_irrefl 0)) fun apart => apart (UInt32.toNat_inj.mp same)
      unfold Store.read at found ⊢
      dsimp only
      rwa [Function.update_of_ne apart]
    · rw [if_neg inside]
      exact found
  setsize _ _ _ _ _ held := held

def sampleStore : Store := { size := 4, block := fun _ => nullBlock, reported := by decide }

def sampleCalls : List Call :=
  [.write 1 fun _ => 7, .read 1 nullBlock, .setsize 1, .read 1 nullBlock, .read 9 nullBlock]

theorem checks_reads_sample :
    (∀ events final, run arrayStore sampleCalls (.init sampleStore) = .done events final →
      ∀ before offset result block after,
      events = before ++ .read offset result block :: after → 0 ≤ result →
        ∀ last, known before offset = some last → block = last) ∧
    ∃ bl : BlockList, run arrayStore sampleCalls (.init sampleStore) =
      .done (arrayStore.run sampleCalls sampleStore).1 { below := (arrayStore.run sampleCalls sampleStore).2, bl } :=
  ⟨(checks_reads arrayStore sampleStore sampleCalls).1,
    (checks_reads arrayStore sampleStore sampleCalls).2 _ arrayStore_array⟩

end Egos.Checkdisk
