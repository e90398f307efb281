import Egos.Proofs.MallocChain

/-! m_alloc and m_free change the headers in memory as the list of blocks says. -/

namespace Egos.Malloc
open Library Heap

variable {h : Heap} {front back blocks : List Block} {b : Block} {a size : Nat}

structure SameFrame (h changed : Heap) : Prop where
  base : changed.base = h.base
  brk : changed.brk = h.brk
  initialized : changed.initialized = h.initialized

theorem Chain.split (chain : Chain h (front ++ back)) :
    Front h h.base 0 front ∧ Tail h (h.base + span front) (lastSize 0 front) back := tail_append.mp chain

theorem Chain.head (chain : Chain h (front ++ b :: back)) :
    HeaderAt h (h.base + span front) b.size (lastSize 0 front) b.status :=
  chain.split.2.1

theorem Chain.last (chain : Chain h blocks) : HeaderAt h (h.base + span blocks) 0 (lastSize 0 blocks) MStatus.last := by
  rw [← List.append_nil blocks] at chain
  exact chain.split.2

/-- A chain put together from the headers before a block, its own, and those after it. -/
theorem Chain.make {mh : Nat} (here : mh = h.base + span front) (before : Front h h.base 0 front)
    (head : HeaderAt h mh b.size (lastSize 0 front) b.status) (tail : Tail h (mh + 16 + b.size) b.size back) :
    Chain h (front ++ b :: back) := by
  subst here
  exact tail_append.mpr ⟨before, head, tail⟩

theorem take_exact (chain : Chain h (front ++ b :: back)) (fits : b.size = size) :
    ∃ taken, take size (h.base + span front) h = some taken ∧ Chain taken (front ++ ⟨size, false⟩ :: back) ∧
        SameFrame h taken := by
  obtain ⟨before, head, tail⟩ := chain.split
  generalize place : h.base + span front = mh at head tail
  subst fits
  refine ⟨h.setStatus mh MStatus.inUse, by rw [take, if_pos head.size], ?_, rfl, rfl, rfl⟩
  refine Chain.make place.symm (before.frame fun x _ _ => setStatus_outside (by omega)) ⟨?_, ?_, ?_⟩
    (tail.frame fun x _ _ => setStatus_outside (by omega))
  · exact (size_setStatus (.inl rfl)).trans head.size
  · exact (prev_setStatus (.inl rfl)).trans head.prev
  · exact status_setStatus (by decide)

theorem divide_chain (chain : Chain h (front ++ b :: back)) (fits : size + 16 ≤ b.size) :
    Chain (divide size (h.base + span front) h) (front ++ ⟨size, false⟩ :: ⟨b.size - size - 16, true⟩ :: back) := by
  obtain ⟨before, head, tail⟩ := chain.split
  have small : b.size < 2 ^ 32 := head.size ▸ Memory.load32_lt
  generalize place : h.base + span front = mh at head tail
  have next : mh + 16 + b.size = mh + 16 + size + 16 + (b.size - size - 16) := by omega
  simp only [divide, after, headerSize, head.size]
  rw [next] at tail ⊢
  generalize rest : b.size - size - 16 = n at tail ⊢
  let made := h.setHeader (mh + 16 + size) n size MStatus.free
  have other : HeaderAt made (mh + 16 + size) n size MStatus.free :=
    headerAt_setHeader (by omega) (by omega) (by decide)
  change Chain (((made.setPrev (mh + 16 + size + 16 + n) (made.size (mh + 16 + size))).setSize mh size).setStatus mh
    MStatus.inUse) _
  rw [other.size]
  have outside : ∀ x, (x < mh ∨ mh + 16 ≤ x) → (x < mh + 16 + size + 16 + n ∨ mh + 16 + size + 16 + n + 16 ≤ x) →
      (((made.setPrev (mh + 16 + size + 16 + n) n).setSize mh size).setStatus mh MStatus.inUse).memory x =
          made.memory x :=
    fun x far apart => (setStatus_outside far).trans ((setSize_outside far).trans (setPrev_outside apart))
  refine Chain.make place.symm (before.frame fun x _ _ => ?_) ⟨?_, ?_,
    ?_⟩ ⟨other.frame fun x _ _ => outside x (by omega) (by omega), ?_⟩
  · exact (outside x (by omega) (by omega)).trans (setHeader_outside (by omega))
  · exact (size_setStatus (.inl rfl)).trans (size_setSize (by omega))
  · rw [prev_setStatus (.inl rfl), prev_setSize (.inl rfl), prev_setPrev_apart (by omega)]
    exact (head.frame fun x _ _ => setHeader_outside (by omega)).prev
  · exact status_setStatus (by decide)
  · have kept : ∀ k, k + 4 ≤ 16 → made.memory.load32 (mh + 16 + size + 16 + n + k) =
        h.memory.load32 (mh + 16 + size + 16 + n + k) :=
      fun k _ => Memory.load32_congr fun x _ _ => setHeader_outside (by omega)
    refine tail.setPrev ?_ ?_ ?_ fun x _ => (outside x (by omega) (by omega)).trans (setHeader_outside (by omega))
    · rw [size_setStatus (by omega), size_setSize_apart (by omega), size_setPrev (.inl rfl)]
      exact kept 0 (by decide)
    · rw [prev_setStatus (by omega), prev_setSize (by omega), prev_setPrev (by omega)]
    · rw [status_setStatus_apart (by omega), status_setSize (by omega), status_setPrev (.inl rfl)]
      exact kept 8 (by decide)

theorem take_split (chain : Chain h (front ++ b :: back)) (fits : size + 16 ≤ b.size) :
    ∃ taken, take size (h.base + span front) h = some taken ∧
      Chain taken (front ++ ⟨size, false⟩ :: ⟨b.size - size - 16, true⟩ :: back) ∧ SameFrame h taken := by
  refine ⟨divide size (h.base + span front) h, ?_, divide_chain chain fits, rfl, rfl, rfl⟩
  rw [take, chain.head.size, if_neg (by omega), headerSize, if_pos fits]

theorem take_none (chain : Chain h (front ++ b :: back)) (different : b.size ≠ size) (small : ¬size + 16 ≤ b.size) :
    take size (h.base + span front) h = none := by
  rw [take, chain.head.size, if_neg different, headerSize, if_neg small]

/-- Where the block before a header starts. -/
theorem before_concat (given : h.prev a = b.size)
    (here : a = h.base + span (front ++ [b])) : h.before a = h.base + span front := by
  rw [span_append] at here
  simp only [span] at here
  rw [Heap.before, given, headerSize]
  omega

theorem span_pos (front : List Block) (b : Block) : span (front ++ [b]) ≠ 0 := by
  rw [span_append, span]
  omega

/-- What m_alloc stores as the size of the block before. -/
theorem other_size {mh : Nat} (before : Front h h.base 0 front) (given : h.prev mh = lastSize 0 front)
    (here : mh = h.base + span front) :
    (if mh = h.base then 0 else h.size (h.before mh)) = lastSize 0 front := by
  rcases List.eq_nil_or_concat' front with rfl | ⟨others, b, rfl⟩
  · rw [if_pos (by simpa [span] using here)]
    rfl
  · have later := span_pos others b
    rw [lastSize_append] at given ⊢
    rw [if_neg (by omega), before_concat given here]
    exact (front_append.mp before).2.1.size

theorem grow_chain {mh : Nat} (before : Front h h.base 0 front) (given : h.prev mh = lastSize 0 front)
    (here : mh = h.base + span front)
    (small : size ≤ 2 ^ 31) : Chain (grow size mh h) (front ++ [⟨size + pageSize - 16, true⟩]) := by
  have smallPrev : lastSize 0 front < 2 ^ 32 := given ▸ Memory.load32_lt
  simp only [grow, headerSize, after, other_size before given here]
  generalize sized : size + pageSize - 16 = n
  rw [pageSize] at sized
  let made := { h with brk := mh + 16 + size + pageSize }.setHeader mh n (lastSize 0 front) MStatus.free
  have head : HeaderAt made mh n (lastSize 0 front) MStatus.free := headerAt_setHeader (by omega) smallPrev (by decide)
  change Chain (made.setHeader (mh + 16 + made.size mh) 0 (made.size mh) MStatus.last) _
  rw [head.size]
  refine Chain.make here (before.frame fun x _ _ => ?_) (head.frame fun x _ _ => setHeader_outside (by omega))
    (headerAt_setHeader (by decide) (by omega) (by decide))
  exact (setHeader_outside (by omega)).trans (setHeader_outside (by omega))

/-- The list of blocks of a heap, with the break right after the last header. -/
structure Intact (h : Heap) (blocks : List Block) : Prop where
  chain : Chain h blocks
  brk : h.brk = h.base + span blocks + 16

structure SameHeap (h changed : Heap) : Prop where
  base : changed.base = h.base
  initialized : changed.initialized = h.initialized

theorem trailing_used (chain : Chain h front) (ends : ∀ b ∈ front.getLast?, b.free = false) :
    trailing (h.base + span front) h = h.base + span front := by
  refine if_neg fun ⟨later, freed⟩ => ?_
  rcases List.eq_nil_or_concat' front with rfl | ⟨others, b, rfl⟩
  · exact later (by simp [span])
  · have given := chain.last.prev
    rw [lastSize_append] at given
    rw [before_concat given rfl, chain.head.status, Block.status, ends b (by simp)] at freed
    cases freed

theorem trailing_free (chain : Chain h (front ++ [b])) (free : b.free = true) :
    trailing (h.base + span (front ++ [b])) h = h.base + span front := by
  have given := chain.last.prev
  rw [lastSize_append] at given
  have later := span_pos front b
  rw [trailing, before_concat given rfl, chain.head.status, Block.status, free, if_pos ⟨by omega, rfl⟩]

/-- The end of the loop of m_alloc: the block is taken from new memory. -/
theorem scan_grown {mh start : Nat} (before : Front h h.base 0 front) (last : h.status mh = MStatus.last)
    (starts : trailing mh h = start) (here : start = h.base + span front) (given : h.prev start = lastSize 0 front)
    (small : size ≤ 2 ^ 31) :
    ∃ taken, scan size 1 mh h = .done (start + 16) taken ∧
      Intact taken (front ++ [⟨size, false⟩, ⟨pageSize - 32, true⟩]) ∧ SameHeap h taken := by
  have chain := grow_chain before given here small
  have base : (grow size start h).base = h.base := rfl
  have fits : size + 16 ≤ (⟨size + pageSize - 16, true⟩ : Block).size := by simp only [pageSize]; omega
  obtain ⟨taken, took, split, same⟩ := take_split chain fits
  have rest : size + pageSize - 16 - size - 16 = pageSize - 32 := by omega
  rw [rest] at split
  rw [base, ← here] at took
  refine ⟨taken, ?_, ⟨split, ?_⟩, same.base, same.initialized⟩
  · simp only [scan, last, starts, took, headerSize]
  · rw [same.brk, same.base, base, span_append]
    simp only [grow, setHeader, setStatus, setPrev, setSize, span, headerSize, pageSize, here]
    omega

theorem scan_last (chain : Chain h front) (ends : ∀ b ∈ front.getLast?, b.free = false) (small : size ≤ 2 ^ 31) :
    ∃ taken, scan size 1 (h.base + span front) h = .done (h.base + span front + 16) taken ∧
      Intact taken (front ++ [⟨size, false⟩, ⟨pageSize - 32, true⟩]) ∧ SameHeap h taken := by
  have split : Chain h (front ++ []) := by rwa [List.append_nil]
  exact scan_grown split.split.1 chain.last.status (trailing_used chain ends) rfl chain.last.prev small

theorem scan_spare (chain : Chain h (front ++ [b])) (free : b.free = true) (small : size ≤ 2 ^ 31) :
    ∃ taken, scan size 1 (h.base + span (front ++ [b])) h = .done (h.base + span front + 16) taken ∧
      Intact taken (front ++ [⟨size, false⟩, ⟨pageSize - 32, true⟩]) ∧ SameHeap h taken :=
  scan_grown chain.split.1 chain.last.status (trailing_free chain free) rfl chain.head.prev small

theorem after_concat (head : HeaderAt h (h.base + span front) b.size a size) :
    h.after (h.base + span front) = h.base + span (front ++ [b]) := by
  rw [Heap.after, head.size, headerSize, span_append]
  simp only [span]
  omega

theorem scan_takes {fuel mh : Nat} {taken : Heap} (free : h.status mh = MStatus.free)
    (took : take size mh h = some taken) :
    scan size (fuel + 1) mh h = .done (mh + 16) taken := by
  simp only [scan, free, took, headerSize]

theorem scan_skips {fuel mh : Nat} (skipped : h.status mh = MStatus.inUse ∨ h.status mh = MStatus.free ∧
    take size mh h = none) :
    scan size (fuel + 1) mh h = scan size fuel (h.after mh) h := by
  rcases skipped with inUse | ⟨free, large⟩
  · simp only [scan, inUse]
  · simp only [scan, free, large]

theorem Intact.step (intact : Intact h (front ++ b :: back)) : Intact h ((front ++ [b]) ++ back) := by
  rwa [List.append_assoc]

/-- From the header after `front` on, the loop of m_alloc finds what first fit finds. -/
def Finds (size : Nat) (h : Heap) (front rest : List Block) : Prop :=
  ∃ fuel taken, scan size fuel (h.base + span front) h =
    .done (h.base + span (front ++ (firstFit size rest).1) + 16) taken ∧
    Intact taken (front ++ placed size rest) ∧ SameHeap h taken

theorem Finds.here {rest : List Block} {taken : Heap} (status : h.status (h.base + span front) = MStatus.free)
    (found : firstFit size (b :: back) = ([], rest)) (took : take size (h.base + span front) h = some taken)
    (grown : Intact taken (front ++ ⟨size, false⟩ :: rest)) (same : SameHeap h taken) :
    Finds size h front (b :: back) := by
  refine ⟨1, taken, ?_, ?_, same⟩
  · rw [scan_takes status took, found, List.append_nil]
  · rwa [placed, found]

theorem Finds.skip (head : HeaderAt h (h.base + span front) b.size a b.status)
    (passes : ∀ fuel, scan size (fuel + 1) (h.base + span front) h = scan size fuel (h.after (h.base + span front)) h)
    (found : firstFit size (b :: back) = (b :: (firstFit size back).1, (firstFit size back).2))
    (later : Finds size h (front ++ [b]) back) : Finds size h front (b :: back) := by
  obtain ⟨fuel, taken, scanned, grown, same⟩ := later
  refine ⟨fuel + 1, taken, ?_, ?_, same⟩
  · rw [passes, after_concat head, scanned, found, List.append_assoc, List.singleton_append]
  · rw [placed, found]
    simpa [placed] using grown

theorem finds_free (intact : Intact h (front ++ b :: back)) (free : b.free = true) (small : size ≤ 2 ^ 31)
    (later : back ≠ [] → Finds size h (front ++ [b]) back) : Finds size h front (b :: back) := by
  have head := intact.chain.head
  have status : h.status (h.base + span front) = MStatus.free := by rw [head.status, Block.status, if_pos free]
  by_cases exact : b.size = size
  · obtain ⟨taken, took, chain, same⟩ := take_exact intact.chain exact
    refine .here status (firstFit_exact free exact) took ⟨chain, ?_⟩ ⟨same.base, same.initialized⟩
    rw [same.brk, same.base, intact.brk]
    simp only [span_append, span, exact]
  by_cases split : size + 16 ≤ b.size
  · obtain ⟨taken, took, chain, same⟩ := take_split intact.chain split
    refine .here status (firstFit_split free split) took ⟨chain, ?_⟩ ⟨same.base, same.initialized⟩
    rw [same.brk, same.base, intact.brk]
    simp only [span_append, span]
    omega
  have passes (fuel : Nat) := @scan_skips h size fuel _ (.inr ⟨status, take_none intact.chain exact split⟩)
  by_cases last : back = []
  · subst last
    obtain ⟨taken, scanned, grown, same⟩ := scan_spare intact.chain free small
    refine ⟨2, taken, ?_, ?_, same⟩
    · rw [passes, after_concat head, scanned, firstFit_spare free exact split, List.append_nil]
    · rwa [placed, firstFit_spare free exact split]
  · exact (later last).skip head passes (firstFit_skip (.inr ⟨exact, split, last⟩))

/-- The loop of m_alloc, over the blocks before and after the header that it looks at. -/
theorem scan_finds (small : size ≤ 2 ^ 31) : ∀ (rest front : List Block), Intact h (front ++ rest) →
    (rest = [] → ∀ b ∈ front.getLast?, b.free = false) → Finds size h front rest
  | [], front, intact, ends => by
    have chain := intact.chain
    rw [List.append_nil] at chain
    obtain ⟨taken, scanned, grown, same⟩ := scan_last chain (ends rfl) small
    exact ⟨1, taken, by simpa [firstFit] using scanned, by simpa [placed, firstFit] using grown, same⟩
  | b :: rest, front, intact, _ => by
    by_cases free : b.free = true
    · exact finds_free intact free small fun more => scan_finds small rest (front ++ [b]) intact.step
        fun none => absurd none more
    · have head := intact.chain.head
      have status : h.status (h.base + span front) = MStatus.inUse := by rw [head.status, Block.status, if_neg free]
      exact (scan_finds small rest (front ++ [b]) intact.step (by simp [free])).skip head
        (fun _ => scan_skips (.inl status))
        (firstFit_skip (.inl (by simpa using free)))

def prepared (lastWord : Nat) (h : Heap) : Heap := if h.initialized then h else setUp lastWord h

theorem prepared_initialized (lastWord : Nat) (h : Heap) : (prepared lastWord h).initialized = true := by
  rw [prepared]
  split_ifs with ready
  · exact ready
  · rfl

theorem setUp_intact (lastWord : Nat) (h : Heap) : Intact (setUp lastWord h) [⟨pageSize - 16, true⟩] where
  chain := by
    simp only [setUp, headerSize, pageSize]
    generalize align (lastWord + 4) = mh
    let first := { h with base := mh, brk := mh + 16 + 4096, initialized := true }.setHeader mh
      (4096 - 16) 0 MStatus.free
    have head : HeaderAt first mh (4096 - 16) 0 MStatus.free := headerAt_setHeader (by decide) (by decide) (by decide)
    change HeaderAt (first.setHeader (mh + 4096) 0 (4096 - 16) MStatus.last) mh _ _ _ ∧
      HeaderAt _ (mh + 16 + (4096 - 16)) _ _ _
    exact ⟨head.frame fun x _ _ => setHeader_outside (by omega), headerAt_setHeader (by decide) (by decide) (by decide)⟩
  brk := by
    simp only [setUp, setHeader, setStatus, setPrev, setSize, span, headerSize, pageSize]

theorem mAlloc_places {lastWord : Nat} {size : Int} (intact : Intact (prepared lastWord h) blocks)
    (range : InRange size) :
    ∃ fuel taken,
      mAlloc lastWord fuel size h =
        .done ((prepared lastWord h).base + span (firstFit (align size.toNat) blocks).1 + 16) taken ∧
      Intact taken (placed (align size.toNat) blocks) ∧ SameHeap (prepared lastWord h) taken := by
  obtain ⟨positive, bounded⟩ := range
  have small : align size.toNat ≤ 2 ^ 31 := by
    unfold align
    omega
  obtain ⟨fuel, taken, scanned, grown, same⟩ := scan_finds small blocks [] intact (by simp)
  refine ⟨fuel, taken, ?_, grown, same⟩
  rw [mAlloc, if_neg (by omega), if_neg (by omega)]
  exact scanned

/-- Two neighbours become one block when the first header is given the size of both. -/
theorem merge_chain {n next : Nat} {c : Block} (chain : Chain h (front ++ b :: c :: back))
    (sum : b.size + (16 + c.size) = n)
    (here : a = h.base + span front) (there : next = a + 16 + n) (small : n < 2 ^ 32) :
    Chain ((h.setSize a n).setPrev next n) (front ++ ⟨n, b.free⟩ :: back) := by
  obtain ⟨before, head, -, tail⟩ := chain.split
  rw [← here] at head tail
  have place : a + 16 + b.size + 16 + c.size = next := by omega
  rw [place] at tail
  have outside : ∀ x, (x < a ∨ a + 16 ≤ x) → (x < next ∨ next + 16 ≤ x) →
      ((h.setSize a n).setPrev next n).memory x = h.memory x :=
    fun x far apart => (setPrev_outside apart).trans (setSize_outside far)
  refine Chain.make here (before.frame fun x _ _ => outside x (by omega) (by omega)) ⟨?_, ?_, ?_⟩ ?_
  · exact (size_setPrev (by omega)).trans (size_setSize small)
  · exact (prev_setPrev_apart (by omega)).trans ((prev_setSize (.inl rfl)).trans head.prev)
  · exact (status_setPrev (by omega)).trans ((status_setSize (.inl rfl)).trans head.status)
  · change Tail _ (a + 16 + n) n back
    rw [← there]
    refine tail.setPrev ?_ (prev_setPrev small) ?_ fun x _ => outside x (by omega) (by omega)
    · exact (size_setPrev (.inl rfl)).trans (size_setSize_apart (by omega))
    · exact (status_setPrev (.inl rfl)).trans (status_setSize (by omega))

theorem joinNext_absorbs {n : Nat} (chain : Chain h (front ++ ⟨n, false⟩ :: back))
    (small : 16 + n + span back < 2 ^ 32) :
    ∃ joined, joinNext (h.base + span front) h = (h.base + span front + 16 + (absorb n back).1, joined) ∧
      Chain joined (front ++ ⟨(absorb n back).1, false⟩ :: (absorb n back).2) ∧ SameFrame h joined := by
  obtain ⟨-, head, tail⟩ := chain.split
  have next : h.after (h.base + span front) = h.base + span front + 16 + n := by rw [Heap.after, head.size, headerSize]
  cases back with
  | nil =>
    have status : h.status (h.after (h.base + span front)) ≠ MStatus.free := by rw [next, tail.status]; decide
    exact ⟨h, by rw [joinNext, if_neg status, next]; rfl, chain, rfl, rfl, rfl⟩
  | cons c rest =>
    by_cases free : c.free = true
    · have status : h.status (h.after (h.base + span front)) = MStatus.free := by
        rw [next, tail.1.status, Block.status, if_pos free]
      have found : absorb n (c :: rest) = (n + (16 + c.size), rest) := if_pos free
      have sum : n + (16 + c.size) < 2 ^ 32 := by simp only [span] at small; omega
      have sized : h.size (h.base + span front) = n := head.size
      have after : h.after (h.base + span front + 16 + n) = h.base + span front + 16 + (n + (16 + c.size)) := by
        rw [Heap.after, tail.1.size, headerSize]
        omega
      have merged : Chain ((h.setSize (h.base + span front) (n + (16 + c.size))).setPrev
        (h.base + span front + 16 + (n + (16 + c.size)))
          (n + (16 + c.size))) (front ++ ⟨n + (16 + c.size), false⟩ :: rest) := merge_chain chain rfl rfl rfl sum
      rw [found]
      refine ⟨_, ?_, merged, rfl, rfl, rfl⟩
      rw [joinNext, if_pos status]
      simp only [next, after, tail.1.size, sized, headerSize, size_setSize sum]
    · have status : h.status (h.after (h.base + span front)) ≠ MStatus.free := by
        rw [next, tail.1.status, Block.status, if_neg free]
        decide
      have found : absorb n (c :: rest) = (n, c :: rest) := if_neg free
      exact ⟨h, by rw [joinNext, if_neg status, next, found], found ▸ chain, rfl, rfl, rfl⟩

theorem joinPrior_settles {n : Nat} (chain : Chain h (front ++ ⟨n, false⟩ :: back))
    (small : span front + 16 + n < 2 ^ 32) :
    Chain (joinPrior (h.base + span front) (h.base + span front + 16 + n) h) (settle front n back) ∧
      SameFrame h (joinPrior (h.base + span front) (h.base + span front + 16 + n) h) := by
  have freed : Chain (h.setStatus (h.base + span front) MStatus.free) (front ++ ⟨n, true⟩ :: back) := by
    obtain ⟨before, head, tail⟩ := chain.split
    refine Chain.make rfl (before.frame fun x _ _ => setStatus_outside (by omega)) ⟨?_, ?_, ?_⟩
      (tail.frame fun x _ _ => setStatus_outside (by simp only at *; omega))
    · exact (size_setStatus (.inl rfl)).trans head.size
    · exact (prev_setStatus (.inl rfl)).trans head.prev
    · exact status_setStatus (by decide)
  rcases List.eq_nil_or_concat' front with rfl | ⟨others, prior, rfl⟩
  · rw [joinPrior, if_neg fun both => both.1 (by simp [span])]
    exact ⟨freed, rfl, rfl, rfl⟩
  have given := chain.head.prev
  rw [lastSize_append] at given
  have later := span_pos others prior
  have place := before_concat given rfl
  have split : Chain h (others ++ prior :: ⟨n, false⟩ :: back) := by rwa [List.append_assoc] at chain
  have status : h.status (h.before (h.base + span (others ++ [prior]))) = prior.status := place ▸ split.head.status
  have sized : h.size (h.base + span (others ++ [prior])) = n := chain.head.size
  rw [settle_concat]
  by_cases free : prior.free = true
  · have merges : h.base + span (others ++ [prior]) ≠ h.base ∧
        h.status (h.before (h.base + span (others ++ [prior]))) = MStatus.free :=
      ⟨by omega, by rw [status, Block.status, if_pos free]⟩
    have order : n + 16 = 16 + n := Nat.add_comm ..
    rw [span_append] at small
    simp only [span] at small
    have sum : prior.size + (16 + n) < 2 ^ 32 := by omega
    have next : h.base + span (others ++ [prior]) + 16 + n = h.base + span others + 16 + (prior.size + (16 + n)) := by
      rw [span_append]
      simp only [span]
      omega
    have merged := merge_chain split rfl rfl next sum
    rw [joinPrior, if_pos merges, if_pos free]
    simp only [place, split.head.size, sized, headerSize, order, size_setSize sum]
    rw [free] at merged
    exact ⟨merged, rfl, rfl, rfl⟩
  · have keeps : ¬(h.base + span (others ++ [prior]) ≠ h.base ∧
        h.status (h.before (h.base + span (others ++ [prior]))) = MStatus.free) := by
      rw [status, Block.status, if_neg free]
      exact fun both => by cases both.2
    rw [joinPrior, if_neg keeps, if_neg free]
    exact ⟨freed, rfl, rfl, rfl⟩

/-- m_free of a block of the chain. -/
theorem mFree_releases {n : Nat} (intact : Intact h (front ++ ⟨n, false⟩ :: back)) (below : h.brk < h.base + 2 ^ 31) :
    Intact (mFree (h.base + span front + 16) h) (release front n back) ∧
        SameFrame h (mFree (h.base + span front + 16) h) := by
  have bounded := intact.brk
  rw [span_append, span] at bounded
  have merged : n + span back = (absorb n back).1 + span (absorb n back).2 := absorb_span
  obtain ⟨joined, ran, chain, same⟩ := joinNext_absorbs intact.chain (by simp only at bounded; omega)
  have settled := joinPrior_settles chain (by simp only at bounded; omega)
  have place : h.base + span front + 16 - headerSize = h.base + span front := by rw [headerSize]; omega
  have call : mFree (h.base + span front + 16) h =
      joinPrior (joined.base + span front) (joined.base + span front + 16 + (absorb n back).1) joined := by
    rw [mFree, if_neg (by omega)]
    simp only [place, ran, same.base]
  have whole : SameFrame h (mFree (h.base + span front + 16) h) := by
    rw [call]
    exact ⟨settled.2.base.trans same.base, settled.2.brk.trans same.brk, settled.2.initialized.trans same.initialized⟩
  refine ⟨⟨?_, ?_⟩, whole⟩
  · rw [call]
    exact settled.1
  · rw [whole.brk, whole.base, release_span, bounded]
    simp only
    omega

/-- How long the loop may go on does not matter once it has come to an end. -/
theorem scan_agree {fuel other mh p q : Nat} {taken more : Heap} (first : scan size fuel mh h = .done p taken)
    (second : scan size other mh h = .done q more) : p = q ∧ taken = more := by
  induction fuel generalizing other mh h with
  | zero => cases first
  | succ fuel ih =>
    cases other with
    | zero => cases second
    | succ other =>
      simp only [scan] at first second
      split at first
      all_goals simp only [*] at second
      · split at first
        all_goals simp only [*] at second
        · cases first; cases second; exact ⟨rfl, rfl⟩
        · exact ih first second
      · split at first
        all_goals simp only [*] at second
        · cases first; cases second; exact ⟨rfl, rfl⟩
        · exact ih first second
      · exact ih first second
      · cases first

theorem mAlloc_agree {lastWord fuel other p q : Nat} {size : Int} {taken more : Heap}
    (first : mAlloc lastWord fuel size h = .done p taken) (second : mAlloc lastWord other size h = .done q more) :
    p = q ∧ taken = more := by
  unfold mAlloc at first second
  by_cases none : size ≤ 0
  · rw [if_pos none] at first
    cases first
  by_cases large : 10000000 < size
  · rw [if_neg none, if_pos large] at first
    cases first
  rw [if_neg none, if_neg large] at first second
  exact scan_agree first second

/-- What is stored inside a block leaves the chain alone. -/
theorem Intact.inside {changed : Heap} (intact : Intact h (front ++ b :: back)) (same : SameFrame h changed)
    (outside : ∀ x, x < h.base + span front + 16 ∨ h.base + span front + 16 + b.size ≤ x →
    changed.memory x = h.memory x) :
    Intact changed (front ++ b :: back) := by
  obtain ⟨before, head, tail⟩ := intact.chain.split
  refine ⟨?_, by rw [same.brk, same.base, intact.brk]⟩
  rw [Chain, same.base]
  exact tail_append.mpr ⟨before.frame fun x _ _ => outside x (by omega), head.frame fun x _ _ => outside x (by omega),
    tail.frame fun x _ _ => outside x (by omega)⟩

/-- What is stored outside of the heap leaves the chain alone. -/
theorem Intact.outside {changed : Heap} (intact : Intact h blocks) (same : SameFrame h changed)
    (outside : ∀ x, h.base ≤ x → x < h.brk → changed.memory x = h.memory x) : Intact changed blocks := by
  refine ⟨?_, by rw [same.brk, same.base, intact.brk]⟩
  rw [Chain, same.base]
  have bounds := intact.brk
  exact Tail.frame intact.chain fun x _ _ => outside x (by omega) (by omega)

theorem joinNext_frame (mh : Nat) (h : Heap) : SameFrame h (joinNext mh h).2 := by
  dsimp only [joinNext]
  split_ifs
  · exact ⟨rfl, rfl, rfl⟩
  · exact ⟨rfl, rfl, rfl⟩

theorem joinPrior_frame (mh next : Nat) (h : Heap) : SameFrame h (joinPrior mh next h) := by
  dsimp only [joinPrior]
  split_ifs
  · exact ⟨rfl, rfl, rfl⟩
  · exact ⟨rfl, rfl, rfl⟩

theorem mFree_frame (ptr : Nat) (h : Heap) : SameFrame h (mFree ptr h) := by
  dsimp only [mFree]
  split_ifs
  · exact ⟨rfl, rfl, rfl⟩
  · have next := joinNext_frame (ptr - headerSize) h
    have prior := joinPrior_frame (ptr - headerSize) (joinNext (ptr - headerSize) h).1 (joinNext (ptr - headerSize) h).2
    exact ⟨prior.base.trans next.base, prior.brk.trans next.brk, prior.initialized.trans next.initialized⟩

end Egos.Malloc
