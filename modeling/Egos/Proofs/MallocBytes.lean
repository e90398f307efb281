import Egos.Proofs.MallocRuns

/-! The bytes of the blocks that a process holds, through the calls of the allocator. A header
is only written where a header is or where a free block is. -/

namespace Egos.Malloc
open Library Heap

/-- An address in a block in use. -/
def Taken (a : Nat) (blocks : List Block) (x : Nat) : Prop := ∃ y ∈ used a blocks, y.1 ≤ x ∧ x < y.1 + y.2

/-- The blocks in use have the bytes that they had. -/
def Spares (blocks : List Block) (h changed : Heap) : Prop := ∀ x, Taken h.base blocks x → changed.memory x = h.memory x

section Taken
variable {front back blocks : List Block} {b : Block} {a x : Nat}

theorem taken_append : Taken a (front ++ back) x ↔ Taken a front x ∨ Taken (a + span front) back x := by
  simp only [Taken, used_append, List.mem_append, or_and_right, exists_or]

theorem taken_cons : Taken a (b :: back) x ↔ (b.free = false ∧ a + 16 ≤ x ∧ x < a + 16 + b.size) ∨
    Taken (a + 16 + b.size) back x := by
  cases free : b.free with
  | false => simp [Taken, used, free]
  | true => simp [Taken, used, free]

theorem taken_inside (taken : Taken a blocks x) : a + 16 ≤ x ∧ x < a + span blocks := by
  induction blocks generalizing a with
  | nil =>
    obtain ⟨y, member, -⟩ := taken
    cases member
  | cons b rest ih =>
    rcases taken_cons.mp taken with here | later
    · simp only [span]
      omega
    · have inside := ih later
      simp only [span]
      omega

/-- Around a free block. -/
theorem taken_around (free : b.free = true) (taken : Taken a (front ++ b :: back) x) :
    Taken a front x ∧ x < a + span front ∨ Taken (a + span front + 16 + b.size) back x ∧
        a + span front + 16 + b.size + 16 ≤ x := by
  rcases taken_append.mp taken with before | later
  · exact .inl ⟨before, (taken_inside before).2⟩
  · rcases taken_cons.mp later with here | behind
    · exact absurd (here.1.symm.trans free) Bool.false_ne_true
    · exact .inr ⟨behind, (taken_inside behind).1⟩

end Taken

variable {h taken : Heap} {front back blocks : List Block} {b : Block} {a mh size x : Nat}

/-- What m_alloc writes when it takes a block lies between the header of the block and the end of the next header. -/
theorem take_outside (took : take size mh h = some taken) (outside : x < mh ∨ mh + 16 + h.size mh + 16 ≤ x) :
    taken.memory x = h.memory x := by
  unfold take at took
  split at took
  case isTrue =>
    obtain rfl := Option.some.inj took
    exact setStatus_outside (by omega)
  case isFalse =>
    obtain ⟨fits, same⟩ := Option.ite_none_right_eq_some.mp took
    obtain rfl := Option.some.inj same
    rw [headerSize] at fits
    unfold divide Heap.after
    simp only [headerSize]
    exact (setStatus_outside (by omega)).trans ((setSize_outside (by omega)).trans
      ((setPrev_outside (by omega)).trans (setHeader_outside (by omega))))

theorem grow_outside (outside : x < mh) : (grow size mh h).memory x = h.memory x := by
  unfold grow Heap.after
  simp only [headerSize]
  exact (setHeader_outside (by omega)).trans (setHeader_outside (by omega))

/-- The end of the loop of m_alloc writes behind the place where the new block starts. -/
theorem scan_last_outside {fuel start p : Nat} (before : Front h h.base 0 front) (last : h.status mh = MStatus.last)
    (starts : trailing mh h = start) (here : start = h.base + span front)
    (given : h.prev start = lastSize 0 front) (small : size ≤ 2 ^ 31)
    (ran : scan size (fuel + 1) mh h = .done p taken) (outside : x < start) : taken.memory x = h.memory x := by
  have chain := grow_chain before given here small
  have fits : size + 16 ≤ (⟨size + pageSize - 16, true⟩ : Block).size := by simp only [pageSize]; omega
  obtain ⟨changed, took, -⟩ := take_split chain fits
  have base : (grow size start h).base = h.base := rfl
  rw [base, ← here] at took
  simp only [scan, last, starts, took] at ran
  cases ran
  exact (take_outside took (.inl outside)).trans (grow_outside outside)

theorem scan_spares {rest : List Block} {fuel p : Nat} (chain : Chain h (front ++ rest)) (small : size ≤ 2 ^ 31)
    (ran : scan size fuel (h.base + span front) h = .done p taken) : Spares (front ++ rest) h taken := by
  induction fuel generalizing front rest with
  | zero => cases ran
  | succ fuel ih =>
    intro x inside
    cases rest with
    | nil =>
      rw [List.append_nil] at chain inside
      have last := chain.last.status
      by_cases free : ∃ others b, front = others ++ [b] ∧ b.free = true
      · obtain ⟨others, b, rfl, free⟩ := free
        rcases taken_around free inside with ⟨-, before⟩ | ⟨none, -⟩
        · exact scan_last_outside chain.split.1 last (trailing_free chain free) rfl chain.head.prev small ran before
        · obtain ⟨y, member, -⟩ := none
          cases member
      · have ends : ∀ b ∈ front.getLast?, b.free = false := by
          intro b final
          obtain ⟨others, rfl⟩ := List.getLast?_eq_some_iff.mp final
          exact Bool.eq_false_iff.mpr fun isFree => free ⟨others, b, rfl, isFree⟩
        have whole : Chain h (front ++ []) := by rwa [List.append_nil]
        exact scan_last_outside whole.split.1 last (trailing_used chain ends) rfl chain.last.prev small ran
          (taken_inside inside).2
    | cons b rest =>
      have head := chain.head
      have onward : scan size fuel (h.after (h.base + span front)) h = .done p taken → taken.memory x = h.memory x := by
        intro later
        rw [after_concat head] at later
        rw [← List.singleton_append, ← List.append_assoc] at chain inside
        exact ih chain later x inside
      cases free : b.free with
      | false =>
        have status : h.status (h.base + span front) = MStatus.inUse := by rw [head.status, Block.status, free]; rfl
        rw [scan_skips (.inl status)] at ran
        exact onward ran
      | true =>
        have status : h.status (h.base + span front) = MStatus.free := by rw [head.status, Block.status, if_pos free]
        cases took : take size (h.base + span front) h with
        | none =>
          rw [scan_skips (.inr ⟨status, took⟩)] at ran
          exact onward ran
        | some changed =>
          rw [scan_takes status took] at ran
          cases ran
          refine take_outside took ?_
          rw [head.size]
          exact (taken_around free inside).imp And.right And.right

theorem mAlloc_spares {lastWord fuel p : Nat} {request : Int} (intact : Intact (prepared lastWord h) blocks)
    (ran : mAlloc lastWord fuel request h = .done p taken) : Spares blocks (prepared lastWord h) taken := by
  unfold mAlloc at ran
  by_cases none : request ≤ 0
  · rw [if_pos none] at ran
    cases ran
  by_cases large : 10000000 < request
  · rw [if_neg none, if_pos large] at ran
    cases ran
  rw [if_neg none, if_neg large] at ran
  have small : align request.toNat ≤ 2 ^ 31 := by
    unfold align
    omega
  exact @scan_spares (prepared lastWord h) taken [] _ blocks _ _ intact.chain small ran

/-! m_free writes headers, and what it merges is free. -/

theorem status_free (marked : b.status = MStatus.free) : b.free = true := by
  unfold Block.status at marked
  split at marked
  case isTrue free => exact free
  case isFalse => cases marked

theorem joinNext_spares {n : Nat} (chain : Chain h (front ++ ⟨n, false⟩ :: back))
    (inside : Taken h.base front x ∨ Taken (h.base + span front + 16 + n) back x) :
    (joinNext (h.base + span front) h).2.memory x = h.memory x := by
  obtain ⟨-, head, tail⟩ := chain.split
  have next : h.after (h.base + span front) = h.base + span front + 16 + n := by rw [Heap.after, head.size, headerSize]
  unfold joinNext
  simp only [next]
  split
  case isFalse => rfl
  case isTrue free =>
    cases back with
    | nil =>
      rw [tail.status] at free
      cases free
    | cons c rest =>
      have isFree : c.free = true := status_free (tail.1.status.symm.trans free)
      have after : h.after (h.base + span front + 16 + n) = h.base + span front + 16 + n + 16 + c.size := by
        rw [Heap.after, tail.1.size, headerSize]
      have apart : x < h.base + span front ∨ h.base + span front + 16 + n + 16 + c.size + 16 ≤ x := by
        rcases inside with before | behind
        · exact .inl (taken_inside before).2
        · rcases taken_cons.mp behind with here | later
          · exact absurd (here.1.symm.trans isFree) Bool.false_ne_true
          · exact .inr (taken_inside later).1
      rw [after]
      exact (setPrev_outside (by omega)).trans (setSize_outside (by omega))

theorem joinPrior_spares {n : Nat} (chain : Chain h (front ++ ⟨n, false⟩ :: back))
    (inside : Taken h.base front x ∨ Taken (h.base + span front + 16 + n) back x) :
    (joinPrior (h.base + span front) (h.base + span front + 16 + n) h).memory x = h.memory x := by
  have apart : x < h.base + span front ∨ h.base + span front + 16 + n + 16 ≤ x :=
    inside.imp (fun before => (taken_inside before).2) fun behind => (taken_inside behind).1
  unfold joinPrior
  split
  case isFalse => exact setStatus_outside (by omega)
  case isTrue merges =>
    obtain ⟨later, free⟩ := merges
    rcases List.eq_nil_or_concat' front with rfl | ⟨others, prior, rfl⟩
    · exact absurd rfl later
    · have given := chain.head.prev
      rw [lastSize_append] at given
      have split : Chain h (others ++ prior :: ⟨n, false⟩ :: back) := by rwa [List.append_assoc] at chain
      rw [before_concat given rfl] at free
      have isFree : prior.free = true := status_free (split.head.status.symm.trans free)
      have clear : x < h.base + span others ∨ h.base + span (others ++ [prior]) + 16 + n + 16 ≤ x := by
        rcases inside with before | behind
        · rcases taken_around isFree before with ⟨-, lower⟩ | ⟨none, -⟩
          · exact .inl lower
          · obtain ⟨y, member, -⟩ := none
            cases member
        · exact .inr (taken_inside behind).1
      have place : h.base + span others + 16 ≤ h.base + span (others ++ [prior]) := by
        rw [span_append]
        simp only [span]
        omega
      rw [before_concat given rfl]
      exact (setPrev_outside (by omega)).trans (setSize_outside (by omega))

/-- m_free leaves the bytes of the other blocks alone. -/
theorem mFree_spares {n : Nat} (intact : Intact h (front ++ ⟨n, false⟩ :: back)) (below : h.brk < h.base + 2 ^ 31)
    (inside : Taken h.base front x ∨ Taken (h.base + span front + 16 + n) back x) :
    (mFree (h.base + span front + 16) h).memory x = h.memory x := by
  have bounded := intact.brk
  rw [span_append, span] at bounded
  obtain ⟨joined, ran, chain, same⟩ := joinNext_absorbs intact.chain (by simp only at bounded; omega)
  have kept := joinNext_spares intact.chain inside
  have place : h.base + span front + 16 - headerSize = h.base + span front := by rw [headerSize]; omega
  have call : mFree (h.base + span front + 16) h =
      joinPrior (joined.base + span front) (joined.base + span front + 16 + (absorb n back).1) joined := by
    rw [mFree, if_neg (by omega)]
    simp only [place, ran, same.base]
  rw [ran] at kept
  rw [call]
  refine (joinPrior_spares chain ?_).trans kept
  rw [same.base]
  refine inside.imp_right fun behind => ?_
  unfold Taken at behind ⊢
  rwa [← absorb_used]

/-! The pointers of a process. -/

/-- The header before a block in use has the size of the block. -/
theorem Intact.size_used {p n : Nat} (intact : Intact h blocks) (member : (p, n) ∈ used h.base blocks) :
    h.size (p - headerSize) = n := by
  obtain ⟨front, back, rfl, place⟩ := used_split member
  have start : p - headerSize = h.base + span front := by
    simp only at place
    rw [headerSize]
    omega
  rw [start]
  exact intact.chain.head.size

/-- A block in use stays one when another block is taken. -/
theorem used_kept {y : Nat × Nat} (member : y ∈ used a blocks) : y ∈ used a (placed size blocks) := by
  rw [Valid.used_placed]
  rw [@firstFit_used blocks a size] at member
  rcases List.mem_append.mp member with before | behind
  · exact List.mem_append_left _ before
  · exact List.mem_append_right _ (List.mem_cons_of_mem _ behind)

namespace Valid
variable {live : List (Nat × Nat)} {lastWord : Nat}

/-- m_alloc leaves the blocks of the process alone, and the size of each is what it was. -/
theorem alloc_keeps {fuel p i : Nat} {request : Int} {y : Nat × Nat}
    (valid : Valid (prepared lastWord h) live blocks) (range : InRange request)
    (ran : mAlloc lastWord fuel request h = .done p taken) (member : y ∈ live) :
    taken.size (y.1 - headerSize) = (prepared lastWord h).size (y.1 - headerSize) ∧
      (i < (prepared lastWord h).size (y.1 - headerSize) →
          taken.memory (y.1 + i) = (prepared lastWord h).memory (y.1 + i)) := by
  obtain ⟨placed, -, -⟩ := valid.alloc range ran
  obtain ⟨enough, changed, called, -, same⟩ := mAlloc_places valid.intact range
  obtain ⟨rfl, rfl⟩ := mAlloc_agree ran called
  obtain ⟨inUse, -⟩ := valid.sized member
  constructor
  · refine placed.intact.size_used ?_
    rw [same.base]
    exact used_kept inUse
  · intro inside
    exact mAlloc_spares valid.intact ran _ ⟨_, inUse, Nat.le_add_right .., Nat.add_lt_add_left inside _⟩

/-- m_free leaves the other blocks of the process alone. -/
theorem free_keeps {ptr requested i : Nat} {y : Nat × Nat} (valid : Valid h live blocks)
    (below : h.brk < h.base + 2 ^ 31)
    (freed : (ptr, requested) ∈ live) (member : y ∈ live) (other : y.1 ≠ ptr) (inside : i < h.size (y.1 - headerSize)) :
    (mFree ptr h).memory (y.1 + i) = h.memory (y.1 + i) := by
  obtain ⟨inUse, -⟩ := valid.sized member
  obtain ⟨n, front, back, rfl, rfl, -⟩ := valid.around freed
  refine mFree_spares valid.intact below ?_
  have here : Taken h.base (front ++ ⟨n, false⟩ :: back) (y.1 + i) :=
    ⟨_, inUse, Nat.le_add_right .., Nat.add_lt_add_left inside _⟩
  refine (taken_append.mp here).imp_right fun later => ?_
  rcases taken_cons.mp later with ⟨-, low, high⟩ | behind
  · exfalso
    have first : (h.base + span front + 16, n) ∈ used h.base (front ++ ⟨n, false⟩ :: back) := by
      simp [used_append, used]
    have apart := used_disjoint inUse first other
    simp only at high
    omega
  · exact behind

/-- m_realloc copies into a block that it has just taken. -/
theorem copied_keeps {ptr p count i : Nat} {y : Nat × Nat} (valid : Valid h live blocks) {requested : Nat}
    (fresh : (p, requested) ∈ live)
    (room : count ≤ requested) (member : y ∈ live) (other : y.1 ≠ p) (inside : i < h.size (y.1 - headerSize)) :
    h.memory.copyBytes count p ptr (y.1 + i) = h.memory (y.1 + i) := by
  have apart := used_disjoint (valid.sized member).1 (valid.sized fresh).1 other
  have large := (valid.sized fresh).2
  simp only at apart large
  exact Memory.copyBytes_outside (by omega)

end Valid

/-! The calls of a process. -/

def Event.gives : Event → Option Nat
  | .free ptr | .realloc ptr _ => some ptr
  | .alloc _ | .calloc .. | .store .. => none

/-- A call of the allocator, and not a store of the process. -/
def Event.isCall : Event → Prop
  | .store .. => False
  | .alloc _ | .calloc .. | .realloc .. | .free _ => True

def SameBlock (before after : Heap) (p : Nat) : Prop :=
  ∀ i < before.size (p - headerSize), after.memory (p + i) = before.memory (p + i)

/-- The bytes of one block are the first bytes of another one. -/
def CopiedTo (before after : Heap) (ptr p size : Nat) : Prop :=
  ∀ i < min size (before.size (ptr - headerSize)), after.memory (p + i) = before.memory (ptr + i)

namespace Sound
variable {lastWord : Nat} {s next : Session} {event : Event} {x : Nat × Nat}

theorem alloc_keeps {fuel p : Nat} {size : Int} {heap : Heap} (sound : Sound s) (range : InRange size)
    (ran : mAlloc lastWord fuel size s.heap = .done p heap) (member : x ∈ s.live) :
    heap.size (x.1 - headerSize) = s.heap.size (x.1 - headerSize) ∧ SameBlock s.heap heap x.1 := by
  obtain ⟨ready, -⟩ := sound.live member
  have same : Malloc.prepared lastWord s.heap = s.heap := if_pos ready
  obtain ⟨blocks, valid⟩ := sound.prepared lastWord
  have kept := fun i => @Valid.alloc_keeps _ _ _ _ lastWord fuel p i size x valid range ran member
  rw [same] at kept
  exact ⟨(kept 0).1, fun i => (kept i).2⟩

theorem not_fresh {fuel p : Nat} {size : Int} {heap : Heap} (sound : Sound s) (range : InRange size)
    (ran : mAlloc lastWord fuel size s.heap = .done p heap) (member : x ∈ s.live) : x.1 ≠ p := by
  obtain ⟨-, blocks, valid⟩ := sound.alloc range ran
  have fresh := (List.nodup_cons.mp valid.distinct).1
  exact fun same => fresh (List.mem_map.mpr ⟨x, member, same⟩)

theorem calloc_keeps {fuel p : Nat} {nitems size : Int} {heap : Heap} (sound : Sound s)
    (range : InRange ((size * nitems).bmod (2 ^ 32)))
    (ran : mCalloc lastWord fuel nitems size s.heap = .done p heap) (member : x ∈ s.live) :
    SameBlock s.heap heap x.1 := by
  obtain ⟨taken, allocated, rfl⟩ := mCalloc_done.mp ran
  obtain ⟨-, blocks, valid⟩ := sound.alloc range allocated
  obtain ⟨sized, kept⟩ := sound.alloc_keeps range allocated member
  have apart := used_disjoint (valid.sized (List.mem_cons_of_mem _ member)).1 (valid.sized List.mem_cons_self).1
    (sound.not_fresh range allocated member)
  have large := (valid.sized List.mem_cons_self).2
  intro i inside
  rw [sized] at apart
  simp only at apart large
  exact (Memory.fillBytes_outside (by omega)).trans (kept i inside)

theorem free_keeps {ptr : Nat} (sound : Sound s) (permits : ptr = 0 ∨ s.IsLive ptr)
    (below : s.heap.brk < s.heap.base + 2 ^ 31)
    (member : x ∈ s.live) (other : x.1 ≠ ptr) : SameBlock s.heap (mFree ptr s.heap) x.1 := by
  intro i inside
  rcases permits with rfl | ⟨requested, freed⟩
  · rw [mFree, if_pos rfl]
  · obtain ⟨-, blocks, valid⟩ := sound.live freed
    exact valid.free_keeps below freed member other inside

/-- The block at the pointer is copied, and the other blocks are left alone. -/
theorem realloc_keeps {fuel ptr p : Nat} {size : Int} {heap : Heap} (sound : Sound s) (range : InRange size)
    (permits : ptr = 0 ∨ s.IsLive ptr) (ran : mRealloc lastWord fuel ptr size s.heap = .done p heap)
    (below : heap.brk < heap.base + 2 ^ 31) :
    (∀ x ∈ s.live, x.1 ≠ ptr → SameBlock s.heap heap x.1) ∧ (ptr ≠ 0 → CopiedTo s.heap heap ptr p size.toNat) := by
  obtain ⟨taken, allocated, rfl⟩ := mRealloc_done.mp ran
  rcases permits with rfl | ⟨requested, member⟩
  · rw [if_pos rfl]
    exact ⟨fun x member _ => (sound.alloc_keeps range allocated member).2, fun live => absurd rfl live⟩
  · obtain ⟨-, blocks, valid⟩ := sound.alloc range allocated
    have later : (ptr, requested) ∈ (p, size.toNat) :: s.live := List.mem_cons_of_mem _ member
    have live : ptr ≠ 0 := by
      obtain ⟨n, front, back, -, place, -⟩ := valid.around later
      omega
    have apart := sound.not_fresh range allocated member
    rw [if_neg live] at below ⊢
    rw [(mFree_frame ptr (copied ptr p size.toNat taken)).brk,
      (mFree_frame ptr (copied ptr p size.toNat taken)).base] at below
    obtain ⟨sized, kept⟩ := sound.alloc_keeps range allocated member
    have stored : Valid (copied ptr p size.toNat taken) ((p, size.toNat) :: s.live) blocks := by
      refine valid.store List.mem_cons_self ⟨rfl, rfl, rfl⟩ fun y apart => Memory.copyBytes_outside ?_
      simp only at apart
      omega
    have size_copied : ∀ y ∈ (p, size.toNat) :: s.live,
        (copied ptr p size.toNat taken).size (y.1 - headerSize) = taken.size (y.1 - headerSize) :=
      fun y among => stored.intact.size_used (valid.sized among).1
    constructor
    · intro y inLive other i inside
      obtain ⟨same, before⟩ := sound.alloc_keeps range allocated inLive
      have among := List.mem_cons_of_mem (p, size.toNat) inLive
      have unmoved := @Valid.copied_keeps taken blocks _ ptr p _ i y valid size.toNat List.mem_cons_self
        (Nat.min_le_left size.toNat (taken.size (ptr - headerSize))) among
          (sound.not_fresh range allocated inLive) (same.symm ▸ inside)
      have freed := @Valid.free_keeps _ _ _ ptr requested i y stored below later among other
        (by rw [size_copied y among, same]; exact inside)
      exact freed.trans (unmoved.trans (before i inside))
    · intro _ i inside
      have disjoint := used_disjoint (valid.sized List.mem_cons_self).1 (valid.sized later).1 (Ne.symm apart)
      have large := (valid.sized List.mem_cons_self).2
      simp only at disjoint large sized
      have freed := @Valid.free_keeps _ _ _ ptr requested i (p,
          size.toNat) stored below later List.mem_cons_self (Ne.symm apart) (by
        rw [size_copied _ List.mem_cons_self]
        dsimp only
        omega)
      have moved : (copied ptr p size.toNat taken).memory (p + i) = taken.memory (ptr + i) :=
        Memory.copyBytes_inside (by omega) (by rw [sized]; exact inside)
      exact freed.trans (moved.trans (kept i (Nat.lt_of_lt_of_le inside (Nat.min_le_right ..))))

end Sound

/-- In every run of a correct process a call of the allocator leaves the bytes of every other block
as they are, and m_realloc gives a block that starts with those of the old one. -/
theorem bytes_kept {lastWord base brk : Nat} {memory : Memory} {events : List Event} {s next : Session} {event : Event}
    (run : Run (Session.Step lastWord) (Session.boot memory base brk) events s) (stepped : s.Step lastWord event next) :
    (event.isCall → ∀ x ∈ s.live, event.gives ≠ some x.1 → x ∈ next.live ∧ SameBlock s.heap next.heap x.1) ∧
      ∀ ptr size, event = .realloc ptr size → ∃ p, next.live = (p, size.toNat) :: s.drop ptr ∧ ¬ next.IsLive ptr ∧
        size ≤ next.heap.size (p - headerSize) ∧ (ptr ≠ 0 → CopiedTo s.heap next.heap ptr p size.toNat) := by
  have sound : Sound s := run.invariant (fun _ _ _ sound stepped => (sound.step stepped).1) (.inl ⟨rfl, rfl⟩)
  have after := (sound.step stepped).1
  obtain ⟨permits, call, below⟩ := stepped
  have stays : ∀ {ptr : Nat} {x : Nat × Nat}, x ∈ s.live → some ptr ≠ some x.1 → x ∈ s.drop ptr := fun member other =>
    List.mem_filter.mpr ⟨member, by simpa using fun same => other (congrArg some same.symm)⟩
  cases call with
  | alloc ran =>
    refine ⟨fun _ x member _ => ⟨List.mem_cons_of_mem _ member, (sound.alloc_keeps permits ran member).2⟩,
      fun ptr size other => by cases other⟩
  | calloc ran =>
    refine ⟨fun _ x member _ => ⟨List.mem_cons_of_mem _ member, sound.calloc_keeps permits ran member⟩,
      fun ptr size other => by cases other⟩
  | @realloc ptr size fuel p heap ran =>
    obtain ⟨others, moved⟩ := sound.realloc_keeps permits.1 permits.2 ran below
    refine ⟨fun _ x member other => ⟨List.mem_cons_of_mem _ (stays member other),
      others x member fun same => other (congrArg some same.symm)⟩, ?_⟩
    intro ptr size same
    cases same
    obtain ⟨-, blocks, valid⟩ := after.live List.mem_cons_self
    refine ⟨p, rfl, ?_, ?_, moved⟩
    · rintro ⟨requested, member⟩
      rcases List.mem_cons.mp member with same | dropped
      · cases same
        rcases permits.2 with null | ⟨requested, member⟩
        · obtain ⟨n, front, back, -, place, -⟩ := valid.around List.mem_cons_self
          omega
        · obtain ⟨taken, allocated, -⟩ := mRealloc_done.mp ran
          exact sound.not_fresh permits.1 allocated member rfl
      · simpa using (List.mem_filter.mp dropped).2
    · exact (Int.self_le_toNat size).trans (Int.ofNat_le.mpr (valid.sized List.mem_cons_self).2)
  | @free ptr =>
    have frame := mFree_frame ptr s.heap
    rw [frame.brk, frame.base] at below
    refine ⟨fun _ x member other => ⟨stays member other, sound.free_keeps permits below member
      fun same => other (congrArg some same.symm)⟩,
      fun ptr size other => by cases other⟩
  | store => exact ⟨fun call => call.elim, fun ptr size other => by cases other⟩

private def allocated : Heap := (mAlloc 4080 1 16 (Session.boot (fun _ => 0) 0 0).heap).state

private def stored : Session := ⟨{ allocated with memory := allocated.memory.store8 4112 7 }, [(4112, 16)]⟩

private def enlarged : Session := ⟨(mRealloc 4080 2 4112 40 stored.heap).state, [(4144, 40)]⟩

/-- A byte that the process has stored is copied into the new block. -/
theorem bytes_kept_sample :
    ∃ s next p, Run (Session.Step 4080) (Session.boot (fun _ => 0) 0 0) [.alloc 16, .store 4112 7] s ∧
    s.Step 4080 (.realloc 4112 40) next ∧ next.live = [(p, 40)] ∧ next.heap.memory p = 7 := by
  have first : Run (Session.Step 4080) (Session.boot (fun _ => 0) 0 0) [.alloc 16] ⟨allocated, [(4112, 16)]⟩ :=
    .snoc .nil ⟨⟨by decide, by decide⟩, .alloc (Outcome.done_of_value (by decide +kernel)), by decide +kernel⟩
  have inside : ∃ x ∈ [(4112, 16)], x.1 ≤ 4112 ∧ 4112 < x.1 + x.2 := by decide
  have second : Run (Session.Step 4080) (Session.boot (fun _ => 0) 0 0) [.alloc 16, .store 4112 7] stored :=
    .snoc first ⟨.inr (.inr (.inr inside)), .store, by decide +kernel⟩
  have live : (4112, 16) ∈ stored.live := List.mem_singleton.mpr rfl
  have third : stored.Step 4080 (.realloc 4112 40) enlarged :=
    ⟨⟨⟨by decide, by decide⟩, .inr ⟨16, live⟩⟩, .realloc (Outcome.done_of_value (by decide +kernel)), by decide +kernel⟩
  obtain ⟨p, given, -, -, moved⟩ := (bytes_kept second third).2 4112 40 rfl
  obtain rfl : 4144 = p := congrArg (fun live : List (Nat × Nat) => (live.headD (0, 0)).1) given
  have kept : 0 < min (40 : Int).toNat (stored.heap.size (4112 - headerSize)) := by decide +kernel
  exact ⟨stored, enlarged, 4144, second, third, rfl, moved (by decide) 0 kept⟩

/-! m_calloc. The product of its arguments is a 32-bit integer. -/

def Cleared (h : Heap) (p : Nat) (bytes : Int) : Prop :=
  bytes ≤ h.size (p - headerSize) ∧ ∀ i : Nat, (i : Int) < bytes → h.memory (p + i) = 0

theorem mAlloc_inRange {lastWord fuel p : Nat} {request : Int} (ran : mAlloc lastWord fuel request h = .done p taken) :
    InRange request := by
  unfold mAlloc at ran
  by_cases none : request ≤ 0
  · rw [if_pos none] at ran
    cases ran
  by_cases large : 10000000 < request
  · rw [if_neg none, if_pos large] at ran
    cases ran
  exact ⟨by omega, by omega⟩

/-- The block has the size of the wrapped product, rounded up, and that many zeros. -/
theorem Sound.calloc_block {lastWord fuel p : Nat} {nitems size : Int} {s : Session} (sound : Sound s)
    (ran : mCalloc lastWord fuel nitems size s.heap = .done p h) : InRange ((size * nitems).bmod (2 ^ 32)) ∧
      h.size (p - headerSize) = align ((size * nitems).bmod (2 ^ 32)).toNat ∧
          ∀ i < ((size * nitems).bmod (2 ^ 32)).toNat, h.memory (p + i) = 0 := by
  obtain ⟨taken, allocated, rfl⟩ := mCalloc_done.mp ran
  have range := mAlloc_inRange allocated
  obtain ⟨blocks, valid⟩ := sound.prepared lastWord
  obtain ⟨placed, -, inUse⟩ := valid.alloc range allocated
  have cleared : Valid { taken with memory := taken.memory.fillBytes 0 ((size * nitems).bmod (2 ^ 32)).toNat p } _ _ :=
    placed.store List.mem_cons_self ⟨rfl, rfl, rfl⟩
      fun y apart => Memory.fillBytes_outside (by simp only at apart; omega)
  exact ⟨range, cleared.intact.size_used inUse, fun i inside => Memory.fillBytes_inside inside⟩

theorem calloc_clears {lastWord base brk : Nat} {memory : Memory} {events : List Event} {s : Session}
    (run : Run (Session.Step lastWord) (Session.boot memory base brk) events s) {nitems size : Int}
    (items : 0 < nitems) (positive : 0 < size) :
    (∀ fuel p after, mCalloc lastWord fuel nitems size s.heap = .done p after → Cleared after p (nitems * size)) ↔
      (InRange ((size * nitems).bmod (2 ^ 32)) → nitems * size ≤ 10000000) := by
  have sound : Sound s := run.invariant (fun _ _ _ sound stepped => (sound.step stepped).1) (.inl ⟨rfl, rfl⟩)
  have product : 0 < nitems * size := Int.mul_pos items positive
  rw [Int.mul_comm size nitems]
  constructor
  · intro clears range
    obtain ⟨next, call⟩ := @Sound.returns lastWord s (.calloc nitems size) sound
      (by rwa [← Int.mul_comm size nitems] at range)
    cases call with
    | calloc ran =>
      obtain ⟨-, block, -⟩ := sound.calloc_block ran
      have large := (clears _ _ _ ran).1
      have turns := Int.bmod_add_bdiv (nitems * size) (2 ^ 32)
      rw [Int.mul_comm size nitems] at block
      unfold align at block
      unfold InRange at range
      omega
  · intro small fuel p after ran
    obtain ⟨range, block, zeros⟩ := sound.calloc_block ran
    rw [Int.mul_comm size nitems] at range block zeros
    have bounded := small range
    have whole : (nitems * size).bmod (2 ^ 32) = nitems * size := Int.bmod_eq_of_le (by omega) (by omega)
    rw [whole] at block zeros
    have up := align_le (nitems * size).toNat
    exact ⟨by omega, fun i inside => zeros i (by omega)⟩

/-- 3 items of 5 bytes are 15 zeros. -/
theorem calloc_clears_small :
    ∃ p after, mCalloc 4080 1 3 5 (Session.boot (fun _ => 7) 0 0).heap = .done p after ∧ Cleared after p 15 := by
  have run : Run (Session.Step 4080) (Session.boot (fun _ => 7) 0 0) [] (Session.boot (fun _ => 7) 0 0) := .nil
  have ran : mCalloc 4080 1 3 5 (Session.boot (fun _ => 7) 0 0).heap = .done 4112 _ :=
    Outcome.done_of_value (by decide +kernel)
  exact ⟨4112, _, ran, (calloc_clears run (by decide) (by decide)).mpr (fun _ => by decide) 1 4112 _ ran⟩

/-- 65537 items of 65537 bytes are taken for 131073 bytes. -/
theorem calloc_wraps : ¬ ∀ (lastWord : Nat) (s : Session) (nitems size : Int) (fuel p : Nat) (after : Heap),
    0 < nitems → nitems < 2 ^ 31 → 0 < size → size < 2 ^ 31 →
        mCalloc lastWord fuel nitems size s.heap = .done p after → Cleared after p (nitems * size) := by
  intro clears
  let s := Session.boot (fun _ => 0) 0 0
  have sound : Sound s := .inl ⟨rfl, rfl⟩
  obtain ⟨next, call⟩ := @Sound.returns 4080 s (.calloc 65537 65537) sound ⟨by decide, by decide⟩
  cases call with
  | calloc ran =>
    obtain ⟨-, block, -⟩ := sound.calloc_block ran
    have large := (clears 4080 s 65537 65537 _ _ _ (by decide) (by decide) (by decide) (by decide) ran).1
    rw [block] at large
    exact absurd large (by decide)

end Egos.Malloc
