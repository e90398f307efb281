import Egos.Proofs.MallocCalls
import Egos.Library.Transition

/-! The heap of a process through all calls that a correct process can make. -/

namespace Egos.Malloc
open Library

section Used
variable {front back blocks : List Block} {a : Nat} {x : Nat × Nat}

theorem align_le (n : Nat) : n ≤ align n := by
  unfold align
  omega

theorem dvd_align (n : Nat) : 16 ∣ align n := Nat.dvd_mul_left ..

theorem used_start (member : x ∈ used a blocks) : a + 16 ≤ x.1 := by
  induction blocks generalizing a with
  | nil => cases member
  | cons b rest ih =>
    rcases List.mem_append.mp member with here | later
    · split_ifs at here
      · cases here
      · obtain rfl := List.mem_singleton.mp here
        exact Nat.le_refl _
    · have reached := ih later
      omega

/-- A block in use lies between others. -/
theorem used_split (member : x ∈ used a blocks) :
    ∃ front back, blocks = front ++ ⟨x.2, false⟩ :: back ∧ x.1 = a + span front + 16 := by
  induction blocks generalizing a with
  | nil => cases member
  | cons b rest ih =>
    rcases List.mem_append.mp member with here | later
    · split_ifs at here with free
      · cases here
      · obtain rfl := List.mem_singleton.mp here
        have same : b = ⟨b.size, false⟩ := by
          cases b
          simpa using free
        exact ⟨[], rest, by rw [List.nil_append, ← same], rfl⟩
    · obtain ⟨front, back, split, place⟩ := ih later
      refine ⟨b :: front, back, by rw [split, List.cons_append], ?_⟩
      simp only [span]
      omega

theorem used_apart : (used a blocks).Pairwise fun x y => x.1 + x.2 + 16 ≤ y.1 := by
  induction blocks generalizing a with
  | nil => exact .nil
  | cons b rest ih =>
    refine List.pairwise_append.mpr ⟨?_, ih, fun x first y later => ?_⟩
    · split_ifs <;> simp
    · split_ifs at first
      · cases first
      · obtain rfl := List.mem_singleton.mp first
        exact used_start later

theorem used_nodup : ((used a blocks).map Prod.fst).Nodup :=
  List.pairwise_map.mpr (used_apart.imp fun apart same => by omega)

theorem span_dvd (tidy : Tidy blocks) : 16 ∣ span blocks := by
  induction blocks with
  | nil => exact Nat.dvd_zero 16
  | cons b rest ih =>
    exact Nat.dvd_add (Nat.dvd_add (Nat.dvd_refl 16) (tidy.multiples b List.mem_cons_self)) (ih tidy.rest)

end Used

def headers (a : Nat) : List Block → List Nat
  | [] => [a]
  | b :: rest => a :: headers (a + 16 + b.size) rest

/-- What the blocks of a heap have to do with the pointers that the process holds. -/
structure Valid (h : Heap) (live : List (Nat × Nat)) (blocks : List Block) : Prop where
  aligned : 16 ∣ h.base
  intact : Intact h blocks
  tidy : Tidy blocks
  kept : (live.map Prod.fst).Perm ((used h.base blocks).map Prod.fst)
  large : ∀ x ∈ live, ∃ n, (x.1, n) ∈ used h.base blocks ∧ x.2 ≤ n

namespace Valid
variable {h changed : Heap} {live : List (Nat × Nat)} {blocks : List Block} {lastWord : Nat}

theorem used_placed (a size : Nat) (blocks : List Block) : used a (placed size blocks) =
    used a (firstFit size blocks).1 ++ (a + span (firstFit size blocks).1 + 16, size) ::
      used (a + span (firstFit size blocks).1 + 16 + size) (firstFit size blocks).2 := by
  simp only [placed, used_append, used, Bool.false_eq_true, ↓reduceIte, List.singleton_append]

/-- m_alloc hands out a block that was not in use. -/
theorem alloc {fuel p : Nat} {size : Int} (valid : Valid (prepared lastWord h) live blocks) (range : InRange size)
    (ran : mAlloc lastWord fuel size h = .done p changed) :
    Valid changed ((p, size.toNat) :: live) (placed (align size.toNat) blocks) ∧ changed.initialized = true ∧
      (p, align size.toNat) ∈ used changed.base (placed (align size.toNat) blocks) := by
  obtain ⟨enough, taken, called, grown, same⟩ := mAlloc_places valid.intact range
  obtain ⟨rfl, rfl⟩ := mAlloc_agree ran called
  have before := @firstFit_used blocks (prepared lastWord h).base (align size.toNat)
  have after := used_placed (prepared lastWord h).base (align size.toNat) blocks
  generalize used (prepared lastWord h).base (firstFit (align size.toNat) blocks).1 = front at before after
  generalize used _ (firstFit (align size.toNat) blocks).2 = back at before after
  refine ⟨⟨?_, grown, placed_tidy valid.tidy (dvd_align _), ?_, ?_⟩, ?_, ?_⟩
  · rw [same.base]
    exact valid.aligned
  · have kept := valid.kept
    rw [before, List.map_append] at kept
    rw [same.base, after, List.map_cons, List.map_append, List.map_cons]
    exact (kept.cons _).trans List.perm_middle.symm
  · intro x member
    rw [same.base, after]
    rcases List.mem_cons.mp member with rfl | inLive
    · exact ⟨align size.toNat, by simp, align_le _⟩
    · obtain ⟨n, inUse, enough⟩ := valid.large x inLive
      rw [before] at inUse
      refine ⟨n, ?_, enough⟩
      rcases List.mem_append.mp inUse with left | right
      · exact List.mem_append_left _ left
      · exact List.mem_append_right _ (List.mem_cons_of_mem _ right)
  · exact same.initialized.trans (prepared_initialized lastWord h)
  · rw [same.base, after]
    simp

/-- The blocks around the block of a live pointer. -/
theorem around {ptr requested : Nat} (valid : Valid h live blocks) (member : (ptr, requested) ∈ live) :
    ∃ n front back, blocks = front ++ ⟨n, false⟩ :: back ∧ ptr = h.base + span front + 16 ∧ requested ≤ n := by
  obtain ⟨n, inUse, enough⟩ := valid.large _ member
  obtain ⟨front, back, split, place⟩ := used_split inUse
  exact ⟨n, front, back, split, place, enough⟩

/-- m_free gives back the block of a live pointer and no other. -/
theorem free {ptr requested : Nat} (valid : Valid h live blocks) (below : h.brk < h.base + 2 ^ 31)
    (member : (ptr, requested) ∈ live) :
    ∃ rest, Valid (mFree ptr h) (live.filter (·.1 ≠ ptr)) rest := by
  obtain ⟨n, front, back, rfl, rfl, -⟩ := valid.around member
  obtain ⟨released, same⟩ := mFree_releases valid.intact below
  have before : used h.base (front ++ ⟨n, false⟩ :: back) =
      used h.base front ++ (h.base + span front + 16, n) :: used (h.base + span front + 16 + n) back := by
    simp only [used_append, used, Bool.false_eq_true, ↓reduceIte, List.singleton_append]
  have after : used h.base (release front n back) = used h.base front ++ used (h.base + span front + 16 + n) back :=
    release_used
  have distinct : ((used h.base (front ++ ⟨n, false⟩ :: back)).map Prod.fst).Nodup := used_nodup
  have kept := valid.kept
  have large := valid.large
  rw [before] at kept large distinct
  generalize used h.base front = left at before after distinct kept large
  generalize used (h.base + span front + 16 + n) back = right at before after distinct kept large
  generalize h.base + span front + 16 = ptr at before after distinct kept large released same
  rw [List.map_append, List.map_cons] at distinct kept
  have apart := (List.nodup_middle.mp distinct).notMem
  rw [List.mem_append, not_or] at apart
  have stays : ∀ x ∈ left.map Prod.fst ++ right.map Prod.fst, x ≠ ptr := by
    intro x among same
    subst same
    rcases List.mem_append.mp among with inLeft | inRight
    · exact apart.1 inLeft
    · exact apart.2 inRight
  refine ⟨release front n back, ?_, released, release_tidy valid.tidy, ?_, ?_⟩
  · rw [same.base]
    exact valid.aligned
  · rw [same.base, after, List.map_append]
    have filtered := kept.filter (· ≠ ptr)
    rw [List.filter_map] at filtered
    refine filtered.trans (.of_eq ?_)
    rw [List.filter_append, List.filter_cons_of_neg (by simp), ← List.filter_append]
    exact List.filter_eq_self.mpr (by simpa using stays)
  · intro x inLive
    rw [List.mem_filter] at inLive
    have other : x.1 ≠ ptr := by simpa using inLive.2
    obtain ⟨m, inUse, enough⟩ := large x inLive.1
    rw [same.base, after]
    refine ⟨m, ?_, enough⟩
    rcases List.mem_append.mp inUse with inLeft | inRest
    · exact List.mem_append_left _ inLeft
    · rcases List.mem_cons.mp inRest with here | inRight
      · exact absurd (congrArg Prod.fst here) other
      · exact List.mem_append_right _ inRight

/-- A process stores into its live blocks, or outside of the heap. -/
theorem store {x : Nat × Nat} (valid : Valid h live blocks) (member : x ∈ live) (same : SameFrame h changed)
    (outside : ∀ y, y < x.1 ∨ x.1 + x.2 ≤ y → changed.memory y = h.memory y) : Valid changed live blocks := by
  obtain ⟨n, front, back, rfl, place, enough⟩ := valid.around member
  refine ⟨same.base ▸ valid.aligned, valid.intact.inside same fun y apart => outside y ?_, valid.tidy, ?_, ?_⟩
  · simp only at apart
    omega
  · rw [same.base]
    exact valid.kept
  · rw [same.base]
    exact valid.large

theorem distinct (valid : Valid h live blocks) : (live.map Prod.fst).Nodup := valid.kept.nodup_iff.mpr used_nodup

theorem storeOutside (valid : Valid h live blocks) (same : SameFrame h changed)
    (outside : ∀ y, h.base ≤ y → y < h.brk → changed.memory y = h.memory y) : Valid changed live blocks := by
  refine ⟨same.base ▸ valid.aligned, valid.intact.outside same outside, valid.tidy, ?_, ?_⟩
  · rw [same.base]
    exact valid.kept
  · rw [same.base]
    exact valid.large

/-- The first call finds a heap with nothing in use. -/
theorem setUp (lastWord : Nat) (h : Heap) : Valid (setUp lastWord h) [] [⟨pageSize - 16, true⟩] where
  aligned := dvd_align _
  intact := setUp_intact lastWord h
  tidy := ⟨by simp [pageSize], by simp⟩
  kept := by simp [used]
  large := by simp

end Valid
def copied (ptr p size : Nat) (h : Heap) : Heap :=
  { h with memory := h.memory.copyBytes (min size (h.size (ptr - headerSize))) p ptr }

theorem mRealloc_done {lastWord fuel ptr p : Nat} {size : Int} {h after : Heap} :
    mRealloc lastWord fuel ptr size h = .done p after ↔ ∃ taken, mAlloc lastWord fuel size h = .done p taken ∧
      after = if ptr = 0 then taken else mFree ptr (copied ptr p size.toNat taken) := by
  unfold mRealloc
  rw [Prog.bind_returns]
  by_cases null : ptr = 0
  · simp [null, eq_comm]
  · simp only [null, ne_eq, not_false_eq_true, ↓reduceIte]
    constructor
    · rintro ⟨q, taken, ran, rest⟩
      cases rest
      exact ⟨taken, ran, rfl⟩
    · rintro ⟨taken, ran, rfl⟩
      exact ⟨p, taken, ran, rfl⟩

theorem mCalloc_done {lastWord fuel p : Nat} {nitems size : Int} {h after : Heap} :
    mCalloc lastWord fuel nitems size h = .done p after ↔
      ∃ taken, mAlloc lastWord fuel ((size * nitems).bmod (2 ^ 32)) h = .done p taken ∧
        after = { taken with memory := taken.memory.fillBytes 0 ((size * nitems).bmod (2 ^ 32)).toNat p } := by
  unfold mCalloc
  rw [Prog.bind_returns]
  constructor
  · rintro ⟨q, taken, ran, rest⟩
    cases rest
    exact ⟨taken, ran, rfl⟩
  · rintro ⟨taken, ran, rfl⟩
    exact ⟨p, taken, ran, rfl⟩

/-- Before the first allocation there is no heap and nothing is live. -/
def Sound (s : Session) : Prop :=
  s.heap.initialized = false ∧ s.live = [] ∨ s.heap.initialized = true ∧ ∃ blocks, Valid s.heap s.live blocks

namespace Sound
variable {lastWord : Nat} {s next : Session} {event : Event}

theorem prepared (sound : Sound s) (lastWord : Nat) : ∃ blocks, Valid (prepared lastWord s.heap) s.live blocks := by
  rcases sound with ⟨fresh, none⟩ | ⟨ready, blocks, valid⟩
  · rw [Malloc.prepared, fresh, none]
    exact ⟨_, Valid.setUp lastWord s.heap⟩
  · rw [Malloc.prepared, ready]
    exact ⟨blocks, valid⟩

theorem live (sound : Sound s) {ptr requested : Nat} (member : (ptr, requested) ∈ s.live) :
    s.heap.initialized = true ∧ ∃ blocks, Valid s.heap s.live blocks := by
  rcases sound with ⟨-, none⟩ | ready
  · rw [none] at member
    cases member
  · exact ready

theorem alloc {fuel p : Nat} {size : Int} {heap : Heap} (sound : Sound s) (range : InRange size)
    (ran : mAlloc lastWord fuel size s.heap = .done p heap) :
    heap.initialized = true ∧ ∃ blocks, Valid heap ((p, size.toNat) :: s.live) blocks := by
  obtain ⟨blocks, valid⟩ := sound.prepared lastWord
  obtain ⟨after, ready, -⟩ := valid.alloc range ran
  exact ⟨ready, _, after⟩

/-- A null pointer is not live, so that dropping it drops nothing. -/
theorem drop_null (sound : Sound s) : s.drop 0 = s.live := by
  refine List.filter_eq_self.mpr fun x member => ?_
  obtain ⟨-, blocks, valid⟩ := sound.live member
  obtain ⟨n, front, back, -, place, -⟩ := valid.around member
  simp only [ne_eq, decide_eq_true_eq]
  omega

theorem free {ptr : Nat} (sound : Sound s) (permits : ptr = 0 ∨ s.IsLive ptr)
    (below : s.heap.brk < s.heap.base + 2 ^ 31) :
    Sound ⟨mFree ptr s.heap, s.drop ptr⟩ := by
  rcases permits with rfl | ⟨requested, member⟩
  · rw [sound.drop_null, mFree, if_pos rfl]
    exact sound
  · obtain ⟨ready, blocks, valid⟩ := sound.live member
    exact .inr ⟨(mFree_frame ptr s.heap).initialized.trans ready, valid.free below member⟩

theorem realloc {fuel ptr p : Nat} {size : Int} {heap : Heap} (sound : Sound s) (range : InRange size)
    (permits : ptr = 0 ∨ s.IsLive ptr) (ran : mRealloc lastWord fuel ptr size s.heap = .done p heap)
    (below : heap.brk < heap.base + 2 ^ 31) :
    heap.initialized = true ∧ ∃ blocks, Valid heap ((p, size.toNat) :: s.drop ptr) blocks := by
  obtain ⟨taken, allocated, rfl⟩ := mRealloc_done.mp ran
  obtain ⟨ready, blocks, valid⟩ := sound.alloc range allocated
  rcases permits with rfl | ⟨requested, member⟩
  · rw [if_pos rfl, sound.drop_null]
    exact ⟨ready, blocks, valid⟩
  · have live : ptr ≠ 0 := by
      obtain ⟨n, front, back, -, place, -⟩ := valid.around (List.mem_cons_of_mem _ member)
      omega
    rw [if_neg live] at below ⊢
    have frame := mFree_frame ptr (copied ptr p size.toNat taken)
    rw [frame.brk, frame.base] at below
    have stored : Valid (copied ptr p size.toNat taken) ((p, size.toNat) :: s.live) blocks := by
      refine valid.store List.mem_cons_self ⟨rfl, rfl, rfl⟩ fun y apart => Memory.copyBytes_outside ?_
      simp only at apart
      omega
    obtain ⟨rest, freed⟩ := stored.free below (List.mem_cons_of_mem _ member)
    have fresh := (List.nodup_cons.mp valid.distinct).1
    have other : p ≠ ptr := fun same => fresh (List.mem_map.mpr ⟨_, member, same.symm⟩)
    rw [List.filter_cons_of_pos (by simpa using other)] at freed
    exact ⟨frame.initialized.trans ready, rest, freed⟩

theorem calloc {fuel p : Nat} {nitems size : Int} {heap : Heap} (sound : Sound s)
    (range : InRange ((size * nitems).bmod (2 ^ 32)))
    (ran : mCalloc lastWord fuel nitems size s.heap = .done p heap) :
    heap.initialized = true ∧ ∃ blocks, Valid heap ((p, ((size * nitems).bmod (2 ^ 32)).toNat) :: s.live) blocks := by
  obtain ⟨taken, allocated, rfl⟩ := mCalloc_done.mp ran
  obtain ⟨ready, blocks, valid⟩ := sound.alloc range allocated
  refine ⟨ready, blocks, valid.store List.mem_cons_self ⟨rfl, rfl, rfl⟩ fun y apart => Memory.fillBytes_outside ?_⟩
  simp only at apart
  omega

theorem store {address : Nat} {byte : UInt8} (sound : Sound s) (permits : s.Permits (.store address byte)) :
    Sound ⟨{ s.heap with memory := s.heap.memory.store8 address byte }, s.live⟩ := by
  rcases sound with fresh | ⟨ready, blocks, valid⟩
  · exact .inl fresh
  refine .inr ⟨ready, blocks, ?_⟩
  rcases permits with fresh | before | beyond | ⟨x, member, first, last⟩
  · rw [ready] at fresh
    cases fresh
  · exact valid.storeOutside ⟨rfl, rfl, rfl⟩ fun y _ _ => Memory.store8_outside (by omega)
  · exact valid.storeOutside ⟨rfl, rfl, rfl⟩ fun y _ _ => Memory.store8_outside (by omega)
  · exact valid.store member ⟨rfl, rfl, rfl⟩ fun y apart => Memory.store8_outside (by omega)

theorem step (sound : Sound s) (stepped : s.Step lastWord event next) :
    Sound next ∧ next.heap.initialized = (s.heap.initialized || event.allocates) := by
  obtain ⟨permits, call, below⟩ := stepped
  cases call with
  | alloc ran =>
    obtain ⟨ready, valid⟩ := sound.alloc permits ran
    exact ⟨.inr ⟨ready, valid⟩, by simp [ready, Event.allocates]⟩
  | calloc ran =>
    obtain ⟨ready, valid⟩ := sound.calloc permits ran
    exact ⟨.inr ⟨ready, valid⟩, by simp [ready, Event.allocates]⟩
  | realloc ran =>
    obtain ⟨ready, valid⟩ := sound.realloc permits.1 permits.2 ran below
    exact ⟨.inr ⟨ready, valid⟩, by simp [ready, Event.allocates]⟩
  | @free ptr =>
    have frame := mFree_frame ptr s.heap
    rw [frame.brk, frame.base] at below
    exact ⟨sound.free permits below, by simp [frame.initialized, Event.allocates]⟩
  | store => exact ⟨sound.store permits, by simp [Event.allocates]⟩

/-- A call of a correct process returns. -/
theorem returns (sound : Sound s) (permits : s.Permits event) : ∃ next, s.Call lastWord event next := by
  obtain ⟨blocks, valid⟩ := sound.prepared lastWord
  cases event with
  | alloc size =>
    obtain ⟨fuel, taken, ran, -⟩ := mAlloc_places valid.intact permits
    exact ⟨_, .alloc ran⟩
  | calloc nitems size =>
    obtain ⟨fuel, taken, ran, -⟩ := mAlloc_places valid.intact permits
    exact ⟨_, .calloc (mCalloc_done.mpr ⟨taken, ran, rfl⟩)⟩
  | realloc ptr size =>
    obtain ⟨fuel, taken, ran, -⟩ := mAlloc_places valid.intact permits.1
    exact ⟨_, .realloc (mRealloc_done.mpr ⟨taken, ran, rfl⟩)⟩
  | free ptr => exact ⟨_, .free⟩
  | store address byte => exact ⟨_, .store⟩

end Sound

/-- The heap as its comment in the source describes it, with the blocks that the process
holds among the blocks in use. -/
structure WellFormed (s : Session) (blocks : List Block) : Prop where
  chain : Chain s.heap blocks
  tidy : Tidy blocks
  aligned : ∀ x ∈ s.live, 16 ∣ x.1
  enough : ∀ x ∈ s.live, x.2 ≤ s.heap.size (x.1 - headerSize)
  clear : ∀ x ∈ s.live, ∀ mh ∈ headers s.heap.base blocks, x.1 + s.heap.size (x.1 - headerSize) ≤ mh ∨
    mh + headerSize ≤ x.1
  disjoint : s.live.Pairwise fun x y => x.1 + s.heap.size (x.1 - headerSize) ≤ y.1 ∨
    y.1 + s.heap.size (y.1 - headerSize) ≤ x.1

section WellFormed
variable {blocks : List Block} {a mh p n : Nat}

theorem headers_start (member : mh ∈ headers a blocks) : a ≤ mh := by
  induction blocks generalizing a with
  | nil => exact (List.mem_singleton.mp member).ge
  | cons b rest ih =>
    rcases List.mem_cons.mp member with rfl | later
    · exact Nat.le_refl _
    · have reached := ih later
      omega

theorem used_clear (inUse : (p, n) ∈ used a blocks) (header : mh ∈ headers a blocks) : p + n ≤ mh ∨ mh + 16 ≤ p := by
  induction blocks generalizing a with
  | nil => cases inUse
  | cons b rest ih =>
    have start := used_start inUse
    rcases List.mem_cons.mp header with rfl | later
    · exact .inr start
    rcases List.mem_append.mp inUse with here | after
    · split_ifs at here
      · cases here
      · cases List.mem_singleton.mp here
        exact .inl (headers_start later)
    · exact ih after later

theorem used_disjoint {q m : Nat} (first : (p, n) ∈ used a blocks) (second : (q, m) ∈ used a blocks)
    (different : p ≠ q) :
    p + n ≤ q ∨ q + m ≤ p := by
  have symmetric : (used a blocks).Pairwise fun x y => x.1 + x.2 ≤ y.1 ∨ y.1 + y.2 ≤ x.1 :=
    used_apart.imp fun apart => .inl (by omega)
  have symm : Std.Symm fun x y : Nat × Nat => x.1 + x.2 ≤ y.1 ∨ y.1 + y.2 ≤ x.1 := ⟨fun _ _ => Or.symm⟩
  exact symmetric.forall first second fun same => different (congrArg Prod.fst same)

theorem Valid.sized {h : Heap} {live : List (Nat × Nat)} {x : Nat × Nat} (valid : Valid h live blocks)
    (member : x ∈ live) :
    (x.1, h.size (x.1 - headerSize)) ∈ used h.base blocks ∧ x.2 ≤ h.size (x.1 - headerSize) := by
  obtain ⟨n, inUse, enough⟩ := valid.large x member
  obtain ⟨front, back, split, place⟩ := used_split inUse
  have chain := valid.intact.chain
  rw [split] at chain
  have sized : h.size (x.1 - headerSize) = n := by
    have start : x.1 - headerSize = h.base + span front := by
      simp only at place
      rw [headerSize]
      omega
    rw [start]
    exact chain.head.size
  rw [sized]
  exact ⟨inUse, enough⟩

theorem Valid.wellFormed {s : Session} (valid : Valid s.heap s.live blocks) : WellFormed s blocks where
  chain := valid.intact.chain
  tidy := valid.tidy
  aligned := by
    intro x member
    obtain ⟨n, front, back, rfl, place, -⟩ := valid.around member
    rw [place]
    exact Nat.dvd_add (Nat.dvd_add valid.aligned (span_dvd valid.tidy.left)) (Nat.dvd_refl 16)
  enough x member := (valid.sized member).2
  clear x member mh header := used_clear (valid.sized member).1 header
  disjoint := by
    refine (List.pairwise_map.mp valid.distinct).imp_of_mem fun first second different => ?_
    exact used_disjoint (valid.sized first).1 (valid.sized second).1 different

end WellFormed

/-- In every run of a correct process the headers form a well-formed chain once there is a
heap, and every call that the process may make returns. -/
theorem heap_wellFormed {lastWord base brk : Nat} {memory : Memory} {events : List Event} {s : Session}
    (run : Run (Session.Step lastWord) (Session.boot memory base brk) events s) :
    s.heap.initialized = events.any Event.allocates ∧
      (s.heap.initialized = false → s.live = []) ∧
      (s.heap.initialized = true → ∃ blocks, WellFormed s blocks) ∧
      ∀ event, s.Permits event → ∃ next, s.Call lastWord event next := by
  have kept : ∀ (before : List Event) (s : Session) (event : Event) (next : Session),
      (Sound s ∧ s.heap.initialized = before.any Event.allocates) → s.Step lastWord event next →
      Sound next ∧ next.heap.initialized = (before ++ [event]).any Event.allocates := by
    intro before s event next holds stepped
    obtain ⟨sound, allocated⟩ := holds.1.step stepped
    refine ⟨sound, ?_⟩
    rw [allocated, holds.2, List.any_append, List.any_cons, List.any_nil, Bool.or_false]
  obtain ⟨sound, allocated⟩ := run.history kept ⟨.inl ⟨rfl, rfl⟩, rfl⟩
  refine ⟨allocated, fun fresh => ?_, fun ready => ?_, fun event permits => sound.returns permits⟩
  · rcases sound with ⟨-, none⟩ | ⟨ready, -⟩
    · exact none
    · rw [ready] at fresh
      cases fresh
  · rcases sound with ⟨fresh, -⟩ | ⟨-, blocks, valid⟩
    · rw [ready] at fresh
      cases fresh
    · exact ⟨blocks, valid.wellFormed⟩

/-- Two blocks are allocated and the first one is given back. -/
theorem heap_wellFormed_sample : ∃ s blocks,
    Run (Session.Step 4080) (Session.boot (fun _ => 0) 0 0) [.alloc 100, .alloc 16, .free 4112] s ∧
      s.live = [(4240, 16)] ∧ WellFormed s blocks := by
  have one : Run (Session.Step 4080) (Session.boot (fun _ => 0) 0 0) [.alloc 100] ⟨_, [(4112, 100)]⟩ :=
    .snoc .nil ⟨⟨by decide, by decide⟩, @Session.Call.alloc 4080 _ 100 1 4112 _ rfl, by decide⟩
  have two : Run (Session.Step 4080) (Session.boot (fun _ => 0) 0 0) [.alloc 100, .alloc 16] ⟨_,
      [(4240, 16), (4112, 100)]⟩ :=
    .snoc one ⟨⟨by decide, by decide⟩, @Session.Call.alloc 4080 _ 16 2 4240 _ rfl, by decide⟩
  have live : (4112, 100) ∈ [(4240, 16), (4112, 100)] := by decide
  have three : Run (Session.Step 4080) (Session.boot (fun _ => 0) 0 0) [.alloc 100, .alloc 16, .free 4112] ⟨_,
      [(4240, 16)]⟩ :=
    .snoc two ⟨Or.inr ⟨100, live⟩, .free, by decide⟩
  obtain ⟨blocks, shape⟩ := (heap_wellFormed three).2.2.1 rfl
  exact ⟨_, blocks, three, rfl, shape⟩

end Egos.Malloc
