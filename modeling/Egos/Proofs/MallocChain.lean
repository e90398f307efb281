import Egos.Apps.Malloc
import Mathlib.Data.List.Basic
import Mathlib.Data.List.Chain
import Mathlib.Tactic.Ring

/-! The chain of headers of malloc.c as a list of blocks, and what m_alloc and m_free are
meant to do to that list. -/

namespace Egos.Malloc
open Library Heap

namespace Heap
variable {h : Heap} {a b value : Nat}

theorem size_setSize (small : value < 2 ^ 32) : (h.setSize a value).size a = value :=
  Memory.load32_store32_of_lt small

theorem prev_setPrev (small : value < 2 ^ 32) : (h.setPrev a value).prev a = value :=
  Memory.load32_store32_of_lt small

theorem status_setStatus (small : value < 2 ^ 32) : (h.setStatus a value).status a = value :=
  Memory.load32_store32_of_lt small

theorem size_setSize_apart (apart : b + 16 ≤ a ∨ a + 16 ≤ b) : (h.setSize a value).size b = h.size b :=
  Memory.load32_store32_apart (by omega)

theorem prev_setPrev_apart (apart : b + 16 ≤ a ∨ a + 16 ≤ b) : (h.setPrev a value).prev b = h.prev b :=
  Memory.load32_store32_apart (by omega)

theorem status_setStatus_apart (apart : b + 16 ≤ a ∨ a + 16 ≤ b) : (h.setStatus a value).status b = h.status b :=
  Memory.load32_store32_apart (by omega)

theorem size_setPrev (apart : b = a ∨ b + 16 ≤ a ∨ a + 16 ≤ b) : (h.setPrev a value).size b = h.size b :=
  Memory.load32_store32_apart (by omega)

theorem size_setStatus (apart : b = a ∨ b + 16 ≤ a ∨ a + 16 ≤ b) : (h.setStatus a value).size b = h.size b :=
  Memory.load32_store32_apart (by omega)

theorem prev_setSize (apart : b = a ∨ b + 16 ≤ a ∨ a + 16 ≤ b) : (h.setSize a value).prev b = h.prev b :=
  Memory.load32_store32_apart (by omega)

theorem prev_setStatus (apart : b = a ∨ b + 16 ≤ a ∨ a + 16 ≤ b) : (h.setStatus a value).prev b = h.prev b :=
  Memory.load32_store32_apart (by omega)

theorem status_setSize (apart : b = a ∨ b + 16 ≤ a ∨ a + 16 ≤ b) : (h.setSize a value).status b = h.status b :=
  Memory.load32_store32_apart (by omega)

theorem status_setPrev (apart : b = a ∨ b + 16 ≤ a ∨ a + 16 ≤ b) : (h.setPrev a value).status b = h.status b :=
  Memory.load32_store32_apart (by omega)

theorem setSize_outside {x : Nat} (outside : x < a ∨ a + 16 ≤ x) : (h.setSize a value).memory x = h.memory x :=
  Memory.store32_outside (by omega)

theorem setPrev_outside {x : Nat} (outside : x < a ∨ a + 16 ≤ x) : (h.setPrev a value).memory x = h.memory x :=
  Memory.store32_outside (by omega)

theorem setStatus_outside {x : Nat} (outside : x < a ∨ a + 16 ≤ x) : (h.setStatus a value).memory x = h.memory x :=
  Memory.store32_outside (by omega)

end Heap

structure HeaderAt (h : Heap) (mh size prev status : Nat) : Prop where
  size : h.size mh = size
  prev : h.prev mh = prev
  status : h.status mh = status

section HeaderAt
variable {h changed : Heap} {a b size prev status value : Nat}

theorem HeaderAt.frame (head : HeaderAt h a size prev status)
    (same : ∀ x, a ≤ x → x < a + 16 → changed.memory x = h.memory x) :
    HeaderAt changed a size prev status where
  size := (Memory.load32_congr fun x _ _ => same x (by omega) (by omega)).trans head.size
  prev := (Memory.load32_congr fun x _ _ => same x (by omega) (by omega)).trans head.prev
  status := (Memory.load32_congr fun x _ _ => same x (by omega) (by omega)).trans head.status

theorem headerAt_setHeader (smallSize : size < 2 ^ 32) (smallPrev : prev < 2 ^ 32) (smallStatus : status < 2 ^ 32) :
    HeaderAt (h.setHeader a size prev status) a size prev status where
  size := (size_setStatus (.inl rfl)).trans ((size_setPrev (.inl rfl)).trans (size_setSize smallSize))
  prev := (prev_setStatus (.inl rfl)).trans (prev_setPrev smallPrev)
  status := status_setStatus smallStatus

theorem setHeader_outside {x : Nat} (outside : x < a ∨ a + 16 ≤ x) :
    (h.setHeader a size prev status).memory x = h.memory x :=
  (setStatus_outside outside).trans ((setPrev_outside outside).trans (setSize_outside outside))

end HeaderAt

structure Block where
  size : Nat
  free : Bool
  deriving DecidableEq

def Block.status (b : Block) : Nat := if b.free then MStatus.free else MStatus.inUse

def span : List Block → Nat
  | [] => 0
  | b :: rest => 16 + b.size + span rest

def lastSize (prev : Nat) : List Block → Nat
  | [] => prev
  | b :: rest => lastSize b.size rest

/-- The pointers to the blocks in use, with the sizes of the blocks. -/
def used (a : Nat) : List Block → List (Nat × Nat)
  | [] => []
  | b :: rest => (if b.free then [] else [(a + 16, b.size)]) ++ used (a + 16 + b.size) rest

def Front (h : Heap) (a prev : Nat) : List Block → Prop
  | [] => True
  | b :: rest => HeaderAt h a b.size prev b.status ∧ Front h (a + 16 + b.size) b.size rest

def Tail (h : Heap) (a prev : Nat) : List Block → Prop
  | [] => HeaderAt h a 0 prev MStatus.last
  | b :: rest => HeaderAt h a b.size prev b.status ∧ Tail h (a + 16 + b.size) b.size rest

def Chain (h : Heap) (blocks : List Block) : Prop := Tail h h.base 0 blocks

section Lists
variable {front back : List Block} {a prev : Nat}

@[simp] theorem span_append : span (front ++ back) = span front + span back := by
  induction front with
  | nil => simp [span]
  | cons b rest ih => simp only [List.cons_append, span, ih]; omega

@[simp] theorem lastSize_append : lastSize prev (front ++ back) = lastSize (lastSize prev front) back := by
  induction front generalizing prev with
  | nil => rfl
  | cons b rest ih => exact ih

theorem used_append : used a (front ++ back) = used a front ++ used (a + span front) back := by
  induction front generalizing a with
  | nil => simp [used, span]
  | cons b rest ih =>
    simp only [List.cons_append, used, ih, span, List.append_assoc, Nat.add_assoc]

theorem tail_append {h : Heap} :
    Tail h a prev (front ++ back) ↔ Front h a prev front ∧ Tail h (a + span front) (lastSize prev front) back := by
  induction front generalizing a prev with
  | nil => simp [Front, span, lastSize]
  | cons b rest ih =>
    simp only [List.cons_append, Tail, Front, ih, span, lastSize, and_assoc, Nat.add_assoc]

theorem front_append {h : Heap} :
    Front h a prev (front ++ back) ↔ Front h a prev front ∧ Front h (a + span front) (lastSize prev front) back := by
  induction front generalizing a prev with
  | nil => simp [Front, span, lastSize]
  | cons b rest ih =>
    simp only [List.cons_append, Front, ih, span, lastSize, and_assoc, Nat.add_assoc]

end Lists

section Frames
variable {h changed : Heap} {a prev size status : Nat} {blocks : List Block}

theorem Front.frame (front : Front h a prev blocks)
    (same : ∀ x, a ≤ x → x < a + span blocks → changed.memory x = h.memory x) : Front changed a prev blocks := by
  induction blocks generalizing a prev with
  | nil => trivial
  | cons b rest ih =>
    simp only [span] at same
    exact ⟨front.1.frame fun x _ _ => same x (by omega) (by omega),
      ih front.2 fun x _ _ => same x (by omega) (by omega)⟩

theorem Tail.frame (tail : Tail h a prev blocks)
    (same : ∀ x, a ≤ x → x < a + span blocks + 16 → changed.memory x = h.memory x) : Tail changed a prev blocks := by
  induction blocks generalizing a prev with
  | nil => exact HeaderAt.frame tail fun x _ _ => same x (by omega) (by simp only [span]; omega)
  | cons b rest ih =>
    simp only [span] at same
    exact ⟨tail.1.frame fun x _ _ => same x (by omega) (by omega),
      ih tail.2 fun x _ _ => same x (by omega) (by omega)⟩

/-- The first header of a tail may be given another size of the block before it. -/
theorem Tail.setPrev {newPrev : Nat} (tail : Tail h a prev blocks) (sized : changed.size a = h.size a)
    (given : changed.prev a = newPrev) (kept : changed.status a = h.status a)
    (same : ∀ x, a + 16 ≤ x → changed.memory x = h.memory x) : Tail changed a newPrev blocks := by
  cases blocks with
  | nil => exact ⟨sized.trans tail.size, given, kept.trans tail.status⟩
  | cons b rest =>
    exact ⟨⟨sized.trans tail.1.size, given, kept.trans tail.1.status⟩, tail.2.frame fun x _ _ => same x (by omega)⟩

end Frames

/-- What holds of the blocks of a heap: no two neighbours are both free. -/
structure Tidy (blocks : List Block) : Prop where
  multiples : ∀ b ∈ blocks, 16 ∣ b.size
  merged : blocks.IsChain fun x y => ¬(x.free = true ∧ y.free = true)

/-- First fit: the blocks before the one that m_alloc takes, and those after it. -/
def firstFit (size : Nat) : List Block → List Block × List Block
  | [] => ([], [⟨pageSize - 32, true⟩])
  | b :: rest =>
    if b.free ∧ b.size = size then ([], rest)
    else if b.free ∧ size + 16 ≤ b.size then ([], ⟨b.size - size - 16, true⟩ :: rest)
    else if b.free ∧ rest = [] then ([], [⟨pageSize - 32, true⟩])
    else (b :: (firstFit size rest).1, (firstFit size rest).2)

def placed (size : Nat) (blocks : List Block) : List Block :=
  (firstFit size blocks).1 ++ ⟨size, false⟩ :: (firstFit size blocks).2

/-- A block merged with the next one if that is free, and the blocks after it. -/
def absorb (size : Nat) : List Block → Nat × List Block
  | [] => (size, [])
  | b :: rest => if b.free then (size + (16 + b.size), rest) else (size, b :: rest)

/-- A block becomes free: it is merged with the one before if that is free. -/
def settle (front : List Block) (size : Nat) (back : List Block) : List Block :=
  match front.getLast? with
  | some prior =>
    if prior.free then front.dropLast ++ ⟨prior.size + (16 + size), true⟩ :: back else front ++ ⟨size, true⟩ :: back
  | none => ⟨size, true⟩ :: back

def release (front : List Block) (size : Nat) (back : List Block) : List Block :=
  settle front (absorb size back).1 (absorb size back).2

section Tidy
variable {front back blocks : List Block} {b : Block} {a size : Nat}

theorem Tidy.right (tidy : Tidy (front ++ back)) : Tidy back :=
  ⟨fun b member => tidy.multiples b (List.mem_append_right _ member), tidy.merged.right_of_append⟩

theorem Tidy.left (tidy : Tidy (front ++ back)) : Tidy front :=
  ⟨fun b member => tidy.multiples b (List.mem_append_left _ member), tidy.merged.left_of_append⟩

theorem Tidy.rest (tidy : Tidy (b :: back)) : Tidy back := @Tidy.right [b] back tidy

/-- A block in use goes between any two tidy lists. -/
theorem Tidy.put (left : Tidy front) (right : Tidy back) (whole : 16 ∣ size) :
    Tidy (front ++ ⟨size, false⟩ :: back) where
  multiples := by
    intro b member
    rcases List.mem_append.mp member with inFront | inRest
    · exact left.multiples b inFront
    · rcases List.mem_cons.mp inRest with rfl | inBack
      · exact whole
      · exact right.multiples b inBack
  merged := by
    refine List.isChain_append.mpr ⟨left.merged, List.isChain_cons.mpr ⟨fun y _ => by simp, right.merged⟩,
      fun x _ y first => ?_⟩
    obtain rfl : (⟨size, false⟩ : Block) = y := by simpa using first
    simp

theorem firstFit_exact (free : b.free = true) (exact : b.size = size) : firstFit size (b :: back) = ([], back) :=
  if_pos ⟨free, exact⟩

theorem firstFit_split (free : b.free = true) (split : size + 16 ≤ b.size) :
    firstFit size (b :: back) = ([], ⟨b.size - size - 16, true⟩ :: back) := by
  rw [firstFit, if_neg fun both => by omega, if_pos ⟨free, split⟩]

theorem firstFit_spare (free : b.free = true) (different : b.size ≠ size) (small : ¬size + 16 ≤ b.size) :
    firstFit size [b] = ([], [⟨pageSize - 32, true⟩]) := by
  rw [firstFit, if_neg fun both => different both.2, if_neg fun both => small both.2, if_pos ⟨free, rfl⟩]

theorem firstFit_skip (skipped : b.free = false ∨ b.size ≠ size ∧ ¬size + 16 ≤ b.size ∧ back ≠ []) :
    firstFit size (b :: back) = (b :: (firstFit size back).1, (firstFit size back).2) := by
  rcases skipped with inUse | ⟨different, small, more⟩
  · simp [firstFit, inUse]
  · rw [firstFit, if_neg fun both => different both.2, if_neg fun both => small both.2, if_neg fun both => more both.2]

theorem firstFit_used : used a blocks =
    used a (firstFit size blocks).1 ++ used (a + span (firstFit size blocks).1 + 16 + size)
        (firstFit size blocks).2 := by
  induction blocks generalizing a with
  | nil => simp [firstFit, used]
  | cons b rest ih =>
    unfold firstFit
    split_ifs with exact split trailing
    · simp [used, span, exact.1, exact.2]
    · have together : a + 16 + size + 16 + (b.size - size - 16) = a + 16 + b.size := by omega
      simp [used, span, split.1, together]
    · simp [used, trailing.1, trailing.2]
    · simp only [used, span, List.append_assoc, ih, Nat.add_assoc]

theorem firstFit_prefix : (firstFit size blocks).1 <+: blocks := by
  induction blocks with
  | nil => exact List.prefix_refl _
  | cons b rest ih =>
    unfold firstFit
    split_ifs with exact split trailing
    · exact List.nil_prefix
    · exact List.nil_prefix
    · exact List.nil_prefix
    · exact List.cons_prefix_cons.mpr ⟨rfl, ih⟩

/-- Tidy lists that share a block. -/
theorem Tidy.join (left : Tidy (front ++ [b])) (right : Tidy (b :: back)) : Tidy (front ++ b :: back) where
  multiples := by
    intro c member
    rcases List.mem_append.mp member with inFront | inRest
    · exact left.multiples c (List.mem_append_left _ inFront)
    · exact right.multiples c inRest
  merged := List.isChain_split.mpr ⟨left.merged, right.merged⟩

/-- The size of a block does not matter to its neighbours. -/
theorem Tidy.resize (tidy : Tidy (front ++ b :: back)) (whole : 16 ∣ size) :
    Tidy (front ++ ⟨size, b.free⟩ :: back) where
  multiples := by
    intro c member
    rcases List.mem_append.mp member with inFront | inRest
    · exact tidy.left.multiples c inFront
    · rcases List.mem_cons.mp inRest with rfl | inBack
      · exact whole
      · exact tidy.right.multiples c (List.mem_cons_of_mem _ inBack)
  merged := by
    obtain ⟨first, last, between⟩ := List.isChain_append.mp tidy.merged
    refine List.isChain_append.mpr ⟨first, List.isChain_cons.mpr (List.isChain_cons.mp last), fun x final y head => ?_⟩
    obtain rfl : (⟨size, b.free⟩ : Block) = y := by simpa using head
    exact between x final b (by simp)

theorem Tidy.resizeHead (tidy : Tidy (b :: back)) (whole : 16 ∣ size) : Tidy (⟨size, b.free⟩ :: back) :=
  @Tidy.resize [] back b size tidy whole

private theorem tidy_spare : Tidy [⟨pageSize - 32, true⟩] := ⟨by simp [pageSize], by simp⟩

theorem firstFit_tidy (tidy : Tidy blocks) (whole : 16 ∣ size) : Tidy (firstFit size blocks).2 := by
  induction blocks with
  | nil => exact tidy_spare
  | cons b rest ih =>
    have after := tidy.rest
    unfold firstFit
    split_ifs with exact split trailing
    · exact after
    · have part : 16 ∣ b.size - size - 16 :=
        Nat.dvd_sub (Nat.dvd_sub (tidy.multiples b List.mem_cons_self) whole) (Nat.dvd_refl 16)
      have resized := tidy.resizeHead part
      rwa [split.1] at resized
    · exact tidy_spare
    · exact ih after

theorem placed_tidy (tidy : Tidy blocks) (whole : 16 ∣ size) : Tidy (placed size blocks) := by
  obtain ⟨rest, same⟩ : (firstFit size blocks).1 <+: blocks := firstFit_prefix
  have before : Tidy (firstFit size blocks).1 := Tidy.left (same ▸ tidy)
  exact before.put (firstFit_tidy tidy whole) whole

theorem absorb_used : used (a + size) back = used (a + (absorb size back).1) (absorb size back).2 := by
  cases back with
  | nil => rfl
  | cons b rest =>
    simp only [absorb]
    split_ifs with free
    · simp [used, free, Nat.add_assoc]
    · rfl

theorem absorb_span : size + span back = (absorb size back).1 + span (absorb size back).2 := by
  cases back with
  | nil => rfl
  | cons b rest =>
    simp only [absorb]
    split_ifs
    · simp only [span]; omega
    · rfl

/-- Once merged, a block is followed by a block in use or by nothing. -/
theorem absorb_tidy (tidy : Tidy (⟨size, false⟩ :: back)) :
    Tidy (⟨(absorb size back).1, true⟩ :: (absorb size back).2) := by
  have whole : 16 ∣ size := tidy.multiples ⟨size, false⟩ List.mem_cons_self
  have after := tidy.rest
  cases back with
  | nil => exact ⟨by simpa [absorb] using whole, by simp [absorb]⟩
  | cons b rest =>
    simp only [absorb]
    split_ifs with free
    · have larger : 16 ∣ size + (16 + b.size) :=
        Nat.dvd_add whole (Nat.dvd_add (Nat.dvd_refl 16) (after.multiples b List.mem_cons_self))
      have resized := after.resizeHead larger
      rwa [free] at resized
    · refine ⟨fun c member => ?_, List.isChain_cons.mpr ⟨fun y first => ?_, after.merged⟩⟩
      · rcases List.mem_cons.mp member with rfl | inBack
        · exact whole
        · exact after.multiples c inBack
      · obtain rfl : b = y := by simpa using first
        simp [free]

theorem settle_nil : settle [] size back = ⟨size, true⟩ :: back := rfl

theorem settle_concat {before : List Block} {prior : Block} :
    settle (before ++ [prior]) size back =
      if prior.free then before ++ ⟨prior.size + (16 + size), true⟩ :: back
          else (before ++ [prior]) ++ ⟨size, true⟩ :: back := by
  simp only [settle, List.getLast?_concat, List.dropLast_concat]

theorem settle_used : used a (settle front size back) = used a front ++ used (a + span front + 16 + size) back := by
  rcases List.eq_nil_or_concat' front with rfl | ⟨before, prior, rfl⟩
  · rw [settle_nil]
    simp only [used, span, ↓reduceIte, Nat.add_zero]
  · rw [settle_concat]
    split_ifs with free
    · simp only [used_append, used, span, span_append, free, ↓reduceIte, List.nil_append, List.append_nil]
      congr 2
      omega
    · simp only [used_append, used, span, span_append, free, ↓reduceIte, List.nil_append, List.append_nil,
        List.append_assoc, Nat.add_zero, Nat.add_assoc]

theorem settle_span : span (settle front size back) = span front + 16 + size + span back := by
  rcases List.eq_nil_or_concat' front with rfl | ⟨before, prior, rfl⟩
  · simp only [settle_nil, span, Nat.zero_add]
  · rw [settle_concat]
    split_ifs
    · simp only [span_append, span]; omega
    · simp only [span_append, span]; omega

theorem settle_tidy (before : Tidy front) (merged : Tidy (⟨size, true⟩ :: back)) : Tidy (settle front size back) := by
  have whole : 16 ∣ size := merged.multiples _ List.mem_cons_self
  rcases List.eq_nil_or_concat' front with rfl | ⟨others, prior, rfl⟩
  · exact merged
  · rw [settle_concat]
    split_ifs with free
    · have larger : 16 ∣ prior.size + (16 + size) :=
        Nat.dvd_add (before.multiples prior (by simp)) (Nat.dvd_add (Nat.dvd_refl 16) whole)
      have left := before.resize larger
      rw [free] at left
      exact left.join (merged.resizeHead larger)
    · refine Tidy.join ⟨fun c member => ?_,
        List.isChain_append.mpr ⟨before.merged, by simp, fun x last y _ => ?_⟩⟩ merged
      · rcases List.mem_append.mp member with inFront | inRest
        · exact before.multiples c inFront
        · obtain rfl := List.mem_singleton.mp inRest
          exact whole
      · obtain rfl : prior = x := by simpa using last
        simp [free]

theorem release_used : used a (release front size back) = used a front ++ used (a + span front + 16 + size) back := by
  rw [release, settle_used, ← absorb_used]

theorem release_span : span (release front size back) = span front + 16 + size + span back := by
  have merged : size + span back = (absorb size back).1 + span (absorb size back).2 := absorb_span
  rw [release, settle_span]
  omega

theorem release_tidy (tidy : Tidy (front ++ ⟨size, false⟩ :: back)) : Tidy (release front size back) :=
  settle_tidy tidy.left (absorb_tidy tidy.right)

end Tidy
end Egos.Malloc
