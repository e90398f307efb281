import Egos.Block.TreediskSession
import Egos.Library.Ensures
import Egos.Library.Leaves
import Egos.Library.RefTree

/-! The free list of treedisk.c: which blocks are on it, and that taking a block and
giving one back change it by this block only. -/

namespace Egos.Treedisk
open Library Library.Prog

variable {z : BlockSize}

namespace State

def mem (s : State z) : BlockNo → Block z := s.below.block

@[simp] theorem put_mem (s : State z) (offset : BlockNo) (block : Block z) :
    (s.put offset block).mem = Function.update s.mem offset block := rfl

@[simp] theorem put_size (s : State z) (offset : BlockNo) (block : Block z) :
    (s.put offset block).below.size = s.below.size := rfl

@[simp] theorem put_freed (s : State z) (offset : BlockNo) (block : Block z) :
    (s.put offset block).freed = s.freed := rfl

theorem put_self (s : State z) (offset : BlockNo) (block : Block z) : (s.put offset block).mem offset = block := by
  rw [put_mem, Function.update_self]

theorem put_ne (s : State z) {offset other : BlockNo} (apart : other ≠ offset) (block : Block z) :
    (s.put offset block).mem other = s.mem other := by
  rw [put_mem, Function.update_of_ne apart]

end State

theorem read_returns {s : State z} {offset : BlockNo} (inside : offset < s.below.size) :
    belowRead offset s = .done (some (s.mem offset)) s := by
  unfold belowRead
  rw [bind_done (get_run s), if_pos inside]
  rfl

theorem readOrPanic_returns {s : State z} {offset : BlockNo} (inside : offset < s.below.size) (message : String) :
    readOrPanic offset message s = .done (s.mem offset) s := by
  unfold readOrPanic
  rw [bind_done (read_returns inside)]
  rfl

theorem write_returns {s : State z} {offset : BlockNo} (inside : offset < s.below.size) (block : Block z) :
    belowWrite offset block s = .done true (s.put offset block) := by
  unfold belowWrite
  rw [bind_done (get_run s)]
  simp only [decide_eq_true inside]
  rfl

theorem writeOrPanic_returns {s : State z} {offset : BlockNo} (inside : offset < s.below.size) (block : Block z)
    (message : String) :
    writeOrPanic offset block message s = .done () (s.put offset block) := by
  unfold writeOrPanic
  rw [bind_done (write_returns inside block)]
  rfl

section Slots

def slots (block : Block z) : Multiset BlockNo :=
  (Finset.univ.filter fun i => i ≠ 0 ∧ block i ≠ 0).val.map block

theorem slots_put {block : Block z} {i : Fin z.refs} {target : BlockNo} (slot : i ≠ 0) (empty : block i = 0)
    (some : target ≠ 0) :
    slots (Function.update block i target) = target ::ₘ slots block := by
  have members : (Finset.univ.filter fun j => j ≠ 0 ∧ Function.update block i target j ≠ 0) =
      Finset.cons i (Finset.univ.filter fun j => j ≠ 0 ∧ block j ≠ 0) (by simp [empty]) := by
    ext j
    by_cases same : j = i
    · simp [same, slot, some]
    · simp [same]
  unfold slots
  rw [members, Finset.cons_val, Multiset.map_cons, Function.update_self]
  congr 1
  apply Multiset.map_congr rfl
  intro j member
  apply Function.update_of_ne
  rintro rfl
  exact (Finset.mem_filter.mp (Finset.mem_val.mp member)).2.2 empty

theorem slots_take {block : Block z} {i : Fin z.refs} (slot : i ≠ 0) (filled : block i ≠ 0) :
    slots block = block i ::ₘ slots (Function.update block i 0) := by
  have cleared : Function.update block i 0 i = 0 := Function.update_self ..
  have put := slots_put slot cleared filled
  rw [Function.update_idem, Function.update_eq_self] at put
  exact put

theorem slots_empty {block : Block z} (empty : ∀ i, i ≠ 0 → block i = 0) : slots block = 0 := by
  unfold slots
  rw [Finset.filter_false_of_mem fun i _ member => member.2 (empty i member.1)]
  rfl

theorem ref_eq (block : Block z) {i : Nat} (inside : i < z.refs) : ref block i = block ⟨i, inside⟩ :=
  congrArg block (Fin.ext (Nat.mod_eq_of_lt inside))

theorem setRef_eq (block : Block z) {i : Nat} (inside : i < z.refs) (value : BlockNo) :
    setRef block i value = Function.update block ⟨i, inside⟩ value := by
  unfold setRef
  congr 1
  exact Fin.ext (Nat.mod_eq_of_lt inside)

private theorem lastFilled_zero {block : Block z} {n : Nat} (none : lastFilled block n = 0) :
    ∀ i, 0 < i → i ≤ n → ref block i = 0 := by
  induction n with
  | zero => exact fun i positive le => absurd positive (Nat.not_lt.mpr le)
  | succ n ih =>
    unfold lastFilled at none
    split at none
    · cases none
    · rename_i empty
      intro i positive le
      rcases Nat.lt_or_eq_of_le le with less | rfl
      · exact ih none i positive (Nat.le_of_lt_succ less)
      · exact Decidable.not_not.mp empty

private theorem lastFilled_succ {block : Block z} {n i : Nat} (found : lastFilled block n = i + 1) :
    i + 1 ≤ n ∧ ref block (i + 1) ≠ 0 := by
  induction n with
  | zero => cases found
  | succ n ih =>
    unfold lastFilled at found
    split at found
    · rename_i filled
      cases found
      exact ⟨Nat.le_refl _, filled⟩
    · exact ⟨Nat.le_succ_of_le (ih found).1, (ih found).2⟩

private theorem firstEmpty_spec (block : Block z) (left i : Nat) :
    i ≤ firstEmpty block left i ∧ firstEmpty block left i ≤ i + left ∧
      (firstEmpty block left i < i + left → ref block (firstEmpty block left i) = 0) := by
  induction left generalizing i with
  | zero => exact ⟨Nat.le_refl _, Nat.le_refl _, fun less => absurd less (Nat.lt_irrefl _)⟩
  | succ left ih =>
    unfold firstEmpty
    split
    · rename_i empty
      exact ⟨Nat.le_refl _, Nat.le_add_right .., fun _ => empty⟩
    · obtain ⟨low, high, found⟩ := ih (i + 1)
      exact ⟨by omega, by omega, fun less => found (by omega)⟩

end Slots

def Chain (m : BlockNo → Block z) : BlockNo → List BlockNo → Prop
  | head, [] => head = 0
  | head, node :: rest => head = node ∧ node ≠ 0 ∧ Chain m (m node 0) rest

/-- All free blocks: the blocks of the list and what is in their slots. -/
def freeCells (m : BlockNo → Block z) (nodes : List BlockNo) : Multiset BlockNo :=
  (nodes.map fun node => node ::ₘ slots (m node)).sum

theorem freeCells_cons (m : BlockNo → Block z) (node : BlockNo) (rest : List BlockNo) :
    freeCells m (node :: rest) = node ::ₘ slots (m node) + freeCells m rest := by
  unfold freeCells
  rw [List.map_cons, List.sum_cons]

theorem node_mem {m : BlockNo → Block z} {nodes : List BlockNo} {node : BlockNo} (member : node ∈ nodes) :
    node ∈ freeCells m nodes := by
  induction nodes with
  | nil => cases member
  | cons first rest ih =>
    rw [freeCells_cons]
    rcases List.mem_cons.mp member with rfl | later
    · exact Multiset.mem_add.mpr (.inl (Multiset.mem_cons_self ..))
    · exact Multiset.mem_add.mpr (.inr (ih later))

theorem freeCells_congr {m m' : BlockNo → Block z} {nodes : List BlockNo} (same : ∀ node ∈ nodes, m' node = m node) :
    freeCells m' nodes = freeCells m nodes := by
  unfold freeCells
  rw [List.map_congr_left fun node member => by rw [same node member]]

theorem Chain.congr {m m' : BlockNo → Block z} {head : BlockNo} {nodes : List BlockNo} (chain : Chain m head nodes)
    (same : ∀ node ∈ nodes, m' node = m node) : Chain m' head nodes := by
  induction nodes generalizing head with
  | nil => exact chain
  | cons node rest ih =>
    obtain ⟨here, some, next⟩ := chain
    refine ⟨here, some, ?_⟩
    rw [same node List.mem_cons_self]
    exact ih next fun other member => same other (List.mem_cons_of_mem _ member)

/-- The snapshot has the super block that is on disk, and the free list is intact. -/
structure Ready (s : State z) (snapshot : Snapshot z) (nodes : List BlockNo) : Prop where
  super : snapshot.superblock = s.mem 0
  chain : Chain s.mem (freeList snapshot.superblock) nodes

structure Owned (s : State z) (blocks : Multiset BlockNo) : Prop where
  distinct : blocks.Nodup
  some : ∀ b ∈ blocks, b ≠ 0
  inside : ∀ b ∈ blocks, b < s.below.size

namespace Owned
variable {s after : State z} {blocks fewer : Multiset BlockNo}

theorem mono (owned : Owned s blocks) (le : fewer ≤ blocks) : Owned s fewer :=
  ⟨Multiset.nodup_of_le le owned.distinct, fun b member => owned.some b (Multiset.mem_of_le le member),
    fun b member => owned.inside b (Multiset.mem_of_le le member)⟩

theorem resize (owned : Owned s blocks) (size : after.below.size = s.below.size) : Owned after blocks :=
  ⟨owned.distinct, owned.some, fun b member => size ▸ owned.inside b member⟩

theorem disjoint {first second : Multiset BlockNo} (owned : Owned s (first + second)) {b : BlockNo}
    (member : b ∈ first) :
    b ∉ second := fun other => Multiset.disjoint_left.mp (Multiset.nodup_add.mp owned.distinct).2.2 member other

end Owned

/-- Outside of some blocks and the free list pointer nothing is different, and only these
blocks were freed. -/
structure Keeps (blocks : Multiset BlockNo) (s after : State z) : Prop where
  size : after.below.size = s.below.size
  count : nInodeblocks (after.mem 0) = nInodeblocks (s.mem 0)
  same : ∀ b, b ≠ 0 → b ∉ blocks → after.mem b = s.mem b
  freed : ∀ t ∈ after.freed, t ∈ s.freed ∨ t ∈ blocks

namespace Keeps
variable {blocks more : Multiset BlockNo} {s middle after : State z}

theorem refl : Keeps blocks s s := ⟨rfl, rfl, fun _ _ _ => rfl, fun _ => .inl⟩

theorem mono (keeps : Keeps blocks s after) (subset : ∀ b ∈ blocks, b ∈ more) : Keeps more s after :=
  ⟨keeps.size, keeps.count, fun b some out => keeps.same b some fun member => out (subset b member),
    fun t member => (keeps.freed t member).imp_right (subset t)⟩

theorem trans (first : Keeps blocks s middle) (second : Keeps blocks middle after) : Keeps blocks s after :=
  ⟨second.size.trans first.size, second.count.trans first.count,
    fun b some out => (second.same b some out).trans (first.same b some out),
    fun t member => (second.freed t member).elim (first.freed t) .inr⟩

/-- A block that is not the super block is written. -/
theorem put {b : BlockNo} (some : b ≠ 0) (member : b ∈ blocks) (block : Block z) : Keeps blocks s (s.put b block) := by
  refine ⟨rfl, ?_, fun c _ out => ?_, fun _ => .inl⟩
  · rw [s.put_ne some.symm]
  · apply s.put_ne
    rintro rfl
    exact out member

/-- The free list pointer is written. -/
theorem super {superblock : Block z} (count : nInodeblocks superblock = nInodeblocks (s.mem 0)) :
    Keeps blocks s (s.put 0 superblock) := by
  refine ⟨rfl, ?_, fun c some _ => ?_, fun _ => .inl⟩
  · rw [s.put_self, count]
  · exact s.put_ne some _

end Keeps

theorem refs_large (z : BlockSize) : 1 < z.refs := by
  cases z <;> decide

theorem nInodeblocks_setFreeList (block : Block z) (head : BlockNo) :
    nInodeblocks (setRef block 1 head) = nInodeblocks block := by
  unfold nInodeblocks
  rw [ref_eq _ (Nat.lt_of_succ_lt (refs_large z)), ref_eq _ (Nat.lt_of_succ_lt (refs_large z)),
    setRef_eq _ (refs_large z)]
  apply Function.update_of_ne
  intro same
  cases congrArg Fin.val same

theorem freeList_setFreeList (block : Block z) (head : BlockNo) : freeList (setRef block 1 head) = head := by
  unfold freeList ref setRef
  exact Function.update_self ..

/-- What treedisk_alloc_block has done when it returns `b`. When it was the last free block, it is
zero on disk. -/
structure Taken (s : State z) (snapshot : Snapshot z) (nodes : List BlockNo) (b : BlockNo) (next : Snapshot z)
    (after : State z)
    (rest : List BlockNo) : Prop where
  ready : Ready after next rest
  cells : freeCells s.mem nodes = b ::ₘ freeCells after.mem rest
  keeps : Keeps (freeCells after.mem rest) s after
  freed : after.freed = s.freed
  snapshot : next = { snapshot with superblock := after.mem 0 }
  cleared : freeList next.superblock = 0 → s.mem b = nullBlock

section Alloc
variable {s : State z} {snapshot : Snapshot z} {node : BlockNo} {rest : List BlockNo}

/-- The block of the list itself is taken. -/
private theorem take_node (ready : Ready s snapshot (node :: rest)) (owned : Owned s (freeCells s.mem (node :: rest)))
    (none : lastFilled (s.mem node) (z.refs - 1) = 0) :
    Taken s snapshot (node :: rest) node (snapshot.setFreeList (s.mem node 0))
      (s.put 0 (snapshot.setFreeList (s.mem node 0)).superblock)
      rest := by
  obtain ⟨_, some, chain⟩ := ready.chain
  have empty : ∀ i : Fin z.refs, i ≠ 0 → s.mem node i = 0 := by
    intro i slot
    have positive : 0 < i.val := Nat.pos_of_ne_zero fun zero => slot (Fin.ext zero)
    have cleared := lastFilled_zero none i.val positive (Nat.le_pred_of_lt i.isLt)
    rw [ref_eq _ i.isLt] at cleared
    exact cleared
  have apart : ∀ other ∈ rest, other ≠ 0 := fun other member =>
    owned.some other (node_mem (List.mem_cons_of_mem _ member))
  have same : ∀ other ∈ rest, (s.put 0 (snapshot.setFreeList (s.mem node 0)).superblock).mem other = s.mem other :=
    fun other member => s.put_ne (apart other member) _
  have super := s.put_self 0 (snapshot.setFreeList (s.mem node 0)).superblock
  refine ⟨⟨super.symm, ?_⟩, ?_, ?_, rfl, ?_, ?_⟩
  · change Chain _ (freeList (setRef _ 1 _)) rest
    rw [freeList_setFreeList]
    exact chain.congr same
  · rw [freeCells_cons, slots_empty empty, freeCells_congr same]
    simp
  · apply Keeps.super
    change nInodeblocks (setRef _ 1 _) = _
    rw [nInodeblocks_setFreeList, ready.super]
  · rw [super]
    rfl
  · intro last
    change freeList (setRef _ 1 _) = 0 at last
    rw [freeList_setFreeList] at last
    funext i
    by_cases slot : i = 0
    · rw [slot]
      exact last
    · exact empty i slot

/-- A block in a slot is taken. -/
private theorem take_slot (ready : Ready s snapshot (node :: rest))
    (owned : Owned s (freeCells s.mem (node :: rest))) {i : Nat}
    (found : lastFilled (s.mem node) (z.refs - 1) = i + 1) :
    Taken s snapshot (node :: rest) (ref (s.mem node) (i + 1)) snapshot
        (s.put node (setRef (s.mem node) (i + 1) 0)) (node :: rest) := by
  obtain ⟨here, some, chain⟩ := ready.chain
  obtain ⟨le, filled⟩ := lastFilled_succ found
  have inside : i + 1 < z.refs := Nat.lt_of_le_pred (Nat.lt_trans Nat.zero_lt_one (refs_large z)) le
  have slot : (⟨i + 1, inside⟩ : Fin z.refs) ≠ 0 := fun same => by cases congrArg Fin.val same
  rw [ref_eq _ inside] at filled ⊢
  rw [setRef_eq _ inside]
  have fresh : ∀ other ∈ rest, other ≠ node := by
    rintro other member rfl
    have distinct := owned.distinct
    rw [freeCells_cons, Multiset.cons_add] at distinct
    exact (Multiset.nodup_cons.mp distinct).1 (Multiset.mem_add.mpr (.inr (node_mem member)))
  have same : ∀ other ∈ rest, (s.put node (Function.update (s.mem node) ⟨i + 1, inside⟩ 0)).mem other = s.mem other :=
    fun other member => s.put_ne (fresh other member) _
  have written := s.put_self node (Function.update (s.mem node) ⟨i + 1, inside⟩ 0)
  have super := s.put_ne some.symm (Function.update (s.mem node) ⟨i + 1, inside⟩ 0)
  refine ⟨⟨?_, here, some, ?_⟩, ?_, ?_, rfl, ?_, ?_⟩
  · rw [super, ready.super]
  · rw [written, Function.update_of_ne slot.symm]
    exact chain.congr same
  · rw [freeCells_cons, freeCells_cons, written, freeCells_congr same, slots_take slot filled,
      Multiset.cons_swap, Multiset.cons_add]
  · exact Keeps.put some (node_mem List.mem_cons_self) _
  · rw [super, ← ready.super]
  · intro last
    rw [here] at last
    exact absurd last some

theorem alloc_leaves {nodes : List BlockNo} (ready : Ready s snapshot nodes) (owned : Owned s (freeCells s.mem nodes))
    (nonempty : 0 < s.below.size) :
    Leaves (treediskAllocBlock snapshot) s
      (fun taken after => ∃ rest, Taken s snapshot nodes taken.1 taken.2 after rest)
      (fun reason after => reason = full ∧ after = s ∧ nodes = []) := by
  unfold treediskAllocBlock
  cases nodes with
  | nil =>
    have none : freeList snapshot.superblock = 0 := ready.chain
    simp only [decide_eq_true none]
    exact ⟨rfl, rfl, trivial⟩
  | cons node rest =>
    obtain ⟨here, some, _⟩ := ready.chain
    have inside := owned.inside node (node_mem List.mem_cons_self)
    simp only [here, decide_eq_false some]
    apply Leaves.bind_returns (readOrPanic_returns inside _)
    cases found : lastFilled (s.mem node) (z.refs - 1) with
    | zero =>
      apply Leaves.bind_returns (writeOrPanic_returns nonempty _ _)
      exact ⟨rest, take_node ready owned found⟩
    | succ i =>
      apply Leaves.bind_returns (writeOrPanic_returns inside _ _)
      exact ⟨node :: rest, take_slot ready owned found⟩

end Alloc

structure Given (s : State z) (snapshot : Snapshot z) (nodes : List BlockNo) (target : BlockNo)
    (next : Snapshot z) (after : State z)
    (more : List BlockNo) : Prop where
  ready : Ready after next more
  cells : freeCells after.mem more = target ::ₘ freeCells s.mem nodes
  keeps : Keeps (target ::ₘ freeCells s.mem nodes) s after
  snapshot : next = { snapshot with superblock := after.mem 0 }

section Free
variable {s : State z} {snapshot : Snapshot z} {target : BlockNo} {nodes : List BlockNo}

def State.cleared (s : State z) (target : BlockNo) : State z :=
  State.put { s with freed := s.freed ++ [target] } target nullBlock

private theorem cleared_keeps (owned : Owned s (target ::ₘ freeCells s.mem nodes)) :
    Keeps (target ::ₘ freeCells s.mem nodes) s (s.cleared target) := by
  have some := owned.some target (Multiset.mem_cons_self ..)
  have written := Keeps.put (s := { s with freed := s.freed ++ [target] }) some
    (Multiset.mem_cons_self target (freeCells s.mem nodes)) nullBlock
  refine ⟨rfl, written.count, written.same, fun t member => ?_⟩
  rcases List.mem_append.mp member with old | new
  · exact .inl old
  · rw [List.mem_singleton.mp new]
    exact .inr (Multiset.mem_cons_self ..)

private theorem cleared_nodes (owned : Owned s (target ::ₘ freeCells s.mem nodes)) {node : BlockNo}
    (member : node ∈ nodes) :
    (s.cleared target).mem node = s.mem node := by
  apply State.put_ne
  rintro rfl
  exact (Multiset.nodup_cons.mp owned.distinct).1 (node_mem member)

/-- The slots of a block that only leads on. -/
private theorem slots_link (b : BlockNo) : slots (setRef (nullBlock : Block z) 0 b) = 0 := by
  apply slots_empty
  intro i slot
  rw [setRef_eq _ (Nat.lt_of_succ_lt (refs_large z))]
  exact Function.update_of_ne (fun same => slot same) _ _

private theorem give_head (ready : Ready s snapshot nodes) (owned : Owned s (target ::ₘ freeCells s.mem nodes))
    {block : Block z}
    {after : State z} (here : after.mem target = block) (link : block 0 = freeList snapshot.superblock)
    (empty : slots block = 0)
    (super : after.mem 0 = (snapshot.setFreeList target).superblock)
    (kept : ∀ node ∈ nodes, after.mem node = s.mem node) (keeps : Keeps (target ::ₘ freeCells s.mem nodes) s after) :
    Given s snapshot nodes target (snapshot.setFreeList target) after (target :: nodes) := by
  refine ⟨⟨super.symm, ?_, owned.some target (Multiset.mem_cons_self ..), ?_⟩, ?_, keeps, ?_⟩
  · exact freeList_setFreeList _ _
  · rw [here, link]
    exact ready.chain.congr kept
  · rw [freeCells_cons, here, empty, freeCells_congr kept, Multiset.cons_add, zero_add]
  · rw [super]
    rfl

private theorem give_slot {rest : List BlockNo} {node : BlockNo} (ready : Ready s snapshot (node :: rest))
    (owned : Owned s (target ::ₘ freeCells s.mem (node :: rest))) {i : Nat} (positive : i ≠ 0) (inside : i < z.refs)
    (empty : ref (s.mem node) i = 0) :
    Given s snapshot (node :: rest) target snapshot ((s.cleared target).put node (setRef (s.mem node) i target))
        (node :: rest) := by
  obtain ⟨here, some, chain⟩ := ready.chain
  rw [ref_eq _ inside] at empty
  rw [setRef_eq _ inside]
  have slot : (⟨i, inside⟩ : Fin z.refs) ≠ 0 := fun same => positive (congrArg Fin.val same)
  have fresh : ∀ other ∈ rest, other ≠ node := by
    rintro other member rfl
    have distinct := (Multiset.nodup_cons.mp owned.distinct).2
    rw [freeCells_cons, Multiset.cons_add] at distinct
    exact (Multiset.nodup_cons.mp distinct).1 (Multiset.mem_add.mpr (.inr (node_mem member)))
  have same : ∀ other ∈ rest,
      ((s.cleared target).put node (Function.update (s.mem node) ⟨i, inside⟩ target)).mem other = s.mem other := by
    intro other member
    rw [State.put_ne _ (fresh other member)]
    exact cleared_nodes owned (List.mem_cons_of_mem _ member)
  have written := (s.cleared target).put_self node (Function.update (s.mem node) ⟨i, inside⟩ target)
  have member : node ∈ target ::ₘ freeCells s.mem (node :: rest) :=
    Multiset.mem_cons_of_mem (node_mem List.mem_cons_self)
  have keeps := (cleared_keeps owned).trans (Keeps.put some member (Function.update (s.mem node) ⟨i, inside⟩ target))
  have super : ((s.cleared target).put node (Function.update (s.mem node) ⟨i, inside⟩ target)).mem 0 = s.mem 0 := by
    rw [State.put_ne _ some.symm]
    exact State.put_ne _ (owned.some target (Multiset.mem_cons_self ..)).symm _
  refine ⟨⟨?_, here, some, ?_⟩, ?_, keeps, ?_⟩
  · rw [super, ready.super]
  · rw [written, Function.update_of_ne slot.symm]
    exact chain.congr same
  · rw [freeCells_cons, freeCells_cons, written, freeCells_congr same,
      slots_put slot empty (owned.some target (Multiset.mem_cons_self ..)), Multiset.cons_swap, Multiset.cons_add]
  · rw [super, ← ready.super]

theorem free_ensures (ready : Ready s snapshot nodes) (owned : Owned s (target ::ₘ freeCells s.mem nodes))
    (nonempty : 0 < s.below.size) :
    Ensures (fun _ => False) (treediskFreeBlock snapshot target) s fun next after =>
      ∃ more, Given s snapshot nodes target next after more := by
  have some := owned.some target (Multiset.mem_cons_self ..)
  have inside := owned.inside target (Multiset.mem_cons_self ..)
  have keeps := cleared_keeps owned
  have count : nInodeblocks (snapshot.setFreeList target).superblock = nInodeblocks (s.mem 0) := by
    rw [← ready.super]
    exact nInodeblocks_setFreeList _ _
  have zeros : (s.cleared target).mem 0 = s.mem 0 := State.put_ne _ some.symm _
  have linked := keeps.trans (Keeps.super (s := s.cleared target) (count.trans (congrArg nInodeblocks zeros.symm)))
  unfold treediskFreeBlock
  apply Ensures.modify
  apply Ensures.bind_returns (writeOrPanic_returns (s := { s with freed := s.freed ++ [target] }) inside _ _)
  cases nodes with
  | nil =>
    have none : freeList snapshot.superblock = 0 := ready.chain
    simp only [decide_eq_true none]
    apply Ensures.bind_returns (writeOrPanic_returns (s := s.cleared target) nonempty _ _)
    have here : ((s.cleared target).put 0 (snapshot.setFreeList target).superblock).mem target = nullBlock := by
      rw [State.put_ne _ some]
      exact State.put_self ..
    refine ⟨[target], give_head ready owned here none.symm (slots_empty fun _ _ => rfl) ?_ nofun linked⟩
    exact State.put_self ..
  | cons node rest =>
    obtain ⟨here, exists_, _⟩ := ready.chain
    have member : node ∈ target ::ₘ freeCells s.mem (node :: rest) :=
      Multiset.mem_cons_of_mem (node_mem List.mem_cons_self)
    have block : (s.cleared target).mem node = s.mem node := cleared_nodes owned List.mem_cons_self
    simp only [here, decide_eq_false exists_]
    apply Ensures.bind_returns (readOrPanic_returns (s := s.cleared target) (owned.inside node member) _)
    rw [block]
    obtain ⟨low, high, found⟩ := firstEmpty_spec (s.mem node) (z.refs - 1) 1
    have large := refs_large z
    cases room : decide (firstEmpty (s.mem node) (z.refs - 1) 1 ≠ z.refs) with
    | true =>
      apply Ensures.bind_returns (writeOrPanic_returns (s := s.cleared target) (owned.inside node member) _ _)
      have less := of_decide_eq_true room
      exact ⟨node :: rest, give_slot ready owned (by omega) (by omega) (found (by omega))⟩
    | false =>
      apply Ensures.bind_returns (writeOrPanic_returns (s := s.cleared target) nonempty _ _)
      apply Ensures.bind_returns (writeOrPanic_returns (s := (s.cleared target).put 0 _) inside _ _)
      have first : (setRef (nullBlock : Block z) 0 node) 0 = freeList snapshot.superblock := by
        rw [setRef_eq _ (Nat.lt_of_succ_lt large), here]
        exact Function.update_self ..
      refine ⟨target :: node :: rest, give_head ready owned ?_ first (slots_link node) ?_ ?_
        (linked.trans (Keeps.put some (Multiset.mem_cons_self ..) _))⟩
      · exact State.put_self ..
      · rw [State.put_ne _ some.symm]
        exact State.put_self ..
      · intro other later
        have apart : other ≠ target := by
          rintro rfl
          exact (Multiset.nodup_cons.mp owned.distinct).1 (node_mem later)
        rw [State.put_ne _ apart, State.put_ne _ (owned.some other (Multiset.mem_cons_of_mem (node_mem later)))]
        exact cleared_nodes owned later

end Free

end Egos.Treedisk
