import Egos.Proofs.TreediskFree
import Egos.Proofs.TreediskLevels
import Mathlib.Algebra.BigOperators.Fin
import Mathlib.Tactic.Abel

/-! The loops of treedisk.c that walk a tree: reading an offset, and freeing a file. -/

namespace Egos.Treedisk
open Library Library.Prog Library.RefTree

variable {z : BlockSize}

/-- Reading gives the data at the offset, or zeros. -/
theorem walkDown_returns {s : State z} (offset : BlockNo) {levels : Nat} {b : BlockNo}
    (inside : ∀ c ∈ cells s.mem levels b, c < s.below.size) (buffer : Block z) :
    walkDown offset levels b buffer s = .done (0, fetch s.mem levels b offset.toNat) s := by
  induction levels generalizing b buffer with
  | zero =>
    unfold walkDown
    by_cases null : b = 0
    · rw [null, fetch_null]
      rfl
    · simp only [decide_eq_false null]
      rw [bind_done (read_returns (inside b (root_mem null))), fetch_leaf null]
      rfl
  | succ levels ih =>
    unfold walkDown
    by_cases null : b = 0
    · rw [null, fetch_null]
      rfl
    · simp only [decide_eq_false null]
      rw [bind_done (read_returns (inside b (root_mem null))), fetch_node null, index_eq]
      exact ih (fun c member => inside c (child_mem null member)) _

structure Freed (s : State z) (snapshot : Snapshot z) (nodes : List BlockNo) (blocks : Multiset BlockNo)
    (next : Snapshot z)
    (after : State z) (more : List BlockNo) : Prop where
  ready : Ready after next more
  cells : freeCells after.mem more = blocks + freeCells s.mem nodes
  keeps : Keeps (blocks + freeCells s.mem nodes) s after
  snapshot : next = { snapshot with superblock := after.mem 0 }

namespace Freed
variable {s middle after : State z} {snapshot next last : Snapshot z} {nodes more most : List BlockNo}
  {first second : Multiset BlockNo}

theorem none (ready : Ready s snapshot nodes) : Freed s snapshot nodes 0 snapshot s nodes :=
  ⟨ready, (zero_add _).symm, Keeps.refl, by rw [← ready.super]⟩

theorem of_given {target : BlockNo} (given : Given s snapshot nodes target next after more) :
    Freed s snapshot nodes {target} next after more := by
  refine ⟨given.ready, ?_, ?_, given.snapshot⟩
  · rw [given.cells, Multiset.singleton_add]
  · rw [Multiset.singleton_add]
    exact given.keeps

theorem trans (left : Freed s snapshot nodes first next middle more)
    (right : Freed middle next more second last after most) :
    Freed s snapshot nodes (first + second) last after most := by
  have cells : freeCells after.mem most = first + second + freeCells s.mem nodes := by
    rw [right.cells, left.cells, add_left_comm, add_assoc]
  refine ⟨right.ready, cells, ?_, ?_⟩
  · apply (left.keeps.mono ?_).trans
    · rw [← cells, right.cells]
      exact right.keeps
    · intro b member
      rw [add_right_comm]
      exact Multiset.mem_add.mpr (.inl member)
  · rw [right.snapshot, left.snapshot]

end Freed

/-- A loop over subtrees, each of which is freed. -/
private theorem freeAll_ensures {levels : Nat} {row : Block z} (free : Snapshot z → Fin z.refs → Tree z (Snapshot z))
    (frees : ∀ {s snapshot nodes} (i : Fin z.refs), Ready s snapshot nodes →
      Owned s (cells s.mem levels (row i) + freeCells s.mem nodes) → 0 < s.below.size →
      Ensures (fun _ => False) (free snapshot i) s fun next after => ∃ more,
        Freed s snapshot nodes (cells s.mem levels (row i)) next after more)
    (is : List (Fin z.refs)) {s : State z} {snapshot : Snapshot z} {nodes : List BlockNo}
    (ready : Ready s snapshot nodes)
    (owned : Owned s ((is.map fun i => cells s.mem levels (row i)).sum + freeCells s.mem nodes))
    (nonempty : 0 < s.below.size) :
    Ensures (fun _ => False) (is.foldlM free snapshot) s fun next after =>
      ∃ more, Freed s snapshot nodes (is.map fun i => cells s.mem levels (row i)).sum next after more := by
  induction is generalizing s snapshot nodes with
  | nil => exact ⟨nodes, Freed.none ready⟩
  | cons i rest ih =>
    rw [List.foldlM_cons]
    rw [List.map_cons, List.sum_cons] at owned ⊢
    rw [add_comm (cells s.mem levels (row i)), add_assoc] at owned
    have mine := owned.mono (Multiset.le_add_left _ _)
    apply Ensures.bind (frees i ready mine nonempty)
    rintro next middle ⟨more, freed⟩
    have kept : (rest.map fun j => cells middle.mem levels (row j)) = rest.map fun j => cells s.mem levels (row j) := by
      apply List.map_congr_left
      intro j member
      apply cells_congr
      intro c below
      have listed : c ∈ (rest.map fun j => cells s.mem levels (row j)).sum :=
        Multiset.mem_of_le (List.single_le_sum (fun _ _ => Multiset.zero_le _) _ (List.mem_map_of_mem member)) below
      exact freed.keeps.same c (owned.some c (Multiset.mem_add.mpr (.inl listed))) (owned.disjoint listed)
    have later : Owned middle ((rest.map
        fun j => cells middle.mem levels (row j)).sum + freeCells middle.mem more) := by
      rw [kept, freed.cells]
      exact owned.resize freed.keeps.size
    apply (ih freed.ready later (freed.keeps.size ▸ nonempty)).weaken
    rintro last after ⟨most, all⟩
    rw [kept] at all
    exact ⟨most, freed.trans all⟩

theorem recursiveFree_ensures {levels : Nat} {b : BlockNo} (some : b ≠ 0) {s : State z} {snapshot : Snapshot z}
    {nodes : List BlockNo}
    (ready : Ready s snapshot nodes) (owned : Owned s (cells s.mem levels b + freeCells s.mem nodes))
    (nonempty : 0 < s.below.size) :
    Ensures (fun _ => False) (recursiveFreeFile levels snapshot b) s fun next after =>
      ∃ more, Freed s snapshot nodes (cells s.mem levels b) next after more := by
  induction levels generalizing b s snapshot nodes with
  | zero =>
    unfold recursiveFreeFile
    rw [cells_leaf some] at owned ⊢
    rw [Multiset.singleton_add] at owned
    apply (free_ensures ready owned nonempty).weaken
    rintro next after ⟨more, given⟩
    exact ⟨more, Freed.of_given given⟩
  | succ levels ih =>
    unfold recursiveFreeFile
    rw [cells_node some, Fin.sum_univ_def, ← Multiset.singleton_add] at owned ⊢
    have inside := owned.inside b (Multiset.mem_add.mpr
      (.inl (Multiset.mem_add.mpr (.inl (Multiset.mem_singleton_self b)))))
    rw [add_assoc] at owned
    apply Ensures.bind_returns (readOrPanic_returns inside _)
    have frees : ∀ {t : State z} {given : Snapshot z} {list : List BlockNo} (i : Fin z.refs), Ready t given list →
        Owned t (cells t.mem levels (s.mem b i) + freeCells t.mem list) → 0 < t.below.size →
        Ensures (fun _ => False) (if s.mem b i ≠ 0 then recursiveFreeFile levels given (s.mem b i) else pure given) t
          fun next after => ∃ more, Freed t given list (cells t.mem levels (s.mem b i)) next after more := by
      intro t given list i ready owned nonempty
      by_cases hole : s.mem b i = 0
      · rw [if_neg (not_not_intro hole), hole, cells_null]
        exact ⟨list, Freed.none ready⟩
      · rw [if_pos hole]
        exact ih hole ready owned nonempty
    apply Ensures.bind (freeAll_ensures _ frees _ ready (owned.mono (Multiset.le_add_left _ _)) nonempty)
    rintro next middle ⟨more, freed⟩
    have last : Owned middle (b ::ₘ freeCells middle.mem more) := by
      rw [freed.cells, ← Multiset.singleton_add]
      exact owned.resize freed.keeps.size
    apply (free_ensures freed.ready last (freed.keeps.size ▸ nonempty)).weaken
    rintro final after ⟨most, given⟩
    have all := freed.trans (Freed.of_given given)
    rw [add_comm] at all
    exact ⟨most, all⟩

/-- The part of the tree below one slot after a write. `r` is what is in the slot now. -/
structure Walked (offset : BlockNo) (levels : Nat) (s : State z) (nodes : List BlockNo) (p : BlockNo)
    (row : Block z) (i : Fin z.refs)
    (after : State z) (r : BlockNo) (more : List BlockNo) : Prop where
  chain : Chain after.mem (freeList (after.mem 0)) more
  parent : after.mem p = Function.update row i r
  cells : cells after.mem levels r + freeCells after.mem more = cells s.mem levels (row i) + freeCells s.mem nodes
  keeps : Keeps (p ::ₘ (RefTree.cells s.mem levels (row i) + freeCells s.mem nodes)) s after
  freed : after.freed = s.freed
  fits : ∀ count, offset.toNat % z.refs ^ levels < count → Fits s.mem levels (row i) count →
    Fits after.mem levels r count
  others : ∀ o, o % z.refs ^ levels ≠ offset.toNat % z.refs ^ levels →
    fetch after.mem levels r o = fetch s.mem levels (row i) o

structure Wrote (offset : BlockNo) (data : Block z) (levels : Nat) (s : State z) (nodes : List BlockNo)
    (p : BlockNo) (row : Block z)
    (i : Fin z.refs) (after : State z) (r : BlockNo) (more : List BlockNo) : Prop
    extends Walked offset levels s nodes p row i after r more where
  some : r ≠ 0
  here : fetch after.mem levels r offset.toNat = data

structure Stuck (offset : BlockNo) (levels : Nat) (s : State z) (nodes : List BlockNo) (p : BlockNo)
    (row : Block z) (i : Fin z.refs)
    (after : State z) (r : BlockNo) : Prop
    extends Walked offset levels s nodes p row i after r [] where
  here : fetch after.mem levels r offset.toNat = fetch s.mem levels (row i) offset.toNat

/-- Where the walk stands: the parent block is on disk, or it is a new block that is still zero
on disk if no other block is free. -/
structure Standing (levels : Nat) (s : State z) (snapshot : Snapshot z) (nodes : List BlockNo) (p : BlockNo)
    (row : Block z)
    (i : Fin z.refs) : Prop where
  ready : Ready s snapshot nodes
  owned : Owned s (p ::ₘ (cells s.mem levels (row i) + freeCells s.mem nodes))
  nonempty : 0 < s.below.size
  parent : s.mem p = row ∨ row = nullBlock ∧ (freeList snapshot.superblock = 0 → s.mem p = nullBlock)

section Node
variable {offset : BlockNo} {levels : Nat} {s after : State z} {nodes more : List BlockNo} {b r : BlockNo}
    {row : Block z}
  (walked : Walked offset levels s nodes b row (digit z.refs levels offset.toNat) after r more)
  (owned : Owned s (b ::ₘ ∑ j, cells s.mem levels (row j) + freeCells s.mem nodes))
include walked owned

/-- The other subtrees of the node are as they were. -/
private theorem sibling_same {j : Fin z.refs} (other : j ≠ digit z.refs levels offset.toNat) :
    ∀ c ∈ cells s.mem levels (row j), after.mem c = s.mem c := by
  intro c member
  have split := Finset.add_sum_erase Finset.univ
    (fun j => cells s.mem levels (row j)) (Finset.mem_univ (digit z.refs levels offset.toNat))
  have listed : c ∈ ∑ k ∈ Finset.univ.erase (digit z.refs levels offset.toNat), cells s.mem levels (row k) :=
    Multiset.mem_of_le (Finset.single_le_sum (f := fun k => cells s.mem levels (row k)) (fun _ _ => Multiset.zero_le _)
      (Finset.mem_erase.mpr ⟨other, Finset.mem_univ j⟩)) member
  have apart : b ::ₘ ∑ j, cells s.mem levels (row j) + freeCells s.mem nodes =
      (∑ k ∈ Finset.univ.erase (digit z.refs levels offset.toNat), cells s.mem levels (row k)) +
        (b ::ₘ (cells s.mem levels (row (digit z.refs levels offset.toNat)) + freeCells s.mem nodes)) := by
    rw [← split, ← Multiset.singleton_add, ← Multiset.singleton_add]
    abel
  rw [apart] at owned
  exact walked.keeps.same c (owned.some c (Multiset.mem_add.mpr (.inl listed))) (owned.disjoint listed)

omit walked in
private theorem node_some : b ≠ 0 :=
  owned.some b (Multiset.mem_add.mpr (.inl (Multiset.mem_cons_self ..)))

private theorem node_cells : cells after.mem (levels + 1) b + freeCells after.mem more =
    b ::ₘ ∑ j, cells s.mem levels (row j) + freeCells s.mem nodes := by
  have replaced := cells_replace (node_some owned) walked.parent
    fun j other => cells_congr (sibling_same walked owned other)
  apply add_right_cancel (b := cells s.mem levels (row (digit z.refs levels offset.toNat)))
  calc cells after.mem (levels + 1) b + freeCells after.mem more + cells s.mem levels (row (digit z.refs levels offset.toNat))
      = b ::ₘ ∑ j, cells s.mem levels (row j) + (cells after.mem levels r + freeCells after.mem more) := by
        rw [add_right_comm, replaced, add_assoc]
    _ = b ::ₘ ∑ j, cells s.mem levels (row j) + freeCells s.mem nodes +
          cells s.mem levels (row (digit z.refs levels offset.toNat)) := by
        rw [walked.cells]
        abel

private theorem node_others {o : Nat} (other : o % z.refs ^ (levels + 1) ≠ offset.toNat % z.refs ^ (levels + 1)) :
    fetch after.mem (levels + 1) b o = fetch s.mem levels (row (digit z.refs levels o)) o := by
  by_cases same : digit z.refs levels o = digit z.refs levels offset.toNat
  · rw [fetch_node (node_some owned), walked.parent, same, Function.update_self]
    exact walked.others o (offset_below other same)
  · rw [fetch_replace (node_some owned) walked.parent same]
    exact fetch_congr (sibling_same walked owned same)

private theorem node_fits {count : Nat} (below : offset.toNat % z.refs ^ (levels + 1) < count)
    (fits : ∀ j : Fin z.refs, Fits s.mem levels (row j) (count - j * z.refs ^ levels)) :
    Fits after.mem (levels + 1) b count := by
  refine fits_replace walked.parent (Nat.ne_of_gt (Nat.zero_lt_of_lt below)) (walked.fits _ ?_ (fits _)) ?_
  · rw [offset_split, Nat.mul_comm] at below
    exact Nat.lt_sub_of_add_lt below
  · exact fun j other => (fits j).congr (sibling_same walked owned other)

end Node

namespace Standing
variable {offset : BlockNo} {levels : Nat} {s : State z} {snapshot : Snapshot z} {nodes : List BlockNo}
    {p : BlockNo} {row : Block z}
  {i : Fin z.refs}

theorem parent_some (standing : Standing levels s snapshot nodes p row i) : p ≠ 0 :=
  standing.owned.some p (Multiset.mem_cons_self ..)

theorem parent_inside (standing : Standing levels s snapshot nodes p row i) : p < s.below.size :=
  standing.owned.inside p (Multiset.mem_cons_self ..)

theorem parent_out (standing : Standing levels s snapshot nodes p row i) :
    p ∉ cells s.mem levels (row i) + freeCells s.mem nodes :=
  (Multiset.nodup_cons.mp standing.owned.distinct).1

theorem below_owned (standing : Standing levels s snapshot nodes p row i) :
    Owned s (cells s.mem levels (row i) + freeCells s.mem nodes) :=
  standing.owned.mono (Multiset.le_cons_self _ _)

/-- The slot is used: the parent is on disk. -/
theorem on_disk (standing : Standing levels s snapshot nodes p row i) (some : row i ≠ 0) : s.mem p = row := by
  rcases standing.parent with same | ⟨zero, _⟩
  · exact same
  · rw [zero] at some
    exact absurd rfl some

section Existing
variable (standing : Standing (levels + 1) s snapshot nodes p row i) (some : row i ≠ 0)
include standing some

private theorem existing_owned :
    Owned s (row i ::ₘ ∑ j, cells s.mem levels (s.mem (row i) j) + freeCells s.mem nodes) := by
  have owned := standing.below_owned
  rw [cells_node some] at owned
  exact owned

private theorem existing (j : Fin z.refs) : Standing levels s snapshot nodes (row i) (s.mem (row i)) j := by
  refine ⟨standing.ready, (standing.existing_owned some).mono ?_, standing.nonempty, .inl rfl⟩
  rw [Multiset.cons_add]
  exact Multiset.cons_le_cons _ (add_le_add_left (child_le j) _)

private theorem existing_walked {after : State z} {r : BlockNo} {more : List BlockNo}
    (walked : Walked offset levels s nodes (row i) (s.mem (row i)) (digit z.refs levels offset.toNat) after r more) :
    Walked offset (levels + 1) s nodes p row i after (row i) more := by
  have owned := standing.existing_owned some
  have subset : ∀ c ∈ row i ::ₘ (cells s.mem levels
    (s.mem (row i) (digit z.refs levels offset.toNat)) + freeCells s.mem nodes),
      c ∈ cells s.mem (levels + 1) (row i) + freeCells s.mem nodes := by
    intro c member
    rw [cells_node some]
    refine Multiset.mem_of_le ?_ member
    rw [Multiset.cons_add]
    exact Multiset.cons_le_cons _ (add_le_add_left (child_le _) _)
  refine ⟨walked.chain, ?_, ?_, ?_, walked.freed, ?_, ?_⟩
  · rw [Function.update_eq_self, walked.keeps.same p standing.parent_some
      fun member => standing.parent_out (subset p member)]
    exact standing.on_disk some
  · rw [node_cells walked owned, cells_node some]
  · exact walked.keeps.mono fun c member => Multiset.mem_cons_of_mem (subset c member)
  · exact fun count below fits => node_fits walked owned below (fits some).2
  · intro o other
    rw [node_others walked owned other, fetch_node some]

end Existing

section Fresh
variable {next : Snapshot z} {taker : State z} {b : BlockNo} {rest : List BlockNo}
    (standing : Standing levels s snapshot nodes p row i)
  (hole : row i = 0) (taken : Taken s snapshot nodes b next taker rest)
include standing hole taken

/-- The parent block with the new reference. -/
private theorem fresh_owned : Owned taker (p ::ₘ (b ::ₘ freeCells taker.mem rest)) := by
  have owned := standing.owned
  rw [hole, cells_null, zero_add, taken.cells] at owned
  exact owned.resize taken.keeps.size

private theorem fresh_rest : freeCells (taker.put p (Function.update row i b)).mem rest = freeCells taker.mem rest := by
  apply freeCells_congr
  intro node member
  apply State.put_ne
  rintro rfl
  exact (Multiset.nodup_cons.mp (standing.fresh_owned hole taken).distinct).1
    (Multiset.mem_cons_of_mem (node_mem member))

private theorem fresh_ready : Ready (taker.put p (Function.update row i b)) next rest := by
  have owned := standing.fresh_owned hole taken
  refine ⟨?_, taken.ready.chain.congr ?_⟩
  · rw [State.put_ne _ standing.parent_some.symm]
    exact taken.ready.super
  · intro node member
    apply State.put_ne
    rintro rfl
    exact (Multiset.nodup_cons.mp owned.distinct).1 (Multiset.mem_cons_of_mem (node_mem member))

private theorem fresh_stale : (taker.put p (Function.update row i b)).mem b = s.mem b := by
  have distinct := (standing.fresh_owned hole taken).distinct
  obtain ⟨out, later⟩ := Multiset.nodup_cons.mp distinct
  have some := (standing.fresh_owned hole taken).some b (Multiset.mem_cons_of_mem (Multiset.mem_cons_self ..))
  rw [State.put_ne]
  · exact taken.keeps.same b some (Multiset.nodup_cons.mp later).1
  · rintro rfl
    exact out (Multiset.mem_cons_self ..)

omit hole in
/-- Everything up to the new reference. -/
private theorem fresh_keeps : Keeps (p ::ₘ freeCells s.mem nodes) s (taker.put p (Function.update row i b)) := by
  refine (taken.keeps.mono ?_).trans (Keeps.put standing.parent_some (Multiset.mem_cons_self ..) _)
  intro c member
  rw [taken.cells]
  exact Multiset.mem_cons_of_mem (Multiset.mem_cons_of_mem member)

/-- The new block is the next parent. -/
private theorem fresh_below (j : Fin z.refs) (below : Nat) :
    Standing below (taker.put p (Function.update row i b)) next rest b nullBlock j := by
  refine ⟨standing.fresh_ready hole taken, ?_, taken.keeps.size ▸ standing.nonempty, .inr ⟨rfl, fun last => ?_⟩⟩
  · rw [show (nullBlock : Block z) j = 0 from rfl, cells_null, zero_add, standing.fresh_rest hole taken]
    exact ((standing.fresh_owned hole taken).mono (Multiset.le_cons_self _ _)).resize rfl
  · rw [standing.fresh_stale hole taken]
    exact taken.cleared last

/-- What the blocks of the new subtree and the free list are. -/
private theorem fresh_cells :
    freeCells s.mem nodes = b ::ₘ freeCells (taker.put p (Function.update row i b)).mem rest := by
  rw [taken.cells, standing.fresh_rest hole taken]

omit standing hole taken in
private theorem no_children (t : State z) (below : Nat) : ∑ j, cells t.mem below ((nullBlock : Block z) j) = 0 :=
  Finset.sum_eq_zero fun _ _ => cells_null

private theorem fresh_walked {after : State z} {r : BlockNo} {more : List BlockNo} {below : Nat}
    (same : levels = below + 1)
    (walked : Walked offset below (taker.put p (Function.update row i b)) rest b nullBlock
    (digit z.refs below offset.toNat) after r more) :
    Walked offset levels s nodes p row i after b more := by
  subst same
  have nothing := no_children (taker.put p (Function.update row i b)) below
  have owned : Owned (taker.put p (Function.update row i b))
      (b ::ₘ ∑ j, cells (taker.put p (Function.update row i b)).mem below ((nullBlock : Block z) j) +
        freeCells (taker.put p (Function.update row i b)).mem rest) := by
    rw [nothing, Multiset.cons_add, zero_add, standing.fresh_rest hole taken]
    exact ((standing.fresh_owned hole taken).mono (Multiset.le_cons_self _ _)).resize rfl
  have changed : ∀ c ∈ b ::ₘ (cells (taker.put p (Function.update row i b)).mem below
    (nullBlock (digit z.refs below offset.toNat)) +
      freeCells (taker.put p (Function.update row i b)).mem rest), c ∈ freeCells s.mem nodes := by
    intro c member
    rw [show (nullBlock : Block z) (digit z.refs below offset.toNat) = 0 from rfl, cells_null, zero_add] at member
    rw [standing.fresh_cells hole taken]
    exact member
  have out : p ∉ freeCells s.mem nodes := by
    have out := standing.parent_out
    rw [hole, cells_null, zero_add] at out
    exact out
  refine ⟨walked.chain, ?_, ?_, ?_, walked.freed.trans taken.freed, ?_, ?_⟩
  · rw [walked.keeps.same p standing.parent_some fun member => out (changed p member)]
    exact State.put_self ..
  · rw [node_cells walked owned, nothing, hole, cells_null, standing.fresh_cells hole taken, Multiset.cons_add,
      zero_add, zero_add]
  · rw [hole, cells_null, zero_add]
    exact (standing.fresh_keeps taken).trans (walked.keeps.mono
      fun c member => Multiset.mem_cons_of_mem (changed c member))
  · exact fun count low _ => node_fits walked owned low fun _ => Fits.null
  · intro o other
    rw [node_others walked owned other, hole, fetch_null]
    exact fetch_null o

end Fresh

/-- A block at the bottom is written after its parent. -/
private theorem leaf_wrote {t : State z} {next : Snapshot z} {b : BlockNo} {rest : List BlockNo}
    (ready : Ready t next rest)
    (owned : Owned t (p ::ₘ (b ::ₘ freeCells t.mem rest))) (parent : t.mem p = Function.update row i b)
    (cells : b ::ₘ freeCells t.mem rest = RefTree.cells s.mem 0 (row i) + freeCells s.mem nodes)
    (keeps : Keeps (p ::ₘ (RefTree.cells s.mem 0 (row i) + freeCells s.mem nodes)) s t)
    (freed : t.freed = s.freed) (data : Block z) :
    Wrote offset data 0 s nodes p row i (t.put b data) b rest := by
  obtain ⟨out, distinct⟩ := Multiset.nodup_cons.mp owned.distinct
  have some : b ≠ 0 := owned.some b (Multiset.mem_cons_of_mem (Multiset.mem_cons_self ..))
  have super : (t.put b data).mem 0 = t.mem 0 := State.put_ne _ some.symm _
  have nodes' : ∀ node ∈ rest, (t.put b data).mem node = t.mem node := by
    intro node member
    apply State.put_ne
    rintro rfl
    exact (Multiset.nodup_cons.mp distinct).1 (node_mem member)
  refine ⟨⟨?_, ?_, ?_, keeps.trans (Keeps.put some ?_ data), freed, ?_, ?_⟩, some, ?_⟩
  · rw [super, ← ready.super]
    exact ready.chain.congr nodes'
  · rw [State.put_ne, parent]
    rintro rfl
    exact out (Multiset.mem_cons_self ..)
  · rw [freeCells_congr nodes', cells_leaf some, Multiset.singleton_add, cells]
  · rw [← cells]
    exact Multiset.mem_cons_of_mem (Multiset.mem_cons_self ..)
  · exact fun count below _ _ => Nat.ne_of_gt (Nat.zero_lt_of_lt below)
  · intro o other
    rw [pow_zero, Nat.mod_one, Nat.mod_one] at other
    exact absurd rfl other
  · rw [fetch_leaf some]
    exact State.put_self ..

private theorem fresh_leaf {next : Snapshot z} {taker : State z} {b : BlockNo} {rest : List BlockNo}
    (standing : Standing 0 s snapshot nodes p row i) (hole : row i = 0)
    (taken : Taken s snapshot nodes b next taker rest)
    (data : Block z) : Wrote offset data 0 s nodes p row i
    ((taker.put p (Function.update row i b)).put b data) b rest := by
  have owned : Owned (taker.put p (Function.update row i b)) (p ::ₘ (b ::ₘ freeCells taker.mem rest)) :=
    (standing.fresh_owned hole taken).resize rfl
  refine leaf_wrote (standing.fresh_ready hole taken) ?_ (State.put_self ..) ?_ ?_ taken.freed data
  · rw [standing.fresh_rest hole taken]
    exact owned
  · rw [hole, cells_null, zero_add, standing.fresh_cells hole taken]
  · rw [hole, cells_null, zero_add]
    exact standing.fresh_keeps taken

private theorem existing_leaf (standing : Standing 0 s snapshot nodes p row i) (some : row i ≠ 0) (data : Block z) :
    Wrote offset data 0 s nodes p row i (s.put (row i) data) (row i) nodes := by
  have cells : row i ::ₘ freeCells s.mem nodes = RefTree.cells s.mem 0 (row i) + freeCells s.mem nodes := by
    rw [cells_leaf some, Multiset.singleton_add]
  refine leaf_wrote standing.ready ?_ ?_ cells Keeps.refl rfl data
  · rw [cells]
    exact standing.owned
  · rw [Function.update_eq_self]
    exact standing.on_disk some

/-- The store is full when the slot has to be filled. -/
private theorem stuck (standing : Standing levels s snapshot [] p row i) (hole : row i = 0) :
    Stuck offset levels s [] p row i s 0 := by
  have last : freeList snapshot.superblock = 0 := standing.ready.chain
  have parent : s.mem p = row := by
    rcases standing.parent with same | ⟨zero, cleared⟩
    · exact same
    · rw [zero]
      exact cleared last
  refine ⟨⟨?_, ?_, ?_, Keeps.refl, rfl, fun _ _ _ => Fits.null, fun o _ => ?_⟩, ?_⟩
  · rw [← standing.ready.super]
    exact standing.ready.chain
  · rw [parent, ← hole, Function.update_eq_self]
  · rw [hole]
  · rw [hole]
  · rw [hole]

end Standing

theorem walk_leaves (offset : BlockNo) (data : Block z) {levels : Nat} {s : State z} {snapshot : Snapshot z}
    {nodes : List BlockNo}
    {p : BlockNo} {row : Block z} {i : Fin z.refs} (standing : Standing levels s snapshot nodes p row i) :
    Leaves (walkAndWrite offset data levels snapshot p row i) s
      (fun _ after => ∃ r more, Wrote offset data levels s nodes p row i after r more)
      (fun reason after => reason = full ∧ ∃ r, Stuck offset levels s nodes p row i after r) := by
  have allocates := alloc_leaves standing.ready (standing.below_owned.mono (Multiset.le_add_left _ _)) standing.nonempty
  induction levels generalizing s snapshot nodes p row i with
  | zero =>
    unfold walkAndWrite
    by_cases hole : row i = 0
    · simp only [decide_eq_true hole]
      apply Leaves.bind allocates
      · rintro ⟨b, next⟩ taker ⟨rest, taken⟩
        have inside := (standing.fresh_owned hole taken).inside b (Multiset.mem_cons_of_mem (Multiset.mem_cons_self ..))
        apply Leaves.bind_returns (writeOrPanic_returns (taken.keeps.size ▸ standing.parent_inside) _ _)
        exact Leaves.returns (writeOrPanic_returns (s := taker.put p _) inside _ _) ⟨_, _,
          standing.fresh_leaf hole taken data⟩
      · rintro reason after ⟨rfl, rfl, rfl⟩
        exact ⟨rfl, 0, standing.stuck hole⟩
    · simp only [decide_eq_false hole]
      have inside := standing.below_owned.inside (row i) (Multiset.mem_add.mpr (.inl (root_mem hole)))
      exact Leaves.returns (writeOrPanic_returns inside _ _) ⟨_, _, standing.existing_leaf hole data⟩
  | succ levels ih =>
    unfold walkAndWrite
    by_cases hole : row i = 0
    · simp only [decide_eq_true hole]
      apply Leaves.bind allocates
      · rintro ⟨b, next⟩ taker ⟨rest, taken⟩
        apply Leaves.bind_returns (writeOrPanic_returns (taken.keeps.size ▸ standing.parent_inside) _ _)
        have some := (standing.fresh_owned hole taken).some b (Multiset.mem_cons_of_mem (Multiset.mem_cons_self ..))
        have below := standing.fresh_below hole taken (index z offset levels) levels
        apply (ih below (alloc_leaves below.ready
          (below.below_owned.mono (Multiset.le_add_left _ _)) below.nonempty)).weaken
        · rintro _ after ⟨r, more, wrote⟩
          rw [index_eq] at wrote
          refine ⟨b, more, standing.fresh_walked hole taken rfl wrote.toWalked, some, ?_⟩
          rw [fetch_replaced some wrote.parent]
          exact wrote.here
        · rintro reason after ⟨rfl, r, stuck⟩
          rw [index_eq] at stuck
          refine ⟨rfl, b, standing.fresh_walked hole taken rfl stuck.toWalked, ?_⟩
          rw [fetch_replaced some stuck.parent, stuck.here, hole, fetch_null]
          exact fetch_null _
      · rintro reason after ⟨rfl, rfl, rfl⟩
        exact ⟨rfl, 0, standing.stuck hole⟩
    · simp only [decide_eq_false hole]
      have inside := standing.below_owned.inside (row i) (Multiset.mem_add.mpr (.inl (root_mem hole)))
      apply Leaves.bind_returns (readOrPanic_returns inside _)
      have below := standing.existing hole (index z offset levels)
      apply (ih below (alloc_leaves below.ready
        (below.below_owned.mono (Multiset.le_add_left _ _)) below.nonempty)).weaken
      · rintro _ after ⟨r, more, wrote⟩
        rw [index_eq] at wrote
        refine ⟨_, more, standing.existing_walked hole wrote.toWalked, hole, ?_⟩
        rw [fetch_replaced hole wrote.parent]
        exact wrote.here
      · rintro reason after ⟨rfl, r, stuck⟩
        rw [index_eq] at stuck
        refine ⟨rfl, _, standing.existing_walked hole stuck.toWalked, ?_⟩
        rw [fetch_replaced hole stuck.parent, fetch_node hole]
        exact stuck.here

end Egos.Treedisk
