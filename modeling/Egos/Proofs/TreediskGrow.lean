import Egos.Proofs.TreediskVolume

/-! Growing a tree: indirect blocks are put above the root, and the data stays where it is. -/

namespace Egos.Treedisk
open Library Library.Prog Library.RefTree

variable {z : BlockSize}

structure Grew (height top : Nat) (s : State z) (snapshot : Snapshot z) (nodes : List BlockNo)
    (next : Snapshot z) (after : State z)
    (more : List BlockNo) : Prop where
  ready : Ready after next more
  cells : cells after.mem top next.root + freeCells after.mem more =
    cells s.mem height snapshot.root + freeCells s.mem nodes
  fewer : freeCells after.mem more ≤ freeCells s.mem nodes
  keeps : Keeps (freeCells s.mem nodes) s after
  freed : after.freed = s.freed
  inode : next = Snapshot.setRoot { snapshot with superblock := after.mem 0 } next.root
  view : ∀ offset, view after.mem top next.root offset = view s.mem height snapshot.root offset
  fits : ∀ count, count ≠ 0 → Fits s.mem height snapshot.root count → Fits after.mem top next.root count
  rooted : height < top ∨ snapshot.root ≠ 0 → next.root ≠ 0
  le : height ≤ top
  flat : top = height → next.root = snapshot.root

/-- The new blocks are in no tree when the store is full before the tree has grown. -/
structure Lost (s : State z) (nodes : List BlockNo) (after : State z) : Prop where
  chain : Chain after.mem (freeList (after.mem 0)) []
  keeps : Keeps (freeCells s.mem nodes) s after
  freed : after.freed = s.freed

namespace Snapshot
variable (snapshot : Snapshot z)

@[simp] theorem setRoot_root (root : BlockNo) : (snapshot.setRoot root).root = root := by
  unfold Snapshot.root Snapshot.setRoot ref setRef
  exact Function.update_self ..

theorem setRoot_self : snapshot.setRoot snapshot.root = snapshot := by
  unfold setRoot root ref setRef
  rw [Function.update_eq_self]

theorem setRoot_setRoot (first second : BlockNo) :
    (snapshot.setRoot first).setRoot second = snapshot.setRoot second := by
  unfold setRoot setRef
  dsimp only
  rw [Function.update_idem]

end Snapshot

section Level
variable {height : Nat} {s taker : State z} {snapshot next : Snapshot z} {nodes rest : List BlockNo} {b : BlockNo}
  (owned : Owned s (cells s.mem height snapshot.root + freeCells s.mem nodes))
    (taken : Taken s snapshot nodes b next taker rest)

private def State.above (taker : State z) (b root : BlockNo) : State z := taker.put b (Function.update nullBlock 0 root)

include owned taken

private theorem above_owned : Owned taker (b ::ₘ (cells s.mem height snapshot.root + freeCells taker.mem rest)) := by
  rw [taken.cells, ← Multiset.singleton_add, add_left_comm, Multiset.singleton_add] at owned
  exact owned.resize taken.keeps.size

private theorem above_some : b ≠ 0 := (above_owned owned taken).some b (Multiset.mem_cons_self ..)

private theorem above_tree : ∀ c ∈ cells s.mem height snapshot.root, (taker.above b snapshot.root).mem c = s.mem c := by
  intro c member
  have new := above_owned owned taken
  have later : c ∈ cells s.mem height snapshot.root + freeCells taker.mem rest := Multiset.mem_add.mpr (.inl member)
  have apart : c ≠ b := by
    rintro rfl
    exact (Multiset.nodup_cons.mp new.distinct).1 later
  unfold State.above
  rw [State.put_ne _ apart]
  refine taken.keeps.same c (new.some c (Multiset.mem_cons_of_mem later)) ?_
  exact (new.mono (Multiset.le_cons_self _ _)).disjoint member

private theorem above_nodes {node : BlockNo} (member : node ∈ rest) :
    (taker.above b snapshot.root).mem node = taker.mem node := by
  apply State.put_ne
  rintro rfl
  have later := Multiset.mem_of_le (Multiset.le_add_left _ (cells s.mem height snapshot.root))
    (node_mem (m := taker.mem) member)
  exact (Multiset.nodup_cons.mp (above_owned owned taken).distinct).1 later

private theorem above_cells :
    cells (taker.above b snapshot.root).mem (height + 1) b = b ::ₘ cells s.mem height snapshot.root := by
  have some := above_some owned taken
  have written : (taker.above b snapshot.root).mem b = Function.update nullBlock 0 snapshot.root := State.put_self ..
  have replaced := cells_replace (m := s.mem) (h := height) some written fun j _ => by
    rw [show (nullBlock : Block z) j = 0 from rfl, cells_null, cells_null]
  have nothing : ∑ j, cells s.mem height ((nullBlock : Block z) j) = 0 := Finset.sum_eq_zero fun _ _ => cells_null
  rw [nothing, show (nullBlock : Block z) 0 = 0 from rfl, cells_null, add_zero] at replaced
  rw [replaced, cells_congr (above_tree owned taken), Multiset.cons_add, zero_add]

private theorem above_view (offset : Nat) :
    view (taker.above b snapshot.root).mem (height + 1) b offset = view s.mem height snapshot.root offset := by
  have some := above_some owned taken
  have written : (taker.above b snapshot.root).mem b = Function.update nullBlock 0 snapshot.root := State.put_self ..
  unfold view
  by_cases low : offset < z.refs ^ height
  · have branch : digit z.refs height offset = 0 := by
      unfold digit
      rw [Nat.div_eq_of_lt low]
      rfl
    rw [← branch] at written
    rw [if_pos low, if_pos (Nat.lt_of_lt_of_le low
      (Nat.pow_le_pow_right (Nat.zero_lt_of_lt (refs_large z)) (Nat.le_succ height))),
      fetch_replaced some written]
    exact fetch_congr (above_tree owned taken)
  · rw [if_neg low]
    split
    · rename_i high
      have branch : digit z.refs height offset ≠ 0 := by
        intro zero
        have value := congrArg Fin.val zero
        have small : offset / z.refs ^ height < z.refs := by
          rw [Nat.pow_succ] at high
          exact Nat.div_lt_of_lt_mul high
        change offset / z.refs ^ height % z.refs = 0 % z.refs at value
        rw [Nat.mod_eq_of_lt small, Nat.zero_mod] at value
        exact low ((Nat.div_eq_zero_iff_lt (Nat.pow_pos (Nat.zero_lt_of_lt (refs_large z)))).mp value)
      rw [fetch_replace some written branch]
      exact fetch_null offset
    · rfl

private theorem above_grew :
    Grew height (height + 1) s snapshot nodes (next.setRoot b) (taker.above b snapshot.root) rest := by
  have some := above_some owned taken
  have kept : ∀ node ∈ rest, (taker.above b snapshot.root).mem node = taker.mem node := fun node =>
    above_nodes owned taken
  have super : (taker.above b snapshot.root).mem 0 = taker.mem 0 := State.put_ne _ some.symm _
  have keeps : Keeps (freeCells s.mem nodes) s (taker.above b snapshot.root) := by
    rw [taken.cells]
    exact (taken.keeps.mono fun c member => Multiset.mem_cons_of_mem member).trans
      (Keeps.put some (Multiset.mem_cons_self ..) _)
  refine ⟨⟨?_, taken.ready.chain.congr kept⟩, ?_, ?_, keeps, taken.freed, ?_, ?_, ?_, fun _ => ?_, Nat.le_succ height,
    fun same => absurd same (Nat.succ_ne_self height)⟩
  · rw [super]
    exact taken.ready.super
  · rw [Snapshot.setRoot_root, above_cells owned taken, freeCells_congr kept, taken.cells, Multiset.cons_add,
      Multiset.add_cons]
  · rw [freeCells_congr kept, taken.cells]
    exact Multiset.le_cons_self _ _
  · rw [Snapshot.setRoot_root, super, taken.snapshot]
  · intro offset
    rw [Snapshot.setRoot_root]
    exact above_view owned taken offset
  · intro count positive fits
    rw [Snapshot.setRoot_root]
    have written : (taker.above b snapshot.root).mem b = Function.update nullBlock 0 snapshot.root := State.put_self ..
    refine fits_replace written positive ?_ fun _ _ => Fits.null
    rw [show ((0 : Fin z.refs) : Nat) = 0 from rfl, Nat.zero_mul]
    exact fits.congr (above_tree owned taken)
  · rw [Snapshot.setRoot_root]
    exact some

end Level

namespace Grew
variable {height top : Nat} {s middle after : State z} {snapshot next last : Snapshot z}
    {nodes more most : List BlockNo}

theorem none (ready : Ready s snapshot nodes) : Grew height height s snapshot nodes snapshot s nodes := by
  refine ⟨ready, rfl, le_refl _, Keeps.refl, rfl, ?_, fun _ => rfl, fun _ _ fits => fits, fun some => ?_,
    Nat.le_refl _, fun _ => rfl⟩
  · rw [← ready.super]
    exact snapshot.setRoot_self.symm
  · exact some.resolve_left (Nat.lt_irrefl _)

theorem step (first : Grew height (height + 1) s snapshot nodes next middle more)
    (later : Grew (height + 1) top middle next more last after most) :
    Grew height top s snapshot nodes last after most := by
  have keeps := first.keeps.trans (later.keeps.mono fun b member => Multiset.mem_of_le first.fewer member)
  refine ⟨later.ready, later.cells.trans first.cells, later.fewer.trans first.fewer, keeps,
    later.freed.trans first.freed, ?_, ?_, ?_, ?_,
    Nat.le_of_succ_le later.le, ?_⟩
  · have changed := congrArg (fun given : Snapshot z =>
      Snapshot.setRoot { given with superblock := after.mem 0 } last.root) first.inode
    exact later.inode.trans (changed.trans (Snapshot.setRoot_setRoot
      { snapshot with superblock := after.mem 0 } next.root last.root))
  · exact fun offset => (later.view offset).trans (first.view offset)
  · exact fun count positive fits => later.fits count positive (first.fits count positive fits)
  · exact fun _ => later.rooted (.inr (first.rooted (.inl (Nat.lt_succ_self height))))
  · exact fun same => absurd (same ▸ later.le) (Nat.not_succ_le_self height)

end Grew

theorem Lost.after {height top : Nat} {s middle after : State z} {snapshot next : Snapshot z}
    {nodes more : List BlockNo}
    (first : Grew height top s snapshot nodes next middle more) (lost : Lost middle more after) : Lost s nodes after :=
  ⟨lost.chain, first.keeps.trans (lost.keeps.mono fun _ member => Multiset.mem_of_le first.fewer member),
    lost.freed.trans first.freed⟩

theorem grow_leaves {levels height top : Nat} {s : State z} {snapshot : Snapshot z} {nodes : List BlockNo}
    (same : top = height + levels)
    (ready : Ready s snapshot nodes) (owned : Owned s (cells s.mem height snapshot.root + freeCells s.mem nodes))
    (nonempty : 0 < s.below.size) :
    Leaves (growLevels levels snapshot) s (fun next after => ∃ more, Grew height top s snapshot nodes next after more)
      (fun reason after => reason = full ∧ Lost s nodes after) := by
  induction levels generalizing height s snapshot nodes with
  | zero =>
    rw [same]
    exact ⟨nodes, Grew.none ready⟩
  | succ levels ih =>
    unfold growLevels
    apply Leaves.bind (alloc_leaves ready (owned.mono (Multiset.le_add_left _ _)) nonempty)
    · rintro ⟨b, next⟩ taker ⟨rest, taken⟩
      have first := above_grew owned taken
      have root : next.root = snapshot.root := by
        have copied : next = { snapshot with superblock := taker.mem 0 } := taken.snapshot
        rw [copied]
        rfl
      have inside : b < taker.below.size := (above_owned owned taken).inside b (Multiset.mem_cons_self ..)
      have later : Owned (taker.above b snapshot.root)
        (cells (taker.above b snapshot.root).mem (height + 1) (next.setRoot b).root +
          freeCells (taker.above b snapshot.root).mem rest) := by
        rw [first.cells]
        exact owned.resize first.keeps.size
      have row : setRef (nullBlock : Block z) 0 next.root = Function.update nullBlock 0 snapshot.root := by
        rw [root, setRef_eq _ (Nat.lt_of_succ_lt (refs_large z))]
        rfl
      have writes := writeOrPanic_returns inside (setRef nullBlock 0 next.root) "treedisk_write: indirect block"
      rw [row] at writes
      dsimp only
      rw [row]
      apply Leaves.bind_returns writes
      apply (ih (by omega) first.ready later (first.keeps.size ▸ nonempty)).weaken
      · rintro last after ⟨more, grew⟩
        exact ⟨more, first.step grew⟩
      · rintro reason after ⟨stopped, lost⟩
        exact ⟨stopped, lost.after first⟩
    · rintro reason after ⟨stopped, rfl, rfl⟩
      exact ⟨stopped, ready.super ▸ ready.chain, Keeps.refl, rfl⟩

end Egos.Treedisk
