import Egos.Proofs.TreediskGrow

/-! The calls on an open inode of a tree file system: what they answer and what they leave
behind, also when the store turns out to be full in the middle of a write. -/

namespace Egos.Treedisk
open Library Library.Prog Library.RefTree

variable {z : BlockSize} {n : BlockNo} {nodes : List BlockNo} {leaked : Multiset BlockNo} {s : State z} {i : UInt32}

def State.opened (s : State z) (i : UInt32) : Snapshot z :=
  { superblock := s.mem 0, inodeblock := s.mem (inodeBlock z i), inodeBlockno := inodeBlock z i, inodeNo := i }

namespace Volume

theorem getSnapshot_returns (volume : Volume n nodes leaked s) (inside : i.toNat < n.toNat * z.inodes) :
    treediskGetSnapshot i s = .done (some (s.opened i)) s := by
  unfold treediskGetSnapshot
  rw [bind_done (read_returns volume.nonempty)]
  simp only [volume.count, decide_eq_false (Nat.not_le.mpr inside)]
  rw [bind_done (read_returns (volume.inodeBlock_inside inside))]
  rfl

theorem getSnapshot_fails (volume : Volume n nodes leaked s) (outside : n.toNat * z.inodes ≤ i.toNat) :
    treediskGetSnapshot i s = .done none s := by
  unfold treediskGetSnapshot
  rw [bind_done (read_returns volume.nonempty)]
  simp only [volume.count, decide_eq_true (show i.toNat ≥ n.toNat * z.inodes from outside)]
  rfl

theorem ready (volume : Volume n nodes leaked s) : Ready s (s.opened i) nodes := ⟨rfl, volume.chain⟩

theorem nblocks_returns (volume : Volume n nodes leaked s) (inside : i.toNat < n.toNat * z.inodes) :
    treediskNblocks i s = .done (some (s.sizeOf i)) s := by
  unfold treediskNblocks
  rw [bind_done (volume.getSnapshot_returns inside)]
  rfl

/-- The offsets below the size are below the tree. -/
theorem offset_lt {size offset : BlockNo} (below : offset < size) : offset.toNat < z.refs ^ levelsOf z size := by
  have some : size > 0 := UInt32.lt_of_le_of_lt UInt32.zero_le below
  rw [UInt32.lt_iff_toNat_lt] at below
  have fits := (levelsFor_spec z (size - 1)).1
  rw [last_toNat some] at fits
  unfold levelsOf
  rw [if_pos some]
  omega

theorem read_below (volume : Volume n nodes leaked s) (inside : i.toNat < n.toNat * z.inodes) {offset : BlockNo}
    (below : offset < s.sizeOf i) (buffer : Block z) :
    treediskRead i offset buffer s = .done (0, s.dataAt i offset.toNat) s := by
  have notPast : ¬ offset ≥ (s.opened i).nblocks := UInt32.not_le.mpr below
  have blocks : ∀ c ∈ s.tree i, c < s.below.size := fun c member =>
    (volume.owned_tree inside).inside c (Multiset.mem_add.mpr (.inl member))
  have reads := walkDown_returns offset blocks buffer
  unfold treediskRead
  rw [bind_done (volume.getSnapshot_returns inside)]
  simp only [decide_eq_false notPast]
  unfold State.dataAt view
  rw [if_pos (offset_lt below)]
  exact reads

theorem read_past (volume : Volume n nodes leaked s) (inside : i.toNat < n.toNat * z.inodes) {offset : BlockNo}
    (past : s.sizeOf i ≤ offset) (buffer : Block z) : treediskRead i offset buffer s = .done (-1, buffer) s := by
  have tooLarge : offset ≥ (s.opened i).nblocks := past
  unfold treediskRead
  rw [bind_done (volume.getSnapshot_returns inside)]
  simp only [decide_eq_true tooLarge]
  rfl

/-- A file of size 0 has no root. -/
theorem empty_root (volume : Volume n nodes leaked s) (inside : i.toNat < n.toNat * z.inodes) (empty : s.sizeOf i = 0) :
    s.rootOf i = 0 := by
  have fits := volume.fits i inside
  rw [empty] at fits
  by_contra some
  exact fits some rfl

/-- The blocks of an inode and the free blocks are in the area behind the inode blocks. -/
theorem area_owned (volume : Volume n nodes leaked s) (inside : i.toNat < n.toNat * z.inodes) {b : BlockNo}
    (member : b ∈ s.tree i + freeCells s.mem nodes) : n < b ∧ b < s.below.size := by
  apply (volume.area b).mp
  exact Multiset.mem_of_le ((add_le_add_left (tree_le inside) _).trans (Multiset.le_add_right _ _)) member

theorem inodeBlock_out (volume : Volume n nodes leaked s) (inside : i.toNat < n.toNat * z.inodes) :
    inodeBlock z i ∉ s.tree i + freeCells s.mem nodes := by
  intro member
  have area := (volume.area_owned inside member).1
  exact absurd (UInt32.lt_of_lt_of_le area (inodeBlock_le inside)) (UInt32.lt_irrefl n)

end Volume

structure Truncated (n : BlockNo) (nodes : List BlockNo) (leaked : Multiset BlockNo) (i : UInt32) (s after : State z)
    (more : List BlockNo) : Prop where
  volume : Volume n more leaked after
  differs : Local i nodes s after
  size : after.sizeOf i = 0
  cells : freeCells after.mem more = s.tree i + freeCells s.mem nodes
  freed : ∀ t ∈ after.freed, t ∈ s.freed ∨ n < t ∧ t < s.below.size

def Overflows (z : BlockSize) (size : BlockNo) (reason : Halt) : Prop :=
  reason = .diverges ∧ capacityLoop z size 8 1 (UInt32.ofNat z.refs) = none

section Truncate
variable (volume : Volume n nodes leaked s) (inside : i.toNat < n.toNat * z.inodes)
include volume inside

theorem freeFile_ensures (some : s.sizeOf i ≠ 0) (rooted : s.rootOf i ≠ 0) :
    Ensures (Overflows z (s.sizeOf i)) (treediskFreeFile (s.opened i)) s fun next middle =>
      ∃ more, Freed s (s.opened i) nodes (s.tree i) next middle more := by
  have owned := volume.owned_tree inside
  have nblocks : (s.opened i).nblocks = s.sizeOf i := rfl
  have root : (s.opened i).root = s.rootOf i := rfl
  unfold treediskFreeFile
  rw [nblocks, root]
  simp only [decide_eq_false some]
  by_cases one : s.sizeOf i = 1
  · simp only [decide_eq_true one]
    have single : s.tree i = {s.rootOf i} := by
      unfold State.tree
      rw [one, levelsOf_one, cells_leaf rooted]
    rw [single] at owned ⊢
    rw [Multiset.singleton_add] at owned
    apply ((free_ensures volume.ready owned volume.nonempty).weaken _).stops_mono
    · exact fun _ impossible => impossible.elim
    · rintro next middle ⟨more, given⟩
      exact ⟨more, Freed.of_given given⟩
  · simp only [decide_eq_false one]
    cases found : capacityLoop z (s.sizeOf i) 8 1 (UInt32.ofNat z.refs) with
    | none => exact ⟨rfl, found⟩
    | some level =>
      have several : 1 < (s.sizeOf i).toNat := by
        have notZero : (s.sizeOf i).toNat ≠ 0 := fun zero => some (UInt32.toNat_inj.mp zero)
        have notOne : (s.sizeOf i).toNat ≠ 1 := fun same => one (UInt32.toNat_inj.mp same)
        omega
      have ready : Ready s (s.opened i) nodes := volume.ready
      have freed := recursiveFree_ensures rooted ready owned volume.nonempty
      rw [capacityLoop_levels z several found]
      exact freed.stops_mono fun _ impossible => impossible.elim

/-- The inode is written after its blocks have been freed. -/
private theorem emptied {next : Snapshot z} {middle : State z} {more : List BlockNo}
    (freed : Freed s (s.opened i) nodes (s.tree i) next middle more) :
    Truncated n nodes leaked i s (middle.put (inodeBlock z i) ((next.setNblocks 0).setRoot 0).inodeblock) more := by
  have block : ((next.setNblocks 0).setRoot 0).inodeblock =
      Function.update (Function.update (s.mem (inodeBlock z i)) (sizeSlot z i) 0) (rootSlot z i) 0 := by
    rw [freed.snapshot]
    rfl
  rw [block]
  generalize written : Function.update (Function.update (s.mem (inodeBlock z i)) (sizeSlot z i) 0)
    (rootSlot z i) 0 = row
  have out := volume.inodeBlock_out inside
  have here : (middle.put (inodeBlock z i) row).mem (inodeBlock z i) = row := State.put_self ..
  have super : (middle.put (inodeBlock z i) row).mem 0 = middle.mem 0 := State.put_ne _ (inodeBlock_some i).symm _
  have nodes' : ∀ node ∈ more, (middle.put (inodeBlock z i) row).mem node = middle.mem node := by
    intro node member
    apply State.put_ne
    rintro rfl
    have listed := node_mem (m := middle.mem) member
    rw [freed.cells] at listed
    exact out listed
  have size : (middle.put (inodeBlock z i) row).sizeOf i = 0 := by
    unfold State.sizeOf
    rw [here, ← written, Function.update_of_ne (rootSlot_ne_sizeSlot i i).symm, Function.update_self]
  have root : (middle.put (inodeBlock z i) row).rootOf i = 0 := by
    unfold State.rootOf
    rw [here, ← written, Function.update_self]
  have tree : (middle.put (inodeBlock z i) row).tree i = 0 := by
    unfold State.tree
    rw [root, cells_null]
  have cells : freeCells (middle.put (inodeBlock z i) row).mem more = s.tree i + freeCells s.mem nodes := by
    rw [freeCells_congr nodes', freed.cells]
  have differs : Local i nodes s (middle.put (inodeBlock z i) row) := by
    refine ⟨freed.keeps.size, ?_, fun b some apart outside => ?_, fun slot notRoot notSize => ?_⟩
    · rw [super, freed.keeps.count]
    · rw [State.put_ne _ apart]
      exact freed.keeps.same b some outside
    · rw [here, ← written, Function.update_of_ne notRoot, Function.update_of_ne notSize]
  have chain : Chain (middle.put (inodeBlock z i) row).mem
      (freeList ((middle.put (inodeBlock z i) row).mem 0)) more := by
    rw [super, ← freed.ready.super]
    exact freed.ready.chain.congr nodes'
  have stepped : Volume n more (0 + leaked) (middle.put (inodeBlock z i) row) := by
    apply volume.step inside differs chain
    · rw [tree, cells, zero_add, add_zero]
    · rw [root]
      exact Fits.null
  rw [zero_add] at stepped
  exact ⟨stepped, differs, size, cells,
    fun t member => (freed.keeps.freed t member).imp_right (volume.area_owned inside)⟩

theorem setsize_same : treediskSetsize i (s.sizeOf i) s = .done (some (s.sizeOf i)) s := by
  have nblocks : s.sizeOf i = (s.opened i).nblocks := rfl
  unfold treediskSetsize
  rw [bind_done (volume.getSnapshot_returns inside)]
  simp only [decide_eq_true nblocks]
  rfl

/-- Only truncation to nothing is supported. -/
theorem setsize_refused {count : BlockNo} (other : count ≠ s.sizeOf i) (some : count ≠ 0) :
    treediskSetsize i count s = .done none s := by
  have apart : count ≠ (s.opened i).nblocks := other
  unfold treediskSetsize
  rw [bind_done (volume.getSnapshot_returns inside)]
  simp only [decide_eq_false apart, decide_eq_true (UInt32.pos_iff_ne_zero.mpr some)]
  rfl

theorem setsize_ensures (some : s.sizeOf i ≠ 0) (rooted : s.rootOf i ≠ 0) :
    Ensures (Overflows z (s.sizeOf i)) (treediskSetsize i 0) s fun answer after =>
      answer = .some 0 ∧ ∃ more, Truncated n nodes leaked i s after more := by
  have apart : 0 ≠ (s.opened i).nblocks := some.symm
  have positive : ¬ (0 : BlockNo) > 0 := UInt32.lt_irrefl 0
  unfold treediskSetsize
  apply Ensures.bind_returns (volume.getSnapshot_returns inside)
  simp only [decide_eq_false apart, decide_eq_false positive]
  apply Ensures.bind (freeFile_ensures volume inside some rooted)
  rintro next middle ⟨more, freed⟩
  have place : ((next.setNblocks 0).setRoot 0).inodeBlockno = inodeBlock z i := by
    rw [freed.snapshot]
    rfl
  rw [place]
  have within : inodeBlock z i < middle.below.size := freed.keeps.size ▸ volume.inodeBlock_inside inside
  exact Ensures.bind_returns (writeOrPanic_returns within _ _) ⟨rfl, more, emptied volume inside freed⟩

end Truncate

end Egos.Treedisk
