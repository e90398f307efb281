import Egos.Proofs.TreediskTrees
import Mathlib.Algebra.BigOperators.Intervals

/-! A tree file system as a whole: every block behind the inode blocks is in one tree, on
the free list, or leaked. What a call does to one inode leaves the others alone. -/

namespace Egos.Treedisk
open Library Library.Prog Library.RefTree

variable {z : BlockSize}

def rootSlot (z : BlockSize) (i : UInt32) : Fin z.refs := Fin.ofNat z.refs (rootIndex z i)

def sizeSlot (z : BlockSize) (i : UInt32) : Fin z.refs := Fin.ofNat z.refs (nblocksIndex z i)

section Slots
variable (i j : UInt32)

theorem inodes_pos (z : BlockSize) : 0 < z.inodes := by
  cases z <;> decide

theorem refs_inodes (z : BlockSize) : z.refs = 2 * z.inodes := by
  cases z <;> rfl

theorem rootSlot_val : (rootSlot z i).val = rootIndex z i := by
  have below := Nat.mod_lt i.toNat (inodes_pos z)
  exact Nat.mod_eq_of_lt (by rw [refs_inodes]; unfold rootIndex; omega)

theorem sizeSlot_val : (sizeSlot z i).val = nblocksIndex z i := by
  have below := Nat.mod_lt i.toNat (inodes_pos z)
  exact Nat.mod_eq_of_lt (by rw [refs_inodes]; unfold nblocksIndex; omega)

theorem rootSlot_ne_sizeSlot : rootSlot z i ≠ sizeSlot z j := by
  intro same
  have values := congrArg Fin.val same
  rw [rootSlot_val, sizeSlot_val] at values
  unfold rootIndex nblocksIndex at values
  omega

private theorem inodes_toNat (z : BlockSize) : (UInt32.ofNat z.inodes).toNat = z.inodes := by
  cases z <;> rfl

theorem inodeBlock_toNat : (inodeBlock z i).toNat = 1 + i.toNat / z.inodes := by
  have few : 2 ≤ z.inodes := by cases z <;> decide
  have half : i.toNat / z.inodes ≤ i.toNat / 2 := Nat.div_le_div_left few (by decide)
  have bound := i.toNat_lt
  unfold inodeBlock
  rw [UInt32.toNat_add, UInt32.toNat_div, inodes_toNat, UInt32.toNat_one]
  exact Nat.mod_eq_of_lt (by omega)

theorem inodeBlock_some : inodeBlock z i ≠ 0 := by
  intro zero
  have value := congrArg UInt32.toNat zero
  rw [inodeBlock_toNat, UInt32.toNat_zero, Nat.add_comm] at value
  exact Nat.succ_ne_zero _ value

variable {i j}

/-- Two inodes in one block have different slots. -/
theorem slots_apart (other : i ≠ j) (same : inodeBlock z i = inodeBlock z j) :
    rootSlot z i ≠ rootSlot z j ∧ sizeSlot z i ≠ sizeSlot z j := by
  have blocks := congrArg UInt32.toNat same
  rw [inodeBlock_toNat, inodeBlock_toNat] at blocks
  have rests : i.toNat % z.inodes ≠ j.toNat % z.inodes := by
    intro equal
    apply other
    apply UInt32.toNat_inj.mp
    rw [← Nat.div_add_mod i.toNat z.inodes, ← Nat.div_add_mod j.toNat z.inodes, equal]
    congr 2
    omega
  constructor
  · intro equal
    have values := congrArg Fin.val equal
    rw [rootSlot_val, rootSlot_val] at values
    unfold rootIndex at values
    omega
  · intro equal
    have values := congrArg Fin.val equal
    rw [sizeSlot_val, sizeSlot_val] at values
    unfold nblocksIndex at values
    omega

end Slots

/-- The data at an offset of a tree of the given height, zeros behind its end. -/
def view (m : BlockNo → Block z) (height : Nat) (root : BlockNo) (offset : Nat) : Block z :=
  if offset < z.refs ^ height then fetch m height root offset else nullBlock

theorem view_null (m : BlockNo → Block z) (height offset : Nat) : view m height 0 offset = nullBlock := by
  unfold view
  split
  · exact fetch_null offset
  · rfl

namespace State
variable (s : State z) (i : UInt32)

def rootOf : BlockNo := s.mem (inodeBlock z i) (rootSlot z i)

def sizeOf : BlockNo := s.mem (inodeBlock z i) (sizeSlot z i)

def tree : Multiset BlockNo := cells s.mem (levelsOf z (s.sizeOf i)) (s.rootOf i)

def dataAt (offset : Nat) : Block z := view s.mem (levelsOf z (s.sizeOf i)) (s.rootOf i) offset

end State

def trees (n : BlockNo) (s : State z) : Multiset BlockNo :=
  ∑ i ∈ Finset.range (n.toNat * z.inodes), s.tree (UInt32.ofNat i)

structure Volume (n : BlockNo) (nodes : List BlockNo) (leaked : Multiset BlockNo) (s : State z) : Prop where
  count : nInodeblocks (s.mem 0) = n
  room : n.toNat + 2 ≤ s.below.size.toNat
  inodes : n.toNat * z.inodes ≤ 2 ^ 32
  chain : Chain s.mem (freeList (s.mem 0)) nodes
  distinct : (trees n s + freeCells s.mem nodes + leaked).Nodup
  area : ∀ b, b ∈ trees n s + freeCells s.mem nodes + leaked ↔ n < b ∧ b < s.below.size
  fits : ∀ i : UInt32, i.toNat < n.toNat * z.inodes →
    Fits s.mem (levelsOf z (s.sizeOf i)) (s.rootOf i) (s.sizeOf i).toNat

/-- Only one inode is different: its slots, its blocks and free blocks. -/
structure Local (j : UInt32) (nodes : List BlockNo) (s after : State z) : Prop where
  size : after.below.size = s.below.size
  count : nInodeblocks (after.mem 0) = nInodeblocks (s.mem 0)
  same : ∀ b, b ≠ 0 → b ≠ inodeBlock z j → b ∉ s.tree j + freeCells s.mem nodes → after.mem b = s.mem b
  slots : ∀ slot, slot ≠ rootSlot z j → slot ≠ sizeSlot z j →
    after.mem (inodeBlock z j) slot = s.mem (inodeBlock z j) slot

namespace Volume
variable {n : BlockNo} {nodes : List BlockNo} {leaked : Multiset BlockNo} {s after : State z} {i j : UInt32}

/-- Inode blocks are not in the area of the trees. -/
theorem inodeBlock_le (inside : i.toNat < n.toNat * z.inodes) : inodeBlock z i ≤ n := by
  rw [UInt32.le_iff_toNat_le, inodeBlock_toNat]
  have below : i.toNat / z.inodes < n.toNat := Nat.div_lt_of_lt_mul (Nat.mul_comm n.toNat z.inodes ▸ inside)
  rw [Nat.add_comm]
  exact below

theorem inodeBlock_inside (volume : Volume n nodes leaked s) (inside : i.toNat < n.toNat * z.inodes) :
    inodeBlock z i < s.below.size := by
  have low := inodeBlock_le inside
  have room := volume.room
  rw [UInt32.le_iff_toNat_le] at low
  rw [UInt32.lt_iff_toNat_lt]
  omega

theorem nonempty (volume : Volume n nodes leaked s) : 0 < s.below.size := by
  have room := volume.room
  rw [UInt32.lt_iff_toNat_lt, UInt32.toNat_zero]
  omega

theorem tree_le (inside : i.toNat < n.toNat * z.inodes) : s.tree i ≤ trees n s := by
  have listed := Finset.single_le_sum (f := fun k => s.tree (UInt32.ofNat k)) (fun _ _ => Multiset.zero_le _)
    (Finset.mem_range.mpr inside)
  rwa [UInt32.ofNat_toNat] at listed

theorem owned (volume : Volume n nodes leaked s) : Owned s (trees n s + freeCells s.mem nodes + leaked) := by
  refine ⟨volume.distinct, fun b member => ?_, fun b member => ((volume.area b).mp member).2⟩
  have low := ((volume.area b).mp member).1
  rintro rfl
  exact absurd low (Nat.not_lt_zero _)

theorem owned_tree (volume : Volume n nodes leaked s) (inside : i.toNat < n.toNat * z.inodes) :
    Owned s (s.tree i + freeCells s.mem nodes) :=
  volume.owned.mono ((add_le_add_left (tree_le inside) _).trans (Multiset.le_add_right _ _))

/-- Blocks of the area are no inode blocks. -/
theorem not_inodeBlock (volume : Volume n nodes leaked s) (inside : i.toNat < n.toNat * z.inodes) {b : BlockNo}
    (member : b ∈ trees n s + freeCells s.mem nodes + leaked) : b ≠ inodeBlock z i := by
  rintro rfl
  have high := ((volume.area _).mp member).1
  have low := inodeBlock_le (z := z) inside
  exact absurd (UInt32.lt_of_lt_of_le high low) (UInt32.lt_irrefl n)

theorem trees_split (inside : j.toNat < n.toNat * z.inodes) :
    trees n s = s.tree j + ∑ k ∈ (Finset.range (n.toNat * z.inodes)).erase j.toNat, s.tree (UInt32.ofNat k) := by
  unfold trees
  rw [← Finset.add_sum_erase _ _ (Finset.mem_range.mpr inside), UInt32.ofNat_toNat]

/-- Blocks of another inode are not touched. -/
theorem tree_apart (volume : Volume n nodes leaked s) (mine : i.toNat < n.toNat * z.inodes)
    (inside : j.toNat < n.toNat * z.inodes)
    (other : i ≠ j) {b : BlockNo} (member : b ∈ s.tree i) : b ∉ s.tree j + freeCells s.mem nodes := by
  have listed : b ∈ ∑ k ∈ (Finset.range (n.toNat * z.inodes)).erase j.toNat, s.tree (UInt32.ofNat k) := by
    have apart : i.toNat ≠ j.toNat := fun same => other (UInt32.toNat_inj.mp same)
    have le := Finset.single_le_sum (f := fun k => s.tree (UInt32.ofNat k)) (fun _ _ => Multiset.zero_le _)
      (Finset.mem_erase.mpr ⟨apart, Finset.mem_range.mpr mine⟩)
    rw [UInt32.ofNat_toNat] at le
    exact Multiset.mem_of_le le member
  have owned := volume.owned.mono (Multiset.le_add_right _ leaked)
  rw [trees_split inside, add_comm (s.tree j), add_assoc] at owned
  exact owned.disjoint listed

end Volume

namespace Local
variable {n : BlockNo} {nodes more : List BlockNo} {leaked : Multiset BlockNo} {s after : State z} {i j : UInt32}
  (differs : Local j nodes s after) (volume : Volume n nodes leaked s) (mine : i.toNat < n.toNat * z.inodes)
  (inside : j.toNat < n.toNat * z.inodes) (other : i ≠ j)
include differs volume mine inside other

omit other in
private theorem inode_same {slot : Fin z.refs} (notRoot : inodeBlock z i = inodeBlock z j → slot ≠ rootSlot z j)
    (notSize : inodeBlock z i = inodeBlock z j → slot ≠ sizeSlot z j) :
    after.mem (inodeBlock z i) slot = s.mem (inodeBlock z i) slot := by
  by_cases same : inodeBlock z i = inodeBlock z j
  · have kept := differs.slots slot (notRoot same) (notSize same)
    rw [same]
    exact kept
  · refine congrFun (differs.same _ (inodeBlock_some i) same ?_) slot
    intro member
    refine volume.not_inodeBlock mine ?_ rfl
    refine Multiset.mem_of_le ?_ member
    exact (add_le_add_left (Volume.tree_le inside) _).trans (Multiset.le_add_right _ _)

theorem rootOf_other : after.rootOf i = s.rootOf i :=
  differs.inode_same volume mine inside (fun same => (slots_apart other same).1) fun _ => rootSlot_ne_sizeSlot i j

theorem sizeOf_other : after.sizeOf i = s.sizeOf i :=
  differs.inode_same volume mine inside (fun _ => (rootSlot_ne_sizeSlot j i).symm)
    fun same => (slots_apart other same).2

theorem tree_same : ∀ c ∈ s.tree i, after.mem c = s.mem c := by
  intro c member
  have listed : c ∈ trees n s + freeCells s.mem nodes + leaked :=
    Multiset.mem_add.mpr (.inl (Multiset.mem_add.mpr (.inl (Multiset.mem_of_le (Volume.tree_le mine) member))))
  exact differs.same c (volume.owned.some c listed) (volume.not_inodeBlock inside listed)
    (volume.tree_apart mine inside other member)

theorem tree_other : after.tree i = s.tree i := by
  unfold State.tree
  rw [differs.rootOf_other volume mine inside other, differs.sizeOf_other volume mine inside other]
  exact cells_congr (differs.tree_same volume mine inside other)

theorem dataAt_other (offset : Nat) : after.dataAt i offset = s.dataAt i offset := by
  unfold State.dataAt view
  rw [differs.rootOf_other volume mine inside other, differs.sizeOf_other volume mine inside other]
  split
  · exact fetch_congr (differs.tree_same volume mine inside other)
  · rfl

theorem fits_other : Fits after.mem (levelsOf z (after.sizeOf i)) (after.rootOf i) (after.sizeOf i).toNat := by
  rw [differs.rootOf_other volume mine inside other, differs.sizeOf_other volume mine inside other]
  exact (volume.fits i mine).congr (differs.tree_same volume mine inside other)

end Local

/-- One inode, the free list and the leaked blocks trade blocks. -/
theorem Volume.step {n : BlockNo} {nodes more : List BlockNo} {leaked lost : Multiset BlockNo}
    {s after : State z} {j : UInt32}
    (volume : Volume n nodes leaked s) (inside : j.toNat < n.toNat * z.inodes) (differs : Local j nodes s after)
    (chain : Chain after.mem (freeList (after.mem 0)) more)
    (cells : after.tree j + freeCells after.mem more + lost = s.tree j + freeCells s.mem nodes)
    (fits : Fits after.mem (levelsOf z (after.sizeOf j)) (after.rootOf j) (after.sizeOf j).toNat) :
    Volume n more (lost + leaked) after := by
  have others : ∑ k ∈ (Finset.range (n.toNat * z.inodes)).erase j.toNat, after.tree (UInt32.ofNat k) =
      ∑ k ∈ (Finset.range (n.toNat * z.inodes)).erase j.toNat, s.tree (UInt32.ofNat k) := by
    apply Finset.sum_congr rfl
    intro k member
    obtain ⟨apart, listed⟩ := Finset.mem_erase.mp member
    have small := Finset.mem_range.mp listed
    have value : (UInt32.ofNat k).toNat = k := UInt32.toNat_ofNat_of_lt (Nat.lt_of_lt_of_le small volume.inodes)
    refine differs.tree_other volume (value.symm ▸ small) inside ?_
    rintro rfl
    exact apart value.symm
  have total : trees n after + freeCells after.mem more + (lost + leaked) =
      trees n s + freeCells s.mem nodes + leaked := by
    rw [trees_split inside, trees_split inside, others, ← add_assoc]
    congr 1
    rw [add_right_comm _ _ (freeCells after.mem more), add_right_comm _ _ (freeCells s.mem nodes), ← cells]
    exact add_right_comm _ _ _
  refine ⟨differs.count.trans volume.count, ?_, volume.inodes, chain, ?_, ?_, ?_⟩
  · rw [differs.size]
    exact volume.room
  · rw [total]
    exact volume.distinct
  · rw [total, differs.size]
    exact volume.area
  · intro i mine
    by_cases other : i = j
    · rw [other]
      exact fits
    · exact differs.fits_other volume mine inside other

end Egos.Treedisk
