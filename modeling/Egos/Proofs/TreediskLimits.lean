import Egos.Proofs.TreediskFormat
import Egos.Proofs.TreediskWrite

/-! Writes at any 32-bit offset. The new size of a file is one more than the offset, in 32 bits:
at the last offset it is 0. -/

namespace Egos.Treedisk
open Library Library.Prog

variable {z : BlockSize} {n : BlockNo} {nodes : List BlockNo} {leaked : Multiset BlockNo} {s after : State z}
    {i : UInt32} {offset : BlockNo}

/-- A write has done its work: the file covers the offset, the trees are those of a volume at the
depths that reads compute from the sizes, and reading returns the block. -/
structure Extended (n : BlockNo) (leaked : Multiset BlockNo) (i : UInt32) (offset : BlockNo) (data : Block z)
    (s after : State z) : Prop where
  covers : offset < after.sizeOf i
  longer : s.sizeOf i ≤ after.sizeOf i
  trees : ∃ more, Volume n more leaked after
  reads : ∀ buffer, treediskRead i offset buffer after = .done (0, data) after

theorem Stored.extended {data : Block z} {more : List BlockNo}
    (stored : Stored n nodes leaked i offset data s after more)
    (inside : i.toNat < n.toNat * z.inodes) (room : offset + 1 ≠ 0) : Extended n leaked i offset data s after := by
  have covers : offset < after.sizeOf i := stored.size ▸ offset_grown room
  refine ⟨covers, ?_, ⟨more, stored.volume⟩, fun buffer => ?_⟩
  · rw [stored.size, UInt32.le_iff_toNat_le, grown_toNat room]
    exact Nat.le_max_left _ _
  · rw [stored.volume.read_below inside covers, stored.here]

/-- A write that returns 0 has done its work if and only if its offset is not the last one. -/
theorem write_extends_iff {data : Block z} (volume : Volume n nodes leaked s) (inside : i.toNat < n.toNat * z.inodes)
    (ran : treediskWrite i offset data s = .done 0 after) :
    Extended n leaked i offset data s after ↔ offset.toNat ≠ 2 ^ 32 - 1 := by
  constructor
  · intro extended last
    have covers := UInt32.lt_iff_toNat_lt.mp extended.covers
    have bound := (after.sizeOf i).toNat_lt
    omega
  · intro below
    have room : offset + 1 ≠ 0 := by
      intro zero
      have value := congrArg UInt32.toNat zero
      have bound := offset.toNat_lt
      rw [UInt32.toNat_add, UInt32.toNat_one, Nat.mod_eq_of_lt (by omega)] at value
      exact Nat.succ_ne_zero _ value
    obtain ⟨_, more, stored⟩ := (write_leaves volume inside room data).done ran
    exact stored.extended inside room

/-! The last offset of an empty file, on a store with room for the blocks. -/

def roomyStore : State .large where
  below := { size := 16, block := fun _ => nullBlock, reported := by decide }
  freed := []

def roomyCreated : State .large := (treediskCreate 1 roomyStore).state

def roomyWritten (offset : BlockNo) : State .large := (treediskWrite 0 offset nullBlock roomyCreated).state

private theorem roomy_volume : ∃ nodes, Volume 1 nodes 0 roomyCreated := by
  have format : treediskCreate 1 roomyStore = .done 0 roomyCreated := Outcome.done_of_value (by decide +kernel)
  obtain ⟨nodes, formatted⟩ := formatted_of_create rfl format
  exact ⟨nodes, formatted.volume⟩

theorem write_extends_first :
    Extended 1 0 0 0 nullBlock roomyCreated (roomyWritten 0) ↔ (0 : BlockNo).toNat ≠ 2 ^ 32 - 1 := by
  obtain ⟨nodes, volume⟩ := roomy_volume
  exact write_extends_iff volume (by decide) (Outcome.done_of_value (by decide +kernel))

/-- The write returns 0 and the file is still empty. -/
theorem write_vanishes :
    ¬ ∀ {z : BlockSize} {n : BlockNo} {nodes : List BlockNo} {leaked : Multiset BlockNo} {s after : State z}
      {i : UInt32}
    {offset : BlockNo} {data : Block z}, Volume n nodes leaked s → i.toNat < n.toNat * z.inodes →
    treediskWrite i offset data s = .done 0 after → Extended n leaked i offset data s after := by
  intro always
  obtain ⟨nodes, volume⟩ := roomy_volume
  have ran : treediskWrite 0 (2 ^ 32 - 1) nullBlock roomyCreated = .done 0 (roomyWritten (2 ^ 32 - 1)) :=
    Outcome.done_of_value (by decide +kernel)
  have size : (roomyWritten (2 ^ 32 - 1)).sizeOf 0 = 0 := by decide +kernel
  have covers := (always volume (by decide) ran).covers
  rw [size] at covers
  exact absurd covers (by decide)

end Egos.Treedisk
