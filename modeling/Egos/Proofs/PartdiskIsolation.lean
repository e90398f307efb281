import Egos.Block.Partdisk

/-! When two partitions of one store do not see each other. -/

namespace Egos.Partdisk
open Disk

variable {volume : Volume} {p q : Partition} {call : Call} {first second : Part} {size : BlockNo}

/-- The block of the store below is one of the partition. -/
def Visible (part : Part) (block : BlockNo) : Prop := ∃ offset < part.nblocks, part.delta + offset = block

structure SameOutside (part : Part) (left right : Store) : Prop where
  size : left.size = right.size
  block : ∀ block : BlockNo, ¬Visible part block → left.block block.toNat = right.block block.toNat

/-- A call changes no block that is visible through the other partition, and its answer does
not depend on these blocks. -/
structure Isolated (volume : Volume) (p : Partition) (call : Call) : Prop where
  unchanged : ∀ offset, (volume.part p.other).read (exec volume p call).1.below offset =
    (volume.part p.other).read volume.below offset
  unseen : ∀ below, SameOutside (volume.part p.other) volume.below below →
    (exec { volume with below } p call).2 = (exec volume p call).2

def Apart (size : BlockNo) (first second : Part) : Prop := ∀ block < size, Visible first block → ¬Visible second block

theorem Apart.symm (apart : Apart size first second) : Apart size second first :=
  fun block inside left right => apart block inside right left

/-- The ranges that the partitions are created with: they are disjoint and end before the
block numbers do. -/
theorem apart_of_ranges (before : first.delta.toNat + first.nblocks.toNat ≤ second.delta.toNat)
    (fits : second.delta.toNat + second.nblocks.toNat ≤ 2 ^ 32) : Apart size first second := by
  rintro block - ⟨left, inLeft, rfl⟩ ⟨right, inRight, same⟩
  have inLeft := UInt32.lt_iff_toNat_lt.mp inLeft
  have inRight := UInt32.lt_iff_toNat_lt.mp inRight
  have same := congrArg UInt32.toNat same
  rw [UInt32.toNat_add, UInt32.toNat_add] at same
  have bound := second.delta.toNat_lt
  rw [Nat.mod_eq_of_lt (by omega), Nat.mod_eq_of_lt (by omega)] at same
  omega

theorem read_eq (part : Part) (below : Store) (offset : BlockNo) : part.read below offset =
    if offset < part.nblocks ∧ part.delta + offset < below.size then some (below.block (part.delta + offset).toNat)
        else none := by
  unfold Part.read Store.read
  by_cases inside : offset < part.nblocks
  · simp [inside, UInt32.not_le.mpr inside]
  · simp [inside, UInt32.not_lt.mp inside]

theorem write_eq (part : Part) (below : Store) (offset : BlockNo) (block : Block) : part.write below offset block =
    if offset < part.nblocks ∧ part.delta + offset < below.size then
      some { below with block := Function.update below.block (part.delta + offset).toNat block } else none := by
  unfold Part.write Store.write
  by_cases inside : offset < part.nblocks
  · simp [inside, UInt32.not_le.mpr inside]
  · simp [inside, UInt32.not_lt.mp inside]

section Write
variable {offset : BlockNo} {block : Block}

theorem exec_written (inside : offset < (volume.part p).nblocks ∧ (volume.part p).delta + offset < volume.below.size) :
    exec volume p (.write offset block) =
      ({ volume with
          below := { volume.below with
            block := Function.update volume.below.block ((volume.part p).delta + offset).toNat block } },
                .status true) := by
  have wrote := write_eq (volume.part p) volume.below offset block
  rw [if_pos inside] at wrote
  simp only [exec, wrote]

theorem exec_refused (outside : ¬(offset < (volume.part p).nblocks ∧
    (volume.part p).delta + offset < volume.below.size)) :
    exec volume p (.write offset block) = (volume, .status false) := by
  have refused := write_eq (volume.part p) volume.below offset block
  rw [if_neg outside] at refused
  simp only [exec, refused]

end Write

theorem exec_size (volume : Volume) (p : Partition) (call : Call) :
    (exec volume p call).1.below.size = volume.below.size := by
  cases call with
  | read offset => rfl
  | setsize nblocks => rfl
  | write offset block =>
    by_cases inside : offset < (volume.part p).nblocks ∧ (volume.part p).delta + offset < volume.below.size
    · rw [exec_written inside]
    · rw [exec_refused inside]

theorem isolated_of_apart (apart : Apart volume.below.size (volume.part p) (volume.part p.other)) (call : Call) :
    Isolated volume p call := by
  cases call with
  | setsize nblocks => exact ⟨fun _ => rfl, fun _ _ => rfl⟩
  | read offset =>
    refine ⟨fun _ => rfl, fun below same => congrArg Reply.block ?_⟩
    change (volume.part p).read below offset = (volume.part p).read volume.below offset
    rw [read_eq, read_eq, ← same.size]
    split
    case isTrue inside => rw [same.block _ (apart _ inside.2 ⟨offset, inside.1, rfl⟩)]
    case isFalse => rfl
  | write offset block =>
    by_cases inside : offset < (volume.part p).nblocks ∧ (volume.part p).delta + offset < volume.below.size
    · refine ⟨fun other => ?_, fun below same => ?_⟩
      · rw [exec_written inside, read_eq, read_eq]
        split
        case isTrue seen =>
          refine congrArg some (Function.update_of_ne (fun same => ?_) _ _)
          exact apart _ inside.2 ⟨offset, inside.1, rfl⟩ ⟨other, seen.1, UInt32.toNat_inj.mp same⟩
        case isFalse => rfl
      · rw [exec_written inside, exec_written (same.size ▸ inside)]
    · refine ⟨fun other => by rw [exec_refused inside], fun below same => ?_⟩
      rw [exec_refused inside, exec_refused (same.size ▸ inside)]

/-- A call on a partition changes neither the other one nor where either begins. -/
theorem exec_part (volume : Volume) (p : Partition) (call : Call) : (exec volume p call).1.part =
    match call with
    | .setsize nblocks => Function.update volume.part p ((volume.part p).setsize nblocks)
    | _ => volume.part := by
  cases call with
  | read offset => rfl
  | setsize nblocks => rfl
  | write offset block =>
    by_cases inside : offset < (volume.part p).nblocks ∧ (volume.part p).delta + offset < volume.below.size
    · rw [exec_written inside]
    · rw [exec_refused inside]

/-- A call is made on partitions that are apart, and a new size leaves them so. -/
def Keeps (volume : Volume) (p : Partition) : Call → Prop
  | .setsize nblocks => Apart volume.below.size ((volume.part p).setsize nblocks) (volume.part p.other)
  | .read _ | .write .. => True

def AllKeep : Volume → List (Partition × Call) → Prop
  | _, [] => True
  | volume, (p, call) :: calls => Keeps volume p call ∧ AllKeep (exec volume p call).1 calls

/-- Whatever call comes next, at the end of the calls or before, it is isolated. -/
def AlwaysIsolated (volume : Volume) (calls : List (Partition × Call)) : Prop :=
  ∀ front, front <+: calls → ∀ p call, Isolated (run volume front) p call

def Volume.Apart (volume : Volume) : Prop := Partdisk.Apart volume.below.size (volume.part .page) (volume.part .file)

theorem Volume.Apart.at (apart : volume.Apart) (p : Partition) :
    Partdisk.Apart volume.below.size (volume.part p) (volume.part p.other) := by
  cases p with
  | page => exact apart
  | file => exact Partdisk.Apart.symm apart

theorem Volume.apart_of (apart : Partdisk.Apart volume.below.size (volume.part p) (volume.part p.other)) :
    volume.Apart := by
  cases p with
  | page => exact apart
  | file => exact Partdisk.Apart.symm apart

theorem exec_apart (apart : volume.Apart) : (exec volume p call).1.Apart ↔ Keeps volume p call := by
  have parts := exec_part volume p call
  have other : p.other ≠ p := by cases p <;> decide
  cases call with
  | read offset => exact iff_of_true apart trivial
  | write offset block =>
    refine iff_of_true ?_ trivial
    unfold Volume.Apart
    rw [exec_size, parts]
    exact apart
  | setsize nblocks =>
    constructor
    · intro kept
      have kept := kept.at p
      rw [exec_size, parts] at kept
      unfold Keeps
      simpa only [Function.update_self, Function.update_of_ne other] using kept
    · intro keeps
      refine @Volume.apart_of _ p ?_
      unfold Keeps at keeps
      rw [exec_size, parts]
      simpa only [Function.update_self, Function.update_of_ne other] using keeps

/-- Where the partitions share a block, a write through one changes what is read through the other. -/
theorem apart_of_isolated (isolated : ∀ p call, Isolated volume p call) : volume.Apart := by
  rintro number inside ⟨left, inLeft, rfl⟩ ⟨right, inRight, same⟩
  have reached : left < (volume.part .page).nblocks ∧ (volume.part .page).delta + left < volume.below.size :=
    ⟨inLeft, inside⟩
  have seen : right < (volume.part .file).nblocks ∧ (volume.part .file).delta + right < volume.below.size :=
    ⟨inRight, same.symm ▸ inside⟩
  have unchanged : ∀ block : Block, block = volume.below.block ((volume.part .page).delta + left).toNat := by
    intro block
    have kept := (isolated .page (.write left block)).unchanged right
    rw [exec_written reached] at kept
    change (volume.part .file).read _ right = (volume.part .file).read _ right at kept
    rw [read_eq, read_eq, if_pos seen, if_pos seen, same] at kept
    simpa using kept
  have conflict : (fun _ => 0 : Block) = fun _ => 1 := (unchanged _).trans (unchanged _).symm
  exact absurd (congrFun conflict 0) (by decide)

theorem alwaysIsolated_iff (apart : volume.Apart) (calls : List (Partition × Call)) :
    AlwaysIsolated volume calls ↔ AllKeep volume calls := by
  induction calls generalizing volume with
  | nil =>
    refine iff_of_true (fun front begins p call => ?_) trivial
    rw [List.prefix_nil.mp begins]
    exact isolated_of_apart (apart.at p) call
  | cons first calls ih =>
    obtain ⟨p, call⟩ := first
    constructor
    · intro always
      have kept : (exec volume p call).1.Apart :=
        apart_of_isolated fun q next => always [(p, call)] (List.prefix_append [(p, call)] calls) q next
      refine ⟨(exec_apart apart).mp kept, (ih kept).mp fun front begins => ?_⟩
      exact always ((p, call) :: front) (List.cons_prefix_cons.mpr ⟨rfl, begins⟩)
    · rintro ⟨keeps, rest⟩ front begins q next
      cases front with
      | nil => exact isolated_of_apart (apart.at q) next
      | cons head front =>
        obtain ⟨rfl, inside⟩ := List.cons_prefix_cons.mp begins
        exact (ih ((exec_apart apart).mpr keeps)).mpr rest front inside q next

/-- Two partitions stay isolated as long as no call resizes one so that it meets the other. -/
theorem partitions_isolated (volume : Volume) (calls : List (Partition × Call)) :
    AlwaysIsolated volume calls ↔ volume.Apart ∧ AllKeep volume calls := by
  constructor
  · intro always
    have apart := apart_of_isolated (always [] (List.nil_prefix))
    exact ⟨apart, (alwaysIsolated_iff apart calls).mp always⟩
  · rintro ⟨apart, keep⟩
    exact (alwaysIsolated_iff apart calls).mpr keep

def blankDisk : Store := { size := DISK_SIZE, block := fun _ => nullBlock, reported := by decide }

theorem blockInit_apart (below : Store) : (blockInit below).Apart :=
  apart_of_ranges (show (0 : BlockNo).toNat + PG_DEV_BLOCKS.toNat ≤ PG_DEV_BLOCKS.toNat by decide)
    (show PG_DEV_BLOCKS.toNat + (DISK_SIZE - PG_DEV_BLOCKS).toNat ≤ 2 ^ 32 by decide)

/-- The disk after a call that makes the paging partition a block larger. -/
def resized : Volume := run (blockInit blankDisk) [(.page, .setsize (PG_DEV_BLOCKS + 1))]

/-- A write of a page now changes the first block of the file system. -/
theorem resize_exposes : ¬Isolated resized .page (.write PG_DEV_BLOCKS fun _ => 1) := by
  intro isolated
  have inside : PG_DEV_BLOCKS < (resized.part .page).nblocks ∧
      (resized.part .page).delta + PG_DEV_BLOCKS < resized.below.size := by
    decide
  have seen : 0 < (resized.part .file).nblocks ∧ (resized.part .file).delta + 0 < resized.below.size := by decide
  have kept := isolated.unchanged 0
  rw [exec_written inside] at kept
  change (resized.part .file).read _ 0 = (resized.part .file).read _ 0 at kept
  rw [read_eq, read_eq, if_pos seen, if_pos seen] at kept
  exact absurd (congrFun (Option.some.inj kept) 0) (by decide)

end Egos.Partdisk
