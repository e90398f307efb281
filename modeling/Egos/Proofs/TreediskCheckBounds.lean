import Egos.Library.Verdict
import Egos.Proofs.TreediskPasses

/-! The integrity check on any image: it ends, and it leaves the array of block infos on
exactly the images whose number of inode blocks wraps the test for their room. -/

namespace Egos.Treedisk
open Library

variable {z : BlockSize}

/-- The loops have ended, all indices were inside of the array, and all blocks were read. -/
def Complaint.Fair (complaint : Complaint) : Prop :=
  complaint ≠ .outOfBounds ∧ complaint ≠ .diverges ∧ complaint ≠ .uninitialized

theorem Complaint.fair_tree {node fsNblocks offset : BlockNo} :
    Complaint.Fair (.offStorage node fsNblocks offset) ∧ Complaint.Fair .alreadyUsed := by
  simp [Fair]

theorem Complaint.fair_list : Complaint.Fair .freeBlockTooLarge ∧ Complaint.Fair .freeBlockInUse := by
  simp [Fair]

/-- No block is forgotten again. -/
def Grows (before after : Info) : Prop := ∀ b, before b ≠ .unknown → after b ≠ .unknown

namespace Grows
variable {before middle after : Info}

theorem refl : Grows before before := fun _ known => known

theorem trans (first : Grows before middle) (second : Grows middle after) :
    Grows before after := fun b known => second b (first b known)

theorem update {b : BlockNo} {status : Status} (known : status ≠ .unknown) :
    Grows before (Function.update before b status) := by
  intro c old
  by_cases same : c = b
  · rw [same, Function.update_self]
    exact known
  · rw [Function.update_of_ne same]
    exact old

end Grows

section Walk
variable {image : Image z} {nblocks : BlockNo}

/-- The rest of a step that may mark a block of the store. -/
theorem yields_mark {α : Type} {wanted : α → Prop} {fsNblocks b : BlockNo} {info : Info} {status : Status}
    {next : Info → Check α}
    (inside : b < fsNblocks) (rest : Yields Complaint.Fair wanted (next (Function.update info b status))) :
    Yields Complaint.Fair wanted (mark fsNblocks info b status >>= next) := by
  rw [mark_inside info status inside]
  exact rest

theorem yields_lookup {α : Type} {wanted : α → Prop} {fsNblocks b : BlockNo} {info : Info} {next : Status → Check α}
    (inside : b < fsNblocks) (rest : Yields Complaint.Fair wanted (next (info b))) :
    Yields Complaint.Fair wanted (lookup fsNblocks info b >>= next) := by
  rw [lookup_inside info inside]
  exact rest

theorem yields_read {α : Type} {wanted : α → Prop} {b : BlockNo} {next : Block z → Check α}
    (inside : b < image.size) (rest : Yields Complaint.Fair wanted (next (image.block b))) :
    Yields Complaint.Fair wanted (checkRead image b >>= next) := by
  rw [checkRead_inside inside]
  exact rest

theorem checkRefs_grows {check : BlockNo → BlockNo → Info → Check Info} {size : BlockNo} {ib : Block z}
    (checks : ∀ node offset info, Yields Complaint.Fair (Grows info) (check node offset info))
    (is : List (Fin z.refs)) (offset : BlockNo)
    (info : Info) : Yields Complaint.Fair (Grows info) (checkRefs check nblocks size ib is offset info) := by
  induction is generalizing offset info with
  | nil => exact Grows.refl
  | cons i rest ih =>
    unfold checkRefs
    refine (checks (ib i) offset info).bind fun middle grown => ?_
    dsimp only
    by_cases past : offset + size ≥ nblocks
    · rw [if_pos past]
      exact grown
    · rw [if_neg past]
      exact (ih (offset + size) middle).weaken fun after more => grown.trans more

/-- The tests before a block of a tree or of the free list is marked. -/
theorem yields_visit {wanted : Info → Prop} {node fsNblocks : BlockNo} {info : Info} {outside taken : Complaint}
    {rest : Check Info}
    (fairs : outside.Fair ∧ taken.Fair) (null : node = 0 → wanted info)
    (fresh : node ≠ 0 → node < fsNblocks → info node = .unknown → Yields Complaint.Fair wanted rest) :
    Yields Complaint.Fair wanted (if node = 0 then .ok info else if node ≥ fsNblocks then .error outside else do
      let status ← lookup fsNblocks info node
      if status ≠ .unknown then .error taken else rest) := by
  by_cases zero : node = 0
  · rw [if_pos zero]
    exact null zero
  rw [if_neg zero]
  by_cases off : node ≥ fsNblocks
  · rw [if_pos off]
    exact fairs.1
  rw [if_neg off]
  have inside := UInt32.not_le.mp off
  apply yields_lookup inside
  by_cases used : info node ≠ .unknown
  · rw [if_pos used]
    exact fairs.2
  rw [if_neg used]
  exact fresh zero inside (not_not.mp used)

theorem checkInode_grows (h : Nat) (node offset : BlockNo) (info : Info) :
    Yields Complaint.Fair (Grows info) (checkInode image nblocks image.size h node offset info) := by
  induction h generalizing node offset info with
  | zero =>
    unfold checkInode
    refine yields_visit Complaint.fair_tree (fun _ => Grows.refl) fun _ inside _ => ?_
    rw [mark_inside info .data inside]
    exact Grows.update (by decide)
  | succ h ih =>
    unfold checkInode
    refine yields_visit Complaint.fair_tree (fun _ => Grows.refl) fun _ inside _ => ?_
    apply yields_mark inside
    apply yields_read inside
    exact (checkRefs_grows ih _ _ _).weaken fun after more => Grows.trans (Grows.update (by decide)) more

end Walk

theorem markInodes_grows {fsNblocks : BlockNo} {left : Nat} {b : BlockNo}
    (room : b.toNat + left ≤ fsNblocks.toNat) (info : Info) :
    Yields Complaint.Fair (fun after => Grows info after ∧ ∀ c, b ≤ c → c.toNat < b.toNat + left → after c ≠ .unknown)
      (markInodes fsNblocks left b info) := by
  induction left generalizing b info with
  | zero =>
    refine ⟨Grows.refl, fun c low high => ?_⟩
    exact absurd (UInt32.le_iff_toNat_le.mp low) (Nat.not_le.mpr high)
  | succ left ih =>
    have inside : b < fsNblocks := by
      rw [UInt32.lt_iff_toNat_lt]
      omega
    have next := succ_toNat inside
    unfold markInodes
    apply yields_mark inside
    refine (ih (by omega) _).weaken fun after kept =>
      ⟨Grows.trans (Grows.update (by decide)) kept.1, fun c low high => ?_⟩
    obtain ⟨grown, later⟩ := kept
    by_cases same : c = b
    · apply grown c
      rw [same, Function.update_self]
      decide
    · have apart : c.toNat ≠ b.toNat := fun equal => same (UInt32.toNat_inj.mp equal)
      rw [UInt32.le_iff_toNat_le] at low
      exact later c (by rw [UInt32.le_iff_toNat_le]; omega) (by omega)

/-- The array is left when there are more inode blocks than blocks. -/
theorem markInodes_leaves {fsNblocks : BlockNo} {left : Nat} {b : BlockNo} (low : b ≤ fsNblocks)
    (high : fsNblocks.toNat < b.toNat + left)
    (info : Info) : markInodes fsNblocks left b info = .error .outOfBounds := by
  rw [UInt32.le_iff_toNat_le] at low
  induction left generalizing b info with
  | zero => omega
  | succ left ih =>
    unfold markInodes mark
    by_cases inside : b < fsNblocks
    · have next := succ_toNat inside
      rw [if_pos inside]
      rw [UInt32.lt_iff_toNat_lt] at inside
      exact ih (by omega) (by omega) _
    · rw [if_neg inside]
      rfl

section Image
variable {image : Image z}

theorem scanInode_grows (tib : Block z) (info : Info) (i : Nat) :
    Yields Complaint.Fair (Grows info) (scanInode image tib info i) := by
  unfold scanInode
  dsimp only
  by_cases some : ref tib (2 * i + 1) ≠ 0
  · rw [if_pos some]
    exact checkInode_grows ..
  · rw [if_neg some]
    exact Grows.refl

theorem scanInodes_grows {left : Nat} {b : BlockNo} (room : b.toNat + left ≤ image.size.toNat) (info : Info) :
    Yields Complaint.Fair (Grows info) (scanInodes image left b info) := by
  induction left generalizing b info with
  | zero => exact Grows.refl
  | succ left ih =>
    have inside : b < image.size := by
      rw [UInt32.lt_iff_toNat_lt]
      omega
    have next := succ_toNat inside
    unfold scanInodes
    apply yields_read inside
    rw [List.range_eq_range']
    have round : Yields Complaint.Fair (Grows info)
        ((List.range' 0 z.inodes).foldlM (scanInode image (image.block b)) info) :=
      @Yields.range _ _ _ _ (fun _ => Grows info) 0 z.inodes
        (fun i state _ _ grown => (scanInode_grows _ state i).weaken fun after more => grown.trans more) info Grows.refl
    exact round.bind fun middle grown => (ih (by omega) middle).weaken fun after more => grown.trans more

theorem scanSlot_grows (fl : BlockNo) (tfb : Block z) (info : Info) (i : Nat) :
    Yields Complaint.Fair (Grows info) (scanSlot image.size fl tfb info i) := by
  unfold scanSlot
  dsimp only
  by_cases null : ref tfb i = 0
  · rw [if_pos null]
    exact Grows.refl
  rw [if_neg null]
  by_cases off : ref tfb i ≥ image.size
  · rw [if_pos off]
    exact Grows.refl
  rw [if_neg off]
  have inside := UInt32.not_le.mp off
  apply yields_lookup inside
  by_cases used : info (ref tfb i) ≠ .unknown
  · rw [if_pos used]
    exact ⟨nofun, nofun, nofun⟩
  rw [if_neg used, mark_inside info .free inside]
  exact Grows.update (by decide)

theorem scanSlots_grows (fl : BlockNo) (tfb : Block z) (info : Info) :
    Yields Complaint.Fair (Grows info) ((List.range' 1 (z.refs - 1)).foldlM (scanSlot image.size fl tfb) info) :=
  @Yields.range _ _ _ _ (fun _ => Grows info) 1 (z.refs - 1)
    (fun i state _ _ grown => (scanSlot_grows fl _ state i).weaken fun _ more => grown.trans more) info Grows.refl

def unknowns (size : BlockNo) (info : Info) : Finset Nat :=
  (Finset.range size.toNat).filter fun k => info (UInt32.ofNat k) = .unknown

theorem unknowns_less {size b : BlockNo} {info after : Info} (inside : b < size) (fresh : info b = .unknown)
    (known : after b ≠ .unknown)
    (grown : Grows info after) : (unknowns size after).card < (unknowns size info).card := by
  have number : UInt32.ofNat b.toNat = b := UInt32.ofNat_toNat
  apply Finset.card_lt_card
  rw [Finset.ssubset_iff_of_subset]
  · refine ⟨b.toNat, Finset.mem_filter.mpr ⟨Finset.mem_range.mpr (UInt32.lt_iff_toNat_lt.mp inside), ?_⟩,
      fun member => ?_⟩
    · rw [number]
      exact fresh
    · have unknown := (Finset.mem_filter.mp member).2
      rw [number] at unknown
      exact known unknown
  · intro k member
    obtain ⟨below, unknown⟩ := Finset.mem_filter.mp member
    refine Finset.mem_filter.mpr ⟨below, ?_⟩
    by_contra old
    exact grown _ old unknown

/-- Each round finds a block that was not known, so the walk over the free list ends. -/
theorem scanFree_grows {rounds : Nat} (fl : BlockNo) {info : Info} (enough : (unknowns image.size info).card < rounds) :
    Yields Complaint.Fair (Grows info) (scanFree image rounds fl info) := by
  induction rounds generalizing fl info with
  | zero => exact absurd enough (Nat.not_lt_zero _)
  | succ rounds ih =>
    unfold scanFree
    refine yields_visit Complaint.fair_list (fun _ => Grows.refl) fun _ inside fresh => ?_
    apply yields_mark inside
    apply yields_read inside
    have marked : Grows info (Function.update info fl .freelist) := Grows.update (by decide)
    refine (scanSlots_grows fl (image.block fl) _).bind fun middle grown => ?_
    have known : middle fl ≠ .unknown := by
      apply grown fl
      rw [Function.update_self]
      decide
    have less := unknowns_less inside fresh known (marked.trans grown)
    exact (ih _ (Nat.lt_of_lt_of_le less (Nat.le_of_lt_succ enough))).weaken
      fun after more => (marked.trans grown).trans more

theorem findLeak_ends {size : BlockNo} {left : Nat} {b : BlockNo} (room : b.toNat + left ≤ size.toNat) (info : Info) :
    Yields Complaint.Fair (fun _ => True) (findLeak size info left b) := by
  induction left generalizing b with
  | zero => trivial
  | succ left ih =>
    have inside : b < size := by
      rw [UInt32.lt_iff_toNat_lt]
      omega
    have next := succ_toNat inside
    unfold findLeak
    apply yields_lookup inside
    by_cases unknown : info b = .unknown
    · rw [if_pos unknown]
      trivial
    · rw [if_neg unknown]
      exact ih (by omega)

theorem unknowns_card (size : BlockNo) (info : Info) : (unknowns size info).card ≤ size.toNat := by
  have le := Finset.card_filter_le (Finset.range size.toNat) fun k => info (UInt32.ofNat k) = .unknown
  rwa [Finset.card_range] at le

/-- The test for the room of the inode blocks, when the sum does not wrap. -/
theorem unwrapped_room {n size : BlockNo} (small : n ≠ 0xFFFFFFFF) (room : ¬ 1 + n > size) :
    1 + n.toNat ≤ size.toNat := by
  have apart : n.toNat ≠ (0xFFFFFFFF : BlockNo).toNat := fun same => small (UInt32.toNat_inj.mp same)
  have word := n.toNat_lt
  have le := UInt32.le_iff_toNat_le.mp (UInt32.not_lt.mp room)
  rw [UInt32.toNat_add, UInt32.toNat_one] at le
  change n.toNat ≠ 4294967295 at apart
  omega

/-- The four passes of the check, on a super block that it accepts. -/
theorem check_yields {scans : Info → Prop} {lists : Prop} (nonempty : 1 ≤ image.size)
    (small : nInodeblocks (image.block 0) ≠ 0xFFFFFFFF ∨ image.size ≤ freeList (image.block 0))
    (third : ∀ info, (∀ c, c ≤ nInodeblocks (image.block 0) → info c ≠ .unknown) →
    (nInodeblocks (image.block 0)).toNat < image.size.toNat →
      Yields Complaint.Fair scans (scanInodes image (nInodeblocks (image.block 0)).toNat 1 info))
    (fourth : ∀ info, scans info → Yields Complaint.Fair
    (fun _ => lists) (scanFree image (image.size.toNat + 1) (freeList (image.block 0)) info)) :
    Yields Complaint.Fair (fun _ => lists) image.treediskCheck := by
  have inside : (0 : BlockNo) < image.size := UInt32.lt_of_lt_of_le (by decide) nonempty
  unfold Image.treediskCheck
  rw [if_neg (UInt32.pos_iff_ne_zero.mp inside)]
  apply yields_read inside
  dsimp only
  by_cases crowded : 1 + nInodeblocks (image.block 0) > image.size
  · rw [if_pos crowded]
    exact ⟨nofun, nofun, nofun⟩
  rw [if_neg crowded]
  by_cases large : freeList (image.block 0) ≥ image.size
  · rw [if_pos large]
    exact ⟨nofun, nofun, nofun⟩
  rw [if_neg large]
  have room := unwrapped_room (small.resolve_right large) crowded
  apply yields_mark inside
  refine (markInodes_grows room _).bind fun inodes ⟨grown, marked⟩ => ?_
  have known : ∀ c, c ≤ nInodeblocks (image.block 0) → inodes c ≠ .unknown := by
    intro c le
    by_cases zero : c = 0
    · apply grown c
      rw [zero, Function.update_self]
      decide
    · have positive := UInt32.lt_iff_toNat_lt.mp (UInt32.pos_iff_ne_zero.mpr zero)
      rw [UInt32.le_iff_toNat_le] at le
      exact marked c (UInt32.le_iff_toNat_le.mpr positive) (by rw [UInt32.toNat_one]; omega)
  refine (third inodes known (by omega)).bind fun scanned held => ?_
  refine (fourth scanned held).bind fun final listed => ?_
  exact (findLeak_ends (Nat.le_of_eq (Nat.zero_add _)) final).weaken fun _ _ => listed

theorem check_leaves (nonempty : 1 ≤ image.size) (wrapped : nInodeblocks (image.block 0) = 0xFFFFFFFF)
    (inside : freeList (image.block 0) < image.size) : image.treediskCheck = .error .outOfBounds := by
  have first : (0 : BlockNo) < image.size := UInt32.lt_of_lt_of_le (by decide) nonempty
  have word := image.size.toNat_lt
  have leaves := @markInodes_leaves image.size (0xFFFFFFFF : BlockNo).toNat 1 nonempty
    (by change image.size.toNat < 1 + 4294967295; omega) (Function.update (fun _ => .unknown) 0 .super)
  unfold Image.treediskCheck
  dsimp only [bind, Except.bind]
  rw [if_neg (UInt32.pos_iff_ne_zero.mp first), checkRead_inside first]
  dsimp only
  rw [wrapped, show (1 : BlockNo) + 0xFFFFFFFF = 0 from rfl, if_neg (UInt32.not_lt.mpr (UInt32.le_of_lt first)),
    if_neg (UInt32.not_le.mpr inside),
    mark_inside _ _ first]
  dsimp only
  rw [leaves]

/-- The check ends, and its indices are below the number of block infos. -/
def Image.Contained (image : Image z) : Prop :=
  image.treediskCheck ≠ .error .diverges ∧ image.treediskCheck ≠ .error .outOfBounds

/-- The loop that counts levels ends for all sizes. The check stays inside of its array unless the number
of inode blocks is so large that the room for them and the super block wraps. -/
theorem check_contained_iff (image : Image z) (nonempty : 1 ≤ image.size) :
    (∀ last, logShiftR last (levelsFor z last * z.logRpb) = 0) ∧
    (image.Contained ↔ nInodeblocks (image.block 0) ≠ 0xFFFFFFFF ∨ image.size ≤ freeList (image.block 0)) := by
  refine ⟨fun last => ?_, fun contained => ?_, fun small => ?_⟩
  · apply UInt32.toNat_inj.mp
    rw [logShiftR_toNat]
    exact Nat.div_eq_of_lt (levelsFor_spec z last).1
  · by_contra wrapped
    rw [not_or, not_not] at wrapped
    exact contained.2 (check_leaves nonempty wrapped.1 (UInt32.not_le.mp wrapped.2))
  · have fair := @check_yields _ _ (fun _ => True) True nonempty small
      (fun info _ room => (scanInodes_grows (by rw [UInt32.toNat_one]; omega) info).weaken fun _ _ => trivial)
      (fun info _ => (scanFree_grows _ (Nat.lt_succ_of_le (unknowns_card ..))).weaken fun _ _ => trivial)
    exact ⟨fun failed => (fair.reason failed).2.1 rfl, fun failed => (fair.reason failed).1 rfl⟩

/-- A file of two blocks under an indirect block, and a free list of one block with one slot. -/
def filledImage : Image .small where
  size := 7
  block b :=
    if b = 0 then setRef (setRef nullBlock 0 1) 1 5
    else if b = 1 then setRef (setRef nullBlock 0 2) 1 2
    else if b = 2 then setRef (setRef nullBlock 0 3) 1 4
    else if b = 5 then setRef nullBlock 1 6
    else nullBlock

theorem check_contained_filled : filledImage.treediskCheck = .ok none ∧ filledImage.Contained :=
  ⟨by decide +kernel, (check_contained_iff filledImage (by decide)).2.mpr (.inl (by decide))⟩

/-- The super block of two blocks has the largest number of inode blocks. -/
def wrappingImage : Image .small :=
  { size := 2, block := fun b => if b = 0 then setRef nullBlock 0 0xFFFFFFFF else nullBlock }

theorem check_overruns : 1 ≤ wrappingImage.size ∧ ¬ wrappingImage.Contained := by
  refine ⟨by decide, fun contained => contained.2 ?_⟩
  exact check_leaves (by decide) (by decide) (by decide)

end Image

end Egos.Treedisk
