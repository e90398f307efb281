import Egos.Proofs.TreediskCheckBounds

/-! Images that the integrity check accepts: their free list leads to different unused blocks,
unless a slot of it points outside of the store. Such slots are passed over. -/

namespace Egos.Treedisk
open Library Library.RefTree

variable {z : BlockSize}

section Trees
variable {image : Image z} {nblocks : BlockNo}

/-- The blocks on the way to the offsets below a node are known, up to the end of the file. -/
def Covered (image : Image z) (nblocks : BlockNo) (h : Nat) (node : BlockNo) (base : Nat) (info : Info) : Prop :=
  ∀ offset, base ≤ offset → offset < base + z.refs ^ h → offset < nblocks.toNat →
    ∀ b ∈ trail image.block h node offset, info b ≠ .unknown

theorem Covered.grows {h base : Nat} {node : BlockNo} {info after : Info}
    (covered : Covered image nblocks h node base info)
    (grown : Grows info after) : Covered image nblocks h node base after :=
  fun offset low high inside b member => grown b (covered offset low high inside b member)

/-- The loop over the references from a position on. -/
private theorem checkRefs_covers {h base : Nat} {check : BlockNo → BlockNo → Info → Check Info} {ib : Block z}
    (aligned : z.refs ^ h ∣ base)
    (small : z.refs ^ h < 2 ^ 32) (grows : ∀ node offset info,
    Yields Complaint.Fair (Grows info) (check node offset info))
    (checks : ∀ node offset info, z.refs ^ h ∣ offset.toNat →
    Yields Complaint.Fair (Covered image nblocks h node offset.toNat) (check node offset info))
    (is : List (Fin z.refs)) {position : Nat} (listed : is.map Fin.val = List.range' position is.length)
    {offset : BlockNo}
    (at_ : offset.toNat = base + position * z.refs ^ h) (info : Info) :
    Yields Complaint.Fair (fun after => ∀ i ∈ is, Covered image nblocks h (ib i) (base + i.val * z.refs ^ h) after)
      (checkRefs check nblocks (1 <<< UInt32.ofNat (h * z.logRpb)) ib is offset info) := by
  induction is generalizing position offset info with
  | nil => exact fun i member => absurd member List.not_mem_nil
  | cons i rest ih =>
    rw [List.map_cons, List.length_cons, List.range'_succ] at listed
    obtain ⟨here, later⟩ := List.cons.inj listed
    have place : z.refs ^ h ∣ offset.toNat := at_ ▸ Nat.dvd_add aligned (Nat.dvd_mul_left ..)
    unfold checkRefs
    refine (checks (ib i) offset info place).bind fun middle covered => ?_
    rw [at_, ← here] at covered
    dsimp only
    by_cases inside : base + (position + 1) * z.refs ^ h < nblocks.toNat
    · have word := nblocks.toNat_lt
      have next : (offset + (1 : BlockNo) <<< UInt32.ofNat (h * z.logRpb)).toNat =
          base + (position + 1) * z.refs ^ h := by
        rw [UInt32.toNat_add, size_toNat small, at_, Nat.succ_mul, Nat.add_assoc]
        apply Nat.mod_eq_of_lt
        rw [Nat.succ_mul] at inside
        omega
      have below : ¬ offset + (1 : BlockNo) <<< UInt32.ofNat (h * z.logRpb) ≥ nblocks := by
        rw [ge_iff_le, UInt32.le_iff_toNat_le, next]
        exact Nat.not_le.mpr inside
      rw [if_neg below]
      refine ((ih later next middle).both (checkRefs_grows grows rest _ middle)).weaken fun after kept j member => ?_
      obtain ⟨others, grown⟩ := kept
      rcases List.mem_cons.mp member with rfl | among
      · exact covered.grows grown
      · exact others j among
    · -- the file ends here, so the other references lead to no offset of it
      have others : ∀ after, Grows middle after →
          ∀ j ∈ i :: rest, Covered image nblocks h (ib j) (base + j.val * z.refs ^ h) after := by
        intro after grown j member
        rcases List.mem_cons.mp member with rfl | among
        · exact covered.grows grown
        · intro offset low _ below
          have high : position + 1 ≤ j.val := by
            have value : j.val ∈ List.range' (position + 1) rest.length := later ▸ List.mem_map_of_mem among
            exact (List.mem_range'_1.mp value).1
          have further := Nat.mul_le_mul_right (z.refs ^ h) high
          omega
      by_cases past : offset + (1 : BlockNo) <<< UInt32.ofNat (h * z.logRpb) ≥ nblocks
      · rw [if_pos past]
        exact others middle Grows.refl
      · rw [if_neg past]
        exact (checkRefs_grows grows rest _ middle).weaken others

theorem checkInode_covers {h : Nat} (small : ∀ l, l < h → z.refs ^ l < 2 ^ 32) (node offset : BlockNo) (info : Info)
    (aligned : z.refs ^ h ∣ offset.toNat) :
    Yields Complaint.Fair (Covered image nblocks h node offset.toNat)
        (checkInode image nblocks image.size h node offset info) := by
  induction h generalizing node offset info with
  | zero =>
    unfold checkInode
    refine yields_visit Complaint.fair_tree (fun null o _ _ _ b member => ?_) fun some inside _ => ?_
    · rw [null, trail_null] at member
      cases member
    · rw [mark_inside info .data inside]
      intro o _ _ _ b member
      rw [trail_leaf some, List.mem_singleton] at member
      rw [member, Function.update_self]
      decide
  | succ h ih =>
    unfold checkInode
    refine yields_visit Complaint.fair_tree (fun null o _ _ _ b member => ?_) fun some inside _ => ?_
    · rw [null, trail_null] at member
      cases member
    apply yields_mark inside
    apply yields_read inside
    have listed : (List.finRange z.refs).map Fin.val = List.range' 0 (List.finRange z.refs).length := by
      rw [List.map_coe_finRange_eq_range, List.length_finRange, List.range_eq_range']
    have children := @checkRefs_covers z image nblocks h offset.toNat (checkInode image nblocks image.size h)
      (image.block node)
      ((Nat.pow_dvd_pow _ (Nat.le_succ h)).trans aligned) (small h (Nat.lt_succ_self h)) (checkInode_grows h)
      (ih fun l less => small l (Nat.lt_succ_of_lt less)) (List.finRange z.refs) 0 listed offset
        (by rw [Nat.zero_mul, Nat.add_zero])
      (Function.update info node .indir)
    have grown := @checkRefs_grows z nblocks (checkInode image nblocks image.size h)
      (1 <<< UInt32.ofNat (h * z.logRpb)) (image.block node)
      (checkInode_grows h) (List.finRange z.refs) offset (Function.update info node .indir)
    refine (children.both grown).weaken fun after kept o low high below b member => ?_
    obtain ⟨covered, grown⟩ := kept
    rw [trail_node some] at member
    rcases List.mem_cons.mp member with rfl | under
    · apply grown b
      rw [Function.update_self]
      decide
    · obtain ⟨first, last⟩ := digit_place aligned low high
      refine covered (digit z.refs h o) (List.mem_finRange _) o first ?_ below b under
      rw [Nat.add_assoc, ← Nat.succ_mul]
      exact last

end Trees

section Inodes
variable {image : Image z}

def Seen (image : Image z) (tib : Block z) (i : Nat) (info : Info) : Prop :=
  ∀ offset, offset < (ref tib (2 * i + 1)).toNat →
    ∀ b ∈ trail image.block (levelsOf z (ref tib (2 * i + 1))) (ref tib (2 * i)) offset, info b ≠ .unknown

theorem Seen.grows {tib : Block z} {i : Nat} {info after : Info} (seen : Seen image tib i info)
    (grown : Grows info after) :
    Seen image tib i after := fun offset inside b member => grown b (seen offset inside b member)

private theorem scanInode_sees (tib : Block z) (info : Info) (i : Nat) :
    Yields Complaint.Fair (Seen image tib i) (scanInode image tib info i) := by
  unfold scanInode Seen
  generalize ref tib (2 * i + 1) = nblocks
  dsimp only
  by_cases some : nblocks = 0
  · rw [if_neg (not_not_intro some), some]
    exact fun offset below => absurd below (Nat.not_lt_zero offset)
  · rw [if_pos some]
    have positive : nblocks > 0 := UInt32.pos_iff_ne_zero.mpr some
    obtain ⟨enough, needed⟩ := levelsFor_spec z (nblocks - 1)
    have last := last_toNat positive
    have levels : levelsOf z nblocks = levelsFor z (nblocks - 1) := if_pos positive
    have covers := @checkInode_covers z image nblocks (levelsFor z (nblocks - 1))
      (fun l less => Nat.lt_of_le_of_lt (needed l less) (UInt32.toNat_lt _)) (ref tib (2 * i)) 0 info (Nat.dvd_zero _)
    refine covers.weaken fun after covered offset inside => ?_
    rw [levels]
    exact covered offset (Nat.zero_le _) (by rw [UInt32.toNat_zero]; omega) inside

theorem scanInodes_sees {left : Nat} {b : BlockNo} (room : b.toNat + left ≤ image.size.toNat) (info : Info) :
    Yields Complaint.Fair (fun after => ∀ c : BlockNo, b.toNat ≤ c.toNat → c.toNat < b.toNat + left →
      ∀ i, i < z.inodes → Seen image (image.block c) i after)
      (scanInodes image left b info) := by
  induction left generalizing b info with
  | zero => exact fun c low high => absurd low (Nat.not_le.mpr high)
  | succ left ih =>
    have inside : b < image.size := by
      rw [UInt32.lt_iff_toNat_lt]
      omega
    have next := succ_toNat inside
    unfold scanInodes
    apply yields_read inside
    rw [List.range_eq_range']
    have round : Yields Complaint.Fair (fun after => ∀ i, i < 0 + z.inodes → Seen image (image.block b) i after)
        ((List.range' 0 z.inodes).foldlM (scanInode image (image.block b)) info) := by
      refine @Yields.range _ _ _ _ (fun count state => ∀ i, i < count →
        Seen image (image.block b) i state) 0 z.inodes ?_ info
        fun i below => absurd below (Nat.not_lt_zero i)
      intro i state _ _ seen
      refine ((scanInode_sees _ state i).both (scanInode_grows _ state i)).weaken fun after kept j below => ?_
      obtain ⟨here, grown⟩ := kept
      rcases Nat.lt_succ_iff_lt_or_eq.mp below with before | rfl
      · exact (seen j before).grows grown
      · exact here
    refine round.bind fun middle seen => ?_
    have rest := (ih (b := b + 1) (by omega) middle).both (scanInodes_grows (by omega) middle)
    refine rest.weaken fun after kept c low high i place => ?_
    obtain ⟨others, grown⟩ := kept
    by_cases same : c.toNat = b.toNat
    · rw [UInt32.toNat_inj.mp same]
      exact (seen i (by omega)).grows grown
    · exact others c (by omega) (by omega) i place

end Inodes

/-- Different blocks of the store that were not known are marked, and no others. -/
structure Claimed (size : BlockNo) (before : Info) (blocks : Multiset BlockNo) (after : Info) : Prop where
  marked : Marked before blocks after
  distinct : blocks.Nodup
  fresh : ∀ b ∈ blocks, before b = .unknown
  inside : ∀ b ∈ blocks, b < size

namespace Claimed
variable {size : BlockNo} {before middle after : Info} {first second : Multiset BlockNo}

theorem none : Claimed size before 0 before :=
  ⟨Marked.none, Multiset.nodup_zero, fun b member => absurd member (Multiset.notMem_zero b),
    fun b member => absurd member (Multiset.notMem_zero b)⟩

theorem single {b : BlockNo} {status : Status} (known : status ≠ .unknown) (fresh : before b = .unknown)
    (inside : b < size) :
    Claimed size before {b} (Function.update before b status) :=
  ⟨Marked.single known, Multiset.nodup_singleton b, fun _ member => Multiset.mem_singleton.mp member ▸ fresh,
    fun _ member => Multiset.mem_singleton.mp member ▸ inside⟩

theorem trans (left : Claimed size before first middle) (right : Claimed size middle second after) :
    Claimed size before (first + second) after := by
  have earlier : ∀ b ∈ second, before b = .unknown ∧
    b ∉ first := fun b member => (left.marked b).mp (right.fresh b member)
  refine ⟨left.marked.trans right.marked, ?_, fun b member => ?_, fun b member => ?_⟩
  · refine Multiset.nodup_add.mpr ⟨left.distinct, right.distinct, Multiset.disjoint_left.mpr fun mine other => ?_⟩
    exact (earlier _ other).2 mine
  · exact (Multiset.mem_add.mp member).elim (left.fresh b) fun other => (earlier b other).1
  · exact (Multiset.mem_add.mp member).elim (left.inside b) (right.inside b)

end Claimed

section FreeList
variable {image : Image z}

/-- The slots of a free list block, when all of them are inside of the store. -/
private theorem scanSlot_claims {fl : BlockNo} {tfb : Block z} {info start : Info}
    (inside : ∀ slot ∈ slots tfb, slot < image.size) {i : Nat}
    (low : 1 ≤ i) (high : i < z.refs) (claimed : Claimed image.size start (slots (upTo tfb i)) info) :
    Yields Complaint.Fair (Claimed image.size start (slots (upTo tfb (i + 1))))
        (scanSlot image.size fl tfb info i) := by
  have position : (⟨i, high⟩ : Fin z.refs) ≠ 0 := fun zero => Nat.ne_of_gt low (congrArg Fin.val zero)
  have empty : upTo tfb i ⟨i, high⟩ = 0 := if_neg (Nat.lt_irrefl i)
  have grows := upTo_succ tfb high
  unfold scanSlot
  rw [ref_eq _ high]
  dsimp only
  by_cases null : tfb ⟨i, high⟩ = 0
  · rw [null, ← empty, Function.update_eq_self] at grows
    rw [if_pos null, grows]
    exact claimed
  · have slot := slots_put position empty null
    rw [← grows] at slot
    have le := slots_upTo_le tfb (i + 1)
    rw [slot] at le
    have below := inside _ (Multiset.mem_of_le le (Multiset.mem_cons_self ..))
    rw [if_neg null, if_neg (UInt32.not_le.mpr below), slot, ← Multiset.singleton_add, add_comm]
    apply yields_lookup below
    by_cases used : info (tfb ⟨i, high⟩) ≠ .unknown
    · rw [if_pos used]
      exact ⟨nofun, nofun, nofun⟩
    rw [if_neg used, mark_inside info .free below]
    exact claimed.trans (Claimed.single (by decide) (not_not.mp used) below)

theorem scanFree_claims {rounds : Nat} (fl : BlockNo) {info : Info}
    (enough : (unknowns image.size info).card < rounds) :
    Yields Complaint.Fair (fun after => ∃ nodes, Chain image.block fl nodes ∧
      ((∀ node ∈ nodes, ∀ slot ∈ slots (image.block node), slot < image.size) →
        Claimed image.size info (freeCells image.block nodes) after))
      (scanFree image rounds fl info) := by
  induction rounds generalizing fl info with
  | zero => exact absurd enough (Nat.not_lt_zero _)
  | succ rounds ih =>
    unfold scanFree
    refine yields_visit Complaint.fair_list (fun null => ⟨[], null, fun _ => Claimed.none⟩) fun some inside fresh => ?_
    apply yields_mark inside
    apply yields_read inside
    have large := refs_large z
    have node : Claimed image.size info {fl} (Function.update info fl .freelist) :=
      Claimed.single (by decide) fresh inside
    have none : Claimed image.size (Function.update info fl .freelist) (slots (upTo (image.block fl) 1))
        (Function.update info fl .freelist) := by
      rw [slots_upTo_one]
      exact Claimed.none
    have filled : Yields Complaint.Fair (fun middle => (∀ slot ∈ slots (image.block fl), slot < image.size) →
        Claimed image.size (Function.update info fl .freelist)
          (slots (upTo (image.block fl) (1 + (z.refs - 1)))) middle)
        ((List.range' 1 (z.refs - 1)).foldlM (scanSlot image.size fl (image.block fl))
            (Function.update info fl .freelist)) := by
      refine @Yields.range _ _ _ _ (fun i state => (∀ slot ∈ slots (image.block fl), slot < image.size) →
        Claimed image.size (Function.update info fl .freelist) (slots (upTo (image.block fl) i)) state) 1
          (z.refs - 1) ?_ _ fun _ => none
      intro i state low high held
      by_cases all : ∀ slot ∈ slots (image.block fl), slot < image.size
      · exact (scanSlot_claims all low (by omega) (held all)).weaken fun after claimed _ => claimed
      · exact (scanSlot_grows fl _ state i).weaken fun after _ stray => absurd stray all
    refine (filled.both (scanSlots_grows fl (image.block fl) _)).bind fun middle kept => ?_
    obtain ⟨claims, grown⟩ := kept
    rw [show 1 + (z.refs - 1) = z.refs by omega, upTo_all] at claims
    have known : middle fl ≠ .unknown := by
      apply grown fl
      rw [Function.update_self]
      decide
    have less := unknowns_less inside fresh known (Grows.trans (Grows.update (by decide)) grown)
    refine (ih _ (Nat.lt_of_lt_of_le less (Nat.le_of_lt_succ enough))).weaken fun after leads => ?_
    obtain ⟨rest, chain, later⟩ := leads
    rw [ref_eq _ (Nat.lt_of_succ_lt large)] at chain
    refine ⟨fl :: rest, ⟨rfl, some, chain⟩, fun all => ?_⟩
    rw [freeCells_cons, ← Multiset.singleton_add, add_assoc]
    exact node.trans ((claims (all fl List.mem_cons_self)).trans (later
      fun other member => all other (List.mem_cons_of_mem _ member)))

end FreeList

namespace Image
variable {image : Image z}

def rootOf (image : Image z) (i : UInt32) : BlockNo := ref (image.block (inodeBlock z i)) (rootIndex z i)

def sizeOf (image : Image z) (i : UInt32) : BlockNo := ref (image.block (inodeBlock z i)) (nblocksIndex z i)

/-- The block holds an offset of the file of an inode, or is on the way to one. -/
def InFile (image : Image z) (i : UInt32) (b : BlockNo) : Prop :=
  ∃ offset, offset < (image.sizeOf i).toNat ∧
    b ∈ trail image.block (levelsOf z (image.sizeOf i)) (image.rootOf i) offset

/-- The block is referenced in the tree of an inode, perhaps behind the end of its file. -/
def InTree (image : Image z) (i : UInt32) (b : BlockNo) : Prop :=
  b ∈ cells image.block (levelsOf z (image.sizeOf i)) (image.rootOf i)

/-- A block behind the inode blocks that belongs to no inode. -/
structure Unused (image : Image z) (belongs : UInt32 → BlockNo → Prop) (b : BlockNo) : Prop where
  low : nInodeblocks (image.block 0) < b
  high : b < image.size
  free : ∀ i : UInt32, i.toNat < (nInodeblocks (image.block 0)).toNat * z.inodes → ¬ belongs i b

/-- What an accepted image is expected to be: the free list leads to different unused blocks, and what is
allocated is one of these. -/
structure Sound (image : Image z) (belongs : UInt32 → BlockNo → Prop) : Prop where
  list : ∃ nodes, Chain image.block (freeList (image.block 0)) nodes ∧ (freeCells image.block nodes).Nodup ∧
    ∀ b ∈ freeCells image.block nodes, image.Unused belongs b
  alloc : ∀ (s : State z) (snapshot : Snapshot z), s.image = image → snapshot.superblock = s.mem 0 →
    freeList snapshot.superblock ≠ 0 →
    ∃ taken after, treediskAllocBlock snapshot s = .done taken after ∧ image.Unused belongs taken.1

def SlotsInside (image : Image z) : Prop :=
  ∀ nodes, Chain image.block (freeList (image.block 0)) nodes →
    ∀ node ∈ nodes, ∀ slot ∈ slots (image.block node), slot < image.size

/-- No reference behind the end of a file leads to a block of the free list. -/
def NoneBehind (image : Image z) : Prop :=
  ∀ nodes, Chain image.block (freeList (image.block 0)) nodes → ∀ b ∈ freeCells image.block nodes,
    ∀ i : UInt32, i.toNat < (nInodeblocks (image.block 0)).toNat * z.inodes → image.InTree i b → image.InFile i b

theorem inTree {i : UInt32} {b : BlockNo} :
    image.InFile i b → image.InTree i b := fun ⟨_, _, member⟩ => trail_cells member

end Image

theorem chain_unique {m : BlockNo → Block z} {head : BlockNo} {first second : List BlockNo} (left : Chain m head first)
    (right : Chain m head second) : first = second := by
  induction first generalizing head second with
  | nil =>
    cases second with
    | nil => rfl
    | cons node rest =>
      obtain ⟨rfl, some, _⟩ := right
      exact absurd left some
  | cons node rest ih =>
    obtain ⟨rfl, some, more⟩ := left
    cases second with
    | nil => exact absurd right some
    | cons other others =>
      obtain ⟨rfl, _, rest⟩ := right
      rw [ih more rest]

theorem slot_mem {m : BlockNo → Block z} {nodes : List BlockNo} {node slot : BlockNo} (member : node ∈ nodes)
    (filled : slot ∈ slots (m node)) :
    slot ∈ freeCells m nodes := by
  induction nodes with
  | nil => cases member
  | cons first rest ih =>
    rw [freeCells_cons, Multiset.cons_add]
    apply Multiset.mem_cons_of_mem
    rcases List.mem_cons.mp member with rfl | later
    · exact Multiset.mem_add.mpr (.inl filled)
    · exact Multiset.mem_add.mpr (.inr (ih later))

namespace Image
variable {image : Image z} {belongs : UInt32 → BlockNo → Prop} {nodes : List BlockNo}

/-- What holds of the blocks of the free list holds of the blocks that are allocated. -/
theorem sound_of_list (chain : Chain image.block (freeList (image.block 0)) nodes)
    (distinct : (freeCells image.block nodes).Nodup)
    (unused : ∀ b ∈ freeCells image.block nodes, image.Unused belongs b) : image.Sound belongs := by
  refine ⟨⟨nodes, chain, distinct, unused⟩, fun s snapshot same super nonempty => ?_⟩
  subst same
  have owned : Owned s (freeCells s.mem nodes) :=
    ⟨distinct, fun b member => UInt32.pos_iff_ne_zero.mp (UInt32.lt_of_le_of_lt UInt32.zero_le (unused b member).low),
      fun b member => (unused b member).high⟩
  have ready : Ready s snapshot nodes := ⟨super, super ▸ chain⟩
  have some : nodes ≠ [] := by
    rintro rfl
    exact nonempty (super ▸ chain)
  obtain ⟨node, rest, rfl⟩ := List.exists_cons_of_ne_nil some
  have inside := owned.inside node (node_mem List.mem_cons_self)
  have leaves := alloc_leaves ready owned (UInt32.lt_of_le_of_lt UInt32.zero_le inside)
  cases ran : treediskAllocBlock snapshot s with
  | done taken after =>
    obtain ⟨more, taking⟩ := leaves.done ran
    refine ⟨taken, after, rfl, unused taken.1 ?_⟩
    change taken.1 ∈ freeCells s.mem _
    rw [taking.cells]
    exact Multiset.mem_cons_self ..
  | halted reason after => exact absurd (leaves.halted ran).2.2 some

theorem Sound.slotsInside (sound : image.Sound belongs) : image.SlotsInside := by
  obtain ⟨nodes, chain, _, unused⟩ := sound.list
  intro others same node member slot filled
  rw [chain_unique same chain] at member
  exact (unused slot (slot_mem member filled)).high

/-- When the slots point into the store, an accepted image is sound. -/
theorem sound_of_accepted {leak : Option BlockNo} (accepted : image.treediskCheck = .ok leak)
    (all : image.SlotsInside) :
    image.Sound image.InFile := by
  have nonempty : 1 ≤ image.size := by
    by_contra none
    rw [UInt32.le_iff_toNat_le, UInt32.toNat_one] at none
    have zero : image.size = 0 := UInt32.toNat_inj.mp (show image.size.toNat = 0 by omega)
    unfold treediskCheck at accepted
    rw [if_pos zero] at accepted
    cases accepted
  have small : nInodeblocks (image.block 0) ≠ 0xFFFFFFFF ∨ image.size ≤ freeList (image.block 0) := by
    by_contra wrapped
    rw [not_or, not_not] at wrapped
    rw [check_leaves nonempty wrapped.1 (UInt32.not_le.mp wrapped.2)] at accepted
    cases accepted
  have yields := @check_yields z image
    (fun info => (∀ c, c ≤ nInodeblocks (image.block 0) → info c ≠ .unknown) ∧
      ∀ c : BlockNo, 1 ≤ c.toNat → c.toNat < 1 + (nInodeblocks (image.block 0)).toNat → ∀ i, i < z.inodes →
        Seen image (image.block c) i info)
    (image.Sound image.InFile) nonempty small ?_ ?_
  · exact yields.value accepted
  · intro info known room
    have bound : (1 : BlockNo).toNat + (nInodeblocks (image.block 0)).toNat ≤ image.size.toNat := by
      rw [UInt32.toNat_one]
      omega
    exact ((scanInodes_sees bound info).both (scanInodes_grows bound info)).weaken fun after ⟨seen, grown⟩ =>
      ⟨fun c le => grown c (known c le), seen⟩
  · intro info ⟨known, seen⟩
    refine (scanFree_claims _ (Nat.lt_succ_of_le (unknowns_card ..))).weaken fun after ⟨nodes, chain, claims⟩ => ?_
    have claimed := claims (all nodes chain)
    refine sound_of_list chain claimed.distinct fun b member => ⟨?_, claimed.inside b member, ?_⟩
    · exact UInt32.not_le.mp fun le => known b le (claimed.fresh b member)
    · rintro i inside ⟨offset, below, held⟩
      have block := inodeBlock_toNat (z := z) (i := i)
      have row : i.toNat / z.inodes < (nInodeblocks (image.block 0)).toNat :=
        Nat.div_lt_of_lt_mul (Nat.mul_comm _ _ ▸ inside)
      refine seen (inodeBlock z i) (block ▸ Nat.le_add_right ..) (block ▸
        Nat.add_lt_add_left row 1) (i.toNat % z.inodes) (Nat.mod_lt _ (inodes_pos z)) offset below b held ?_
      exact claimed.fresh b member

/-- An accepted image is sound, up to the ends of its files, when no slot of the free list is passed over. -/
theorem check_sound_iff (image : Image z) (leak : Option BlockNo) (accepted : image.treediskCheck = .ok leak) :
    (image.Sound image.InFile ↔ image.SlotsInside) ∧
        (image.Sound image.InTree ↔ image.SlotsInside ∧ image.NoneBehind) := by
  refine ⟨⟨Sound.slotsInside, sound_of_accepted accepted⟩, fun sound => ⟨sound.slotsInside, ?_⟩, fun ⟨all, apart⟩ => ?_⟩
  · obtain ⟨nodes, chain, _, unused⟩ := sound.list
    intro others same b member i inside tree
    rw [chain_unique same chain] at member
    exact absurd tree ((unused b member).free i inside)
  · obtain ⟨nodes, chain, distinct, unused⟩ := (sound_of_accepted accepted all).list
    refine sound_of_list chain distinct fun b member =>
      ⟨(unused b member).low, (unused b member).high, fun i inside tree => ?_⟩
    exact (unused b member).free i inside (apart nodes chain b member i inside tree)

end Image

/-- The free list of four blocks, whose only node has the given slots. -/
def listedImage (first second : BlockNo) : State .small :=
  { below := {
      size := 4
      block := fun b => if b = 0 then setRef (setRef nullBlock 0 1) 1 2
        else if b = 2 then setRef (setRef nullBlock 1 first) 2 second else nullBlock
      reported := by decide }
    freed := [] }

theorem check_sound_listed : (listedImage 3 0).image.Sound (listedImage 3 0).image.InFile := by
  have chain : Chain (listedImage 3 0).image.block (freeList ((listedImage 3 0).image.block 0)) [2] :=
    ⟨by decide, by decide, rfl⟩
  refine (Image.check_sound_iff (listedImage 3 0).image none (by decide +kernel)).1.mpr
    fun nodes same node member slot filled => ?_
  rw [chain_unique same chain, List.mem_singleton] at member
  rw [member] at filled
  have only : slots ((listedImage 3 0).image.block 2) = {3} := by decide +kernel
  rw [only, Multiset.mem_singleton] at filled
  rw [filled]
  decide

/-- A slot that points far behind the store is accepted, and handed out. -/
theorem check_accepts_stray :
    treediskCheck (listedImage 3 1000) = .ok none ∧ ∀ belongs, ¬ (listedImage 3 1000).image.Sound belongs := by
  refine ⟨by decide +kernel, fun belongs sound => ?_⟩
  let snapshot : Snapshot .small := { superblock := (listedImage 3 1000).mem 0, inodeblock := nullBlock, inodeBlockno := 1, inodeNo := 0 }
  obtain ⟨taken, after, ran, unused⟩ := sound.alloc (listedImage 3 1000) snapshot rfl rfl (by decide)
  have given : (treediskAllocBlock snapshot (listedImage 3 1000)).value?.map Prod.fst = some 1000 := by decide +kernel
  rw [ran] at given
  have high := unused.high
  rw [show taken.1 = 1000 from Option.some.inj given] at high
  exact absurd high (by decide)

end Egos.Treedisk
