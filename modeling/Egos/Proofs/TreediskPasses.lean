import Egos.Block.TreediskCheck
import Egos.Proofs.TreediskFiles

/-! The integrity check passes on the disks that runs reach: it finds each block of the
store in one place. -/

namespace Egos.Treedisk
open Library Library.Prog Library.RefTree

variable {z : BlockSize}

theorem checkRead_inside {image : Image z} {b : BlockNo} (inside : b < image.size) :
    checkRead image b = .ok (image.block b) := if_pos inside

theorem lookup_inside {fsNblocks b : BlockNo} (binfo : Info) (inside : b < fsNblocks) :
    lookup fsNblocks binfo b = .ok (binfo b) := if_pos inside

theorem mark_inside {fsNblocks b : BlockNo} (binfo : Info) (status : Status) (inside : b < fsNblocks) :
    mark fsNblocks binfo b status = .ok (Function.update binfo b status) := if_pos inside

def Marked (before : Info) (blocks : Multiset BlockNo) (after : Info) : Prop :=
  ∀ b, after b = .unknown ↔ before b = .unknown ∧ b ∉ blocks

namespace Marked
variable {before middle after : Info} {first second : Multiset BlockNo}

theorem none : Marked before 0 before := fun _ => ⟨fun fresh => ⟨fresh, Multiset.notMem_zero _⟩, fun fresh => fresh.1⟩

theorem single {b : BlockNo} {status : Status} (known : status ≠ .unknown) :
    Marked before {b} (Function.update before b status) := by
  intro c
  rw [Multiset.mem_singleton]
  by_cases same : c = b
  · subst same
    rw [Function.update_self]
    exact ⟨fun unknown => absurd unknown known, fun fresh => absurd rfl fresh.2⟩
  · rw [Function.update_of_ne same]
    exact ⟨fun fresh => ⟨fresh, same⟩, fun fresh => fresh.1⟩

theorem trans (left : Marked before first middle) (right : Marked middle second after) :
    Marked before (first + second) after := by
  intro b
  rw [right b, left b, Multiset.mem_add, not_or, and_assoc]

/-- Blocks that are not among the marked ones are as fresh as before. -/
theorem fresh (marked : Marked before first after) (distinct : (first + second).Nodup)
    (fresh : ∀ b ∈ first + second, before b = .unknown) :
    ∀ b ∈ second, after b = .unknown := by
  intro b member
  have apart := (Multiset.nodup_add.mp distinct).2.2
  exact (marked b).mpr ⟨fresh b (Multiset.mem_add.mpr (.inr member)),
    fun other => Multiset.disjoint_left.mp apart other member⟩

end Marked

/-- A loop over a range, with what holds before each round. -/
private theorem foldlM_range {σ ε : Type} {next : σ → Nat → Except ε σ} {holds : Nat → σ → Prop} {start count : Nat}
    (step : ∀ i state, start ≤ i → i < start + count → holds i state → ∃ after, next state i = .ok after ∧
    holds (i + 1) after)
    {state : σ} (first : holds start state) :
    ∃ after, (List.range' start count).foldlM next state = .ok after ∧ holds (start + count) after := by
  induction count generalizing start state with
  | zero => exact ⟨state, rfl, first⟩
  | succ count ih =>
    obtain ⟨middle, ran, held⟩ := step start state (Nat.le_refl _) (by omega) first
    obtain ⟨after, rest, last⟩ := ih (fun i state low high => step i state (by omega) (by omega)) held
    refine ⟨after, ?_, ?_⟩
    · rw [List.range'_succ, List.foldlM_cons, ran]
      exact rest
    · rw [show start + (count + 1) = start + 1 + count by omega]
      exact last

section Trees
variable {s : State z} {nblocks : BlockNo}

theorem size_toNat {h : Nat} (bound : z.refs ^ h < 2 ^ 32) :
    ((1 : BlockNo) <<< UInt32.ofNat (h * z.logRpb)).toNat = z.refs ^ h := by
  have power := refs_pow z h
  have small : h * z.logRpb < 32 := by
    rw [power] at bound
    exact (Nat.pow_lt_pow_iff_right (by decide : 1 < 2)).mp bound
  rw [UInt32.toNat_shiftLeft, UInt32.toNat_ofNat_of_lt' (Nat.lt_trans small (by decide)),
    Nat.mod_eq_of_lt small, UInt32.toNat_one, Nat.one_shiftLeft,
    ← power]
  exact Nat.mod_eq_of_lt bound

/-- The loop over the references from a position on. -/
private theorem checkRefs_marks {h : Nat} {check : BlockNo → BlockNo → Info → Check Info} {ib : Block z} {base : Nat}
    (bound : nblocks.toNat + z.refs ^ h < 2 ^ 32)
    (fits : ∀ i : Fin z.refs, Fits s.mem h (ib i) (nblocks.toNat - base - i * z.refs ^ h))
    (checks : ∀ {node offset : BlockNo} {info : Info}, Fits s.mem h node (nblocks.toNat - offset.toNat) →
    offset < nblocks →
      (∀ c ∈ cells s.mem h node, c < s.below.size) → (cells s.mem h node).Nodup →
        (∀ c ∈ cells s.mem h node, info c = .unknown) →
      ∃ after, check node offset info = .ok after ∧ Marked info (cells s.mem h node) after)
    (is : List (Fin z.refs)) {position : Nat} (listed : is.map Fin.val = List.range' position is.length)
    {offset : BlockNo}
    (at_ : offset.toNat = base + position * z.refs ^ h) (below : offset < nblocks) {info : Info}
    (inside : ∀ c ∈ (is.map fun i => cells s.mem h (ib i)).sum, c < s.below.size)
    (distinct : ((is.map fun i => cells s.mem h (ib i)).sum).Nodup)
    (fresh : ∀ c ∈ (is.map fun i => cells s.mem h (ib i)).sum, info c = .unknown) :
    ∃ after, checkRefs check nblocks (1 <<< UInt32.ofNat (h * z.logRpb)) ib is offset info = .ok after ∧
      Marked info (is.map fun i => cells s.mem h (ib i)).sum after := by
  induction is generalizing position offset info with
  | nil => exact ⟨info, rfl, Marked.none⟩
  | cons i rest ih =>
    rw [List.map_cons, List.length_cons, List.range'_succ] at listed
    obtain ⟨here, later⟩ := List.cons.inj listed
    rw [List.map_cons, List.sum_cons] at inside distinct fresh ⊢
    have child := fits i
    rw [here, Nat.sub_sub, ← at_] at child
    obtain ⟨middle, ran, marked⟩ := checks child below (fun c member => inside c (Multiset.mem_add.mpr (.inl member)))
      (Multiset.nodup_add.mp distinct).1 fun c member => fresh c (Multiset.mem_add.mpr (.inl member))
    have less := UInt32.lt_iff_toNat_lt.mp below
    have next : (offset + (1 : BlockNo) <<< UInt32.ofNat (h * z.logRpb)).toNat =
        base + (position + 1) * z.refs ^ h := by
      rw [UInt32.toNat_add, size_toNat (Nat.lt_of_le_of_lt (Nat.le_add_left ..) bound), at_, Nat.succ_mul,
        Nat.add_assoc]
      apply Nat.mod_eq_of_lt
      rw [at_] at less
      omega
    unfold checkRefs
    rw [ran]
    dsimp only [bind, Except.bind]
    by_cases past : offset + (1 : BlockNo) <<< UInt32.ofNat (h * z.logRpb) ≥ nblocks
    · rw [if_pos past]
      have nothing : (rest.map fun j => cells s.mem h (ib j)).sum = 0 := by
        apply List.sum_eq_zero
        intro blocks member
        obtain ⟨j, among, rfl⟩ := List.mem_map.mp member
        have high : position + 1 ≤ j.val := by
          have value : j.val ∈ List.range' (position + 1) rest.length := later ▸ List.mem_map_of_mem among
          exact (List.mem_range'_1.mp value).1
        have empty := fits j
        have reached := UInt32.le_iff_toNat_le.mp past
        rw [next] at reached
        have further := Nat.mul_le_mul_right (z.refs ^ h) high
        rw [show nblocks.toNat - base - j.val * z.refs ^ h = 0 by omega] at empty
        rw [empty.zero, cells_null]
      rw [nothing, add_zero]
      exact ⟨middle, rfl, marked⟩
    · rw [if_neg past]
      obtain ⟨after, ran, all⟩ := ih later next (UInt32.not_le.mp past)
        (fun c member => inside c (Multiset.mem_add.mpr (.inr member)))
        (Multiset.nodup_add.mp distinct).2.1 (marked.fresh distinct fresh)
      exact ⟨after, ran, marked.trans all⟩

theorem checkInode_marks {h : Nat} (bound : ∀ l, l < h → nblocks.toNat + z.refs ^ l < 2 ^ 32)
    {node offset : BlockNo} {info : Info}
    (fits : Fits s.mem h node (nblocks.toNat - offset.toNat)) (below : offset < nblocks)
    (inside : ∀ c ∈ cells s.mem h node, c < s.below.size) (distinct : (cells s.mem h node).Nodup)
    (fresh : ∀ c ∈ cells s.mem h node, info c = .unknown) :
    ∃ after, checkInode s.image nblocks s.below.size h node offset info = .ok after ∧
        Marked info (cells s.mem h node) after := by
  induction h generalizing node offset info with
  | zero =>
    unfold checkInode
    by_cases null : node = 0
    · rw [if_pos null, null, cells_null]
      exact ⟨info, rfl, Marked.none⟩
    · have root := root_mem (m := s.mem) (h := 0) null
      rw [if_neg null, if_neg (UInt32.not_le.mpr (inside node root)), lookup_inside info (inside node root),
        cells_leaf null]
      dsimp only [bind, Except.bind]
      rw [if_neg (not_not_intro (fresh node root)), mark_inside info .data (inside node root)]
      exact ⟨_, rfl, Marked.single (by decide)⟩
  | succ h ih =>
    unfold checkInode
    by_cases null : node = 0
    · rw [if_pos null, null, cells_null]
      exact ⟨info, rfl, Marked.none⟩
    · have root := root_mem (m := s.mem) (h := h + 1) null
      have read : checkRead s.image node = .ok (s.mem node) := if_pos (inside node root)
      rw [if_neg null, if_neg (UInt32.not_le.mpr (inside node root)), lookup_inside info (inside node root)]
      dsimp only [bind, Except.bind]
      rw [if_neg (not_not_intro (fresh node root)), mark_inside info .indir (inside node root)]
      rw [cells_node null, ← Multiset.singleton_add, Fin.sum_univ_def] at inside distinct fresh ⊢
      have marked : Marked info {node} (Function.update info node .indir) := Marked.single (by decide)
      have listed : (List.finRange z.refs).map Fin.val = List.range' 0 (List.finRange z.refs).length := by
        rw [List.map_coe_finRange_eq_range, List.length_finRange, List.range_eq_range']
      obtain ⟨after, ran, all⟩ := @checkRefs_marks z s nblocks h (checkInode s.image nblocks s.below.size h)
        (s.mem node) offset.toNat
        (bound h (Nat.lt_succ_self h)) (fits null).2 (ih fun l less => bound l (Nat.lt_succ_of_lt less))
          (List.finRange z.refs) 0 listed offset
        (by rw [Nat.zero_mul, Nat.add_zero]) below (Function.update info node .indir)
        (fun c member => inside c (Multiset.mem_add.mpr (.inr member))) (Multiset.nodup_add.mp distinct).2.1
          (marked.fresh distinct fresh)
      refine ⟨after, ?_, marked.trans all⟩
      dsimp only
      rw [read]
      exact ran

end Trees

section FreeList
variable {s : State z} {fl : BlockNo} {info start : Info} {tfb : Block z}

theorem upTo_succ (tfb : Block z) {i : Nat} (high : i < z.refs) :
    upTo tfb (i + 1) = Function.update (upTo tfb i) ⟨i, high⟩ (tfb ⟨i, high⟩) := by
  have set : upTo (setRef tfb i (tfb ⟨i, high⟩)) (i + 1) = Function.update (upTo tfb i) ⟨i, high⟩ (tfb ⟨i, high⟩) :=
    upTo_set high _
  rw [setRef_eq _ high, Function.update_eq_self] at set
  exact set

/-- A slot of a free list block whose slots are all good. -/
private theorem scanSlot_marks (inside : ∀ c ∈ slots tfb, c < s.below.size) (distinct : (slots tfb).Nodup)
    (fresh : ∀ c ∈ slots tfb, start c = .unknown) {i : Nat} (low : 1 ≤ i) (high : i < z.refs)
    (marked : Marked start (slots (upTo tfb i)) info) :
    ∃ after, scanSlot s.below.size fl tfb info i = .ok after ∧ Marked start (slots (upTo tfb (i + 1))) after := by
  have position : (⟨i, high⟩ : Fin z.refs) ≠ 0 := fun zero => Nat.ne_of_gt low (congrArg Fin.val zero)
  have empty : upTo tfb i ⟨i, high⟩ = 0 := if_neg (Nat.lt_irrefl i)
  have grows := upTo_succ tfb high
  unfold scanSlot
  rw [ref_eq _ high]
  by_cases null : tfb ⟨i, high⟩ = 0
  · rw [null, ← empty, Function.update_eq_self] at grows
    rw [grows]
    exact ⟨info, if_pos null, marked⟩
  · have slot := slots_put position empty null
    rw [← grows] at slot
    have le := slots_upTo_le tfb (i + 1)
    rw [slot] at le
    have member : tfb ⟨i, high⟩ ∈ slots tfb := Multiset.mem_of_le le (Multiset.mem_cons_self ..)
    have apart := (Multiset.nodup_cons.mp (Multiset.nodup_of_le le distinct)).1
    have unknown : info (tfb ⟨i, high⟩) = .unknown := (marked _).mpr ⟨fresh _ member, apart⟩
    dsimp only
    rw [if_neg null, if_neg (UInt32.not_le.mpr (inside _ member)), lookup_inside info (inside _ member)]
    dsimp only [bind, Except.bind]
    rw [if_neg (not_not_intro unknown), mark_inside info .free (inside _ member), slot,
      ← Multiset.singleton_add, add_comm]
    exact ⟨_, rfl, marked.trans (Marked.single (by decide))⟩

theorem scanFree_marks {nodes : List BlockNo} {rounds : Nat} (chain : Chain s.mem fl nodes)
    (enough : nodes.length < rounds)
    (inside : ∀ c ∈ freeCells s.mem nodes, c < s.below.size) (distinct : (freeCells s.mem nodes).Nodup)
    (fresh : ∀ c ∈ freeCells s.mem nodes, info c = .unknown) :
    ∃ after, scanFree s.image rounds fl info = .ok after ∧ Marked info (freeCells s.mem nodes) after := by
  induction nodes generalizing fl rounds info with
  | nil =>
    obtain ⟨rounds, rfl⟩ := Nat.exists_eq_succ_of_ne_zero (Nat.ne_of_gt enough)
    have last : fl = 0 := chain
    unfold scanFree
    rw [if_pos last]
    exact ⟨info, rfl, Marked.none⟩
  | cons node rest ih =>
    obtain ⟨rounds, rfl⟩ := Nat.exists_eq_succ_of_ne_zero (Nat.ne_of_gt (Nat.zero_lt_of_lt enough))
    obtain ⟨rfl, some, chain⟩ := chain
    have member := node_mem (m := s.mem) (List.mem_cons_self (a := fl) (l := rest))
    have within := inside fl member
    have unknown := fresh fl member
    have read : checkRead s.image fl = .ok (s.mem fl) := if_pos within
    have found : lookup s.image.size info fl = .ok (info fl) := lookup_inside info within
    have set : mark s.image.size info fl .freelist = .ok (Function.update info fl .freelist) :=
      mark_inside info .freelist within
    have low : ¬ fl ≥ s.image.size := UInt32.not_le.mpr within
    unfold scanFree
    rw [if_neg some, if_neg low, found]
    rw [freeCells_cons, ← Multiset.singleton_add, add_assoc] at inside distinct fresh ⊢
    have marked : Marked info {fl} (Function.update info fl .freelist) := Marked.single (by decide)
    have later := marked.fresh distinct fresh
    have apart := (Multiset.nodup_add.mp distinct).2.1
    have large := refs_large z
    have first : Marked (Function.update info fl .freelist) (slots (upTo (s.mem fl) 1))
        (Function.update info fl .freelist) := by
      rw [slots_upTo_one]
      exact Marked.none
    obtain ⟨middle, ran, filled⟩ := @foldlM_range _ _ (scanSlot s.below.size fl (s.mem fl))
      (fun i info' => Marked (Function.update info fl .freelist) (slots (upTo (s.mem fl) i)) info') 1 (z.refs - 1)
      (fun i info' low high held => scanSlot_marks
        (fun c among => inside c (Multiset.mem_add.mpr (.inr (Multiset.mem_add.mpr (.inl among)))))
        (Multiset.nodup_add.mp apart).1 (fun c among => later c (Multiset.mem_add.mpr (.inl among))) low
          (by omega) held) _ first
    rw [show 1 + (z.refs - 1) = z.refs by omega, upTo_all] at filled
    obtain ⟨after, rest, all⟩ := ih chain (Nat.lt_of_succ_lt_succ enough)
      (fun c among => inside c (Multiset.mem_add.mpr (.inr (Multiset.mem_add.mpr (.inr among)))))
        (Multiset.nodup_add.mp apart).2.1
      (filled.fresh apart later)
    refine ⟨after, ?_, marked.trans (filled.trans all)⟩
    dsimp only [bind, Except.bind]
    rw [if_neg (not_not_intro unknown), set]
    dsimp only
    rw [read]
    dsimp only
    rw [show s.image.size = s.below.size from rfl, ran]
    dsimp only
    rw [ref_eq _ (Nat.lt_of_succ_lt large)]
    exact rest

end FreeList

section Inodes
variable {n : BlockNo} {files : UInt32 → File z} {s : State z} {info start : Info} {nodes : List BlockNo}

private def firstTrees (s : State z) (count : Nat) : Multiset BlockNo :=
  ∑ k ∈ Finset.range count, s.tree (UInt32.ofNat k)

private theorem firstTrees_succ (count : Nat) :
    firstTrees s (count + 1) = firstTrees s count + s.tree (UInt32.ofNat count) :=
  Finset.sum_range_succ _ _

private theorem firstTrees_le {count : Nat} (le : count ≤ n.toNat * z.inodes) : firstTrees s count ≤ trees n s :=
  Finset.sum_le_sum_of_subset (Finset.range_subset_range.mpr le)

variable (held : Files n files s) (volume : Volume n nodes 0 s) (fresh : ∀ c ∈ trees n s, start c = .unknown)
include held volume fresh

/-- The inode with the given number is scanned. -/
private theorem scanInode_marks {j i : Nat} (place : i < z.inodes) (known : j * z.inodes + i < n.toNat * z.inodes)
    (marked : Marked start (firstTrees s (j * z.inodes + i)) info) {b : BlockNo} (block : b.toNat = 1 + j) :
    ∃ after, scanInode s.image (s.mem b) info i = .ok after ∧
        Marked start (firstTrees s (j * z.inodes + (i + 1))) after := by
  generalize number : UInt32.ofNat (j * z.inodes + i) = inode
  have value : inode.toNat = j * z.inodes + i := by
    rw [← number]
    exact UInt32.toNat_ofNat_of_lt' (Nat.lt_of_lt_of_le known volume.inodes)
  have inside : inode.toNat < n.toNat * z.inodes := value ▸ known
  have rest : inode.toNat % z.inodes = i := by
    rw [value, Nat.add_comm, Nat.add_mul_mod_self_right, Nat.mod_eq_of_lt place]
  have here : b = inodeBlock z inode := by
    apply UInt32.toNat_inj.mp
    rw [block, inodeBlock_toNat, value, Nat.add_comm (j * z.inodes),
      Nat.add_mul_div_right _ _ (Nat.zero_lt_of_lt place),
      Nat.div_eq_of_lt place, Nat.zero_add]
  have size : ref (s.mem b) (2 * i + 1) = s.sizeOf inode := by
    rw [here, ← rest]
    rfl
  have root : ref (s.mem b) (2 * i) = s.rootOf inode := by
    rw [here, ← rest]
    rfl
  have next := firstTrees_succ (s := s) (j * z.inodes + i)
  rw [number] at next
  rw [← Nat.add_assoc, next]
  unfold scanInode
  rw [size, root]
  by_cases some : s.sizeOf inode = 0
  · have tree : s.tree inode = 0 := by
      unfold State.tree
      rw [volume.empty_root inside some, cells_null]
    rw [tree, add_zero]
    exact ⟨info, if_neg (not_not_intro some), marked⟩
  · have le := firstTrees_le (s := s) (Nat.succ_le_of_lt known)
    rw [next] at le
    have owned := volume.owned.mono ((Multiset.le_add_right _ _).trans (Multiset.le_add_right _ _))
    have mine := owned.mono le
    have positive : 0 < s.sizeOf inode := UInt32.pos_iff_ne_zero.mpr some
    have levels : levelsFor z (s.sizeOf inode - 1) = levelsOf z (s.sizeOf inode) := (if_pos positive).symm
    have bound : ∀ l, l < levelsOf z (s.sizeOf inode) → (s.sizeOf inode).toNat + z.refs ^ l < 2 ^ 32 := by
      intro l less
      rw [← levels] at less
      have short := (levelsFor_spec z (s.sizeOf inode - 1)).2 l less
      rw [last_toNat positive] at short
      have small := held.small inode inside
      rw [← held.extent inode inside] at small
      omega
    have fits := volume.fits inode inside
    obtain ⟨after, ran, tree⟩ := @checkInode_marks z s (s.sizeOf inode) (levelsOf z (s.sizeOf inode)) bound
      (s.rootOf inode) 0 info fits positive
      (fun c member => mine.inside c (Multiset.mem_add.mpr (.inr member))) (Multiset.nodup_add.mp mine.distinct).2.1
      (marked.fresh mine.distinct fun c member => fresh c (Multiset.mem_of_le le member))
    dsimp only
    rw [if_pos some, levels]
    exact ⟨after, ran, marked.trans tree⟩

theorem scanInodes_marks {left j : Nat} (total : j + left = n.toNat) {b : BlockNo} (block : b.toNat = 1 + j)
    (marked : Marked start (firstTrees s (j * z.inodes)) info) :
    ∃ after, scanInodes s.image left b info = .ok after ∧ Marked start (trees n s) after := by
  induction left generalizing j b info with
  | zero =>
    rw [Nat.add_zero] at total
    rw [total] at marked
    exact ⟨info, rfl, marked⟩
  | succ left ih =>
    have room := volume.room
    have inside : b < s.below.size := by
      rw [UInt32.lt_iff_toNat_lt, block]
      omega
    have read : checkRead s.image b = .ok (s.mem b) := if_pos inside
    obtain ⟨middle, ran, all⟩ := @foldlM_range _ _ (scanInode s.image (s.mem b))
      (fun i info' => Marked start (firstTrees s (j * z.inodes + i)) info') 0 z.inodes
      (fun i info' _ high held' => by
        rw [Nat.zero_add] at high
        refine scanInode_marks held volume fresh high ?_ held' block
        have rows := Nat.mul_le_mul_right z.inodes (show j + 1 ≤ n.toNat by omega)
        rw [Nat.succ_mul] at rows
        omega) info marked
    rw [Nat.zero_add, ← Nat.succ_mul] at all
    have next : (b + 1).toNat = 1 + (j + 1) := by
      rw [succ_toNat inside, block]
      omega
    obtain ⟨after, rest, last⟩ := ih (show j + 1 + left = n.toNat by omega) next all
    refine ⟨after, ?_, last⟩
    unfold scanInodes
    rw [read, List.range_eq_range']
    dsimp only [bind, Except.bind]
    rw [ran]
    exact rest

end Inodes

private theorem markInodes_marks {fsNblocks last : BlockNo} {left : Nat} {b : BlockNo} {info : Info}
    (total : b.toNat + left = last.toNat)
    (inside : last ≤ fsNblocks) :
    ∃ after, markInodes fsNblocks left b info = .ok after ∧ Marked info (numbers b last) after := by
  induction left generalizing b info with
  | zero =>
    have same : b = last := UInt32.toNat_inj.mp total
    rw [same, numbers_none]
    exact ⟨info, rfl, Marked.none⟩
  | succ left ih =>
    have below : b < last := by
      rw [UInt32.lt_iff_toNat_lt]
      omega
    have next := succ_toNat below
    obtain ⟨after, ran, rest⟩ := @ih (b + 1) (Function.update info b .inode) (by omega)
    refine ⟨after, ?_, ?_⟩
    · unfold markInodes
      rw [mark_inside info .inode (UInt32.lt_of_lt_of_le below inside)]
      exact ran
    · rw [numbers_cons below, ← Multiset.singleton_add]
      exact (Marked.single (by decide)).trans rest

private theorem findLeak_none {info : Info} {left : Nat} {b : BlockNo} {size : BlockNo}
    (total : b.toNat + left = size.toNat)
    (known : ∀ c, c < size → info c ≠ .unknown) : findLeak size info left b = .ok none := by
  induction left generalizing b with
  | zero => rfl
  | succ left ih =>
    have below : b < size := by
      rw [UInt32.lt_iff_toNat_lt]
      omega
    unfold findLeak
    rw [lookup_inside info below]
    dsimp only [bind, Except.bind]
    rw [if_neg (known b below)]
    exact ih (by rw [succ_toNat below]; omega)

private theorem nodes_le (m : BlockNo → Block z) (nodes : List BlockNo) :
    (nodes : Multiset BlockNo) ≤ freeCells m nodes := by
  induction nodes with
  | nil => exact Multiset.zero_le _
  | cons node rest ih =>
    rw [freeCells_cons, Multiset.cons_add, ← Multiset.cons_coe]
    exact Multiset.cons_le_cons _ (ih.trans (Multiset.le_add_left _ _))

private theorem nodes_length {s : State z} {nodes : List BlockNo} (owned : Owned s (freeCells s.mem nodes)) :
    nodes.length ≤ s.below.size.toNat := by
  have distinct : nodes.Nodup := Multiset.coe_nodup.mp (Multiset.nodup_of_le (nodes_le s.mem nodes) owned.distinct)
  have numbers : (nodes.map UInt32.toNat).Nodup := distinct.map fun _ _ same => UInt32.toNat_inj.mp same
  have inside : nodes.map UInt32.toNat ⊆ List.range s.below.size.toNat := by
    intro k member
    obtain ⟨node, listed, rfl⟩ := List.mem_map.mp member
    exact List.mem_range.mpr (UInt32.lt_iff_toNat_lt.mp (owned.inside node (node_mem listed)))
  have le := (numbers.subperm inside).length_le
  rwa [List.length_map, List.length_range] at le

/-- The check finds each block in one place. -/
theorem check_passes {n : BlockNo} {files : UInt32 → File z} {s : State z} (held : Files n files s) :
    treediskCheck s = .ok none := by
  obtain ⟨nodes, volume⟩ := held.volume
  have room := volume.room
  have nonempty := volume.nonempty
  have owned : Owned s (trees n s + freeCells s.mem nodes) := volume.owned.mono (Multiset.le_add_right _ _)
  have area : ∀ c ∈ trees n s + freeCells s.mem nodes, n < c := fun c member =>
    ((volume.area c).mp (Multiset.mem_add.mpr (.inl member))).1
  have small : n < s.below.size := by
    rw [UInt32.lt_iff_toNat_lt]
    omega
  have next : (n + 1).toNat = n.toNat + 1 := succ_toNat small
  have within : n + 1 ≤ s.below.size := by
    rw [UInt32.le_iff_toNat_le, next]
    omega
  have head : freeList (s.mem 0) < s.below.size := by
    cases nodes with
    | nil =>
      have none : freeList (s.mem 0) = 0 := volume.chain
      rw [none]
      exact nonempty
    | cons node rest =>
      exact volume.chain.1 ▸ owned.inside node (Multiset.mem_add.mpr (.inr (node_mem List.mem_cons_self)))
  have first : Marked (fun _ => .unknown) {0} (Function.update (fun _ => .unknown) 0 .super) :=
    Marked.single (by decide)
  obtain ⟨inodes, marks, second⟩ := @markInodes_marks s.below.size (n + 1) n.toNat 1 (Function.update
    (fun _ => .unknown) 0 .super)
    (by rw [next, UInt32.toNat_one, Nat.add_comm]) within
  have fresh : ∀ c ∈ trees n s + freeCells s.mem nodes, inodes c = .unknown := by
    intro c member
    refine ((first.trans second) c).mpr ⟨rfl, fun other => ?_⟩
    rcases Multiset.mem_add.mp other with zero | inode
    · exact owned.some c member (Multiset.mem_singleton.mp zero)
    · have low := UInt32.lt_iff_toNat_lt.mp (area c member)
      have high := UInt32.lt_iff_toNat_lt.mp (mem_numbers.mp inode).2
      omega
  have none : Marked inodes (firstTrees s (0 * z.inodes)) inodes := by
    rw [Nat.zero_mul]
    exact Marked.none
  obtain ⟨scanned, scans, third⟩ := scanInodes_marks held volume
    (fun c member => fresh c (Multiset.mem_add.mpr (.inl member)))
    (show 0 + n.toNat = n.toNat from Nat.zero_add _) (show (1 : BlockNo).toNat = 1 + 0 from rfl) none
  obtain ⟨final, lists, fourth⟩ := @scanFree_marks z s (freeList (s.mem 0)) scanned nodes
    (s.below.size.toNat + 1) volume.chain
    (Nat.lt_succ_of_le (nodes_length (owned.mono (Multiset.le_add_left _ _))))
    (fun c member => owned.inside c (Multiset.mem_add.mpr (.inr member))) (Multiset.nodup_add.mp owned.distinct).2.1
    (third.fresh owned.distinct fresh)
  have known : ∀ c, c < s.below.size → final c ≠ .unknown := by
    intro c inside unknown
    obtain ⟨unmarked, notFree⟩ := (fourth c).mp unknown
    obtain ⟨unmarked, notTree⟩ := (third c).mp unmarked
    obtain ⟨_, outside⟩ := ((first.trans second) c).mp unmarked
    by_cases data : n < c
    · have member := (volume.area c).mpr ⟨data, inside⟩
      rw [add_zero] at member
      exact (Multiset.mem_add.mp member).elim notTree notFree
    · apply outside
      rw [Multiset.mem_add, Multiset.mem_singleton, mem_numbers]
      by_cases zero : c = 0
      · exact .inl zero
      · have positive := UInt32.lt_iff_toNat_lt.mp (UInt32.pos_iff_ne_zero.mpr zero)
        have low := mt UInt32.lt_iff_toNat_lt.mpr data
        refine .inr ⟨UInt32.le_iff_toNat_le.mpr positive, ?_⟩
        rw [UInt32.lt_iff_toNat_lt, next]
        omega
  have leak : findLeak s.below.size final s.below.size.toNat 0 = .ok Option.none := findLeak_none (Nat.zero_add _) known
  have read : checkRead s.image 0 = .ok (s.mem 0) := if_pos nonempty
  have set : mark s.below.size (fun _ => .unknown) 0 .super = .ok (Function.update (fun _ => .unknown) 0 .super) :=
    mark_inside _ _ nonempty
  have enough : ¬ 1 + n > s.below.size := by
    rw [UInt32.add_comm]
    exact UInt32.not_lt.mpr within
  unfold treediskCheck Image.treediskCheck
  dsimp only [bind, Except.bind]
  rw [show s.image.size = s.below.size from rfl, if_neg (UInt32.pos_iff_ne_zero.mp nonempty), read]
  dsimp only
  rw [volume.count, if_neg enough, if_neg (UInt32.not_le.mpr head), set]
  dsimp only
  rw [marks]
  dsimp only
  rw [scans]
  dsimp only
  rw [lists]
  dsimp only
  rw [leak]

/-- After every run on a formatted store each block behind the inode blocks is once in one tree or once
among the free blocks, the check finds no fault, and truncation adds the blocks of the tree to the free ones. -/
theorem blocks_partitioned {nInodes : UInt32} {store : Store z} {created : State z}
    (clear : nInodeblocks (store.block 0) = 0)
    (format : treediskCreate nInodes ⟨store, []⟩ = .done 0 created) {events : List (Event z)} {session : Session z}
    (run : Run (Guarded Within Step) ⟨created, []⟩ events session) :
    treediskCheck session.disk = .ok none ∧
    ∃ nodes, Chain session.disk.mem (freeList (session.disk.mem 0)) nodes ∧
      (trees (inodeBlocks z nInodes) session.disk + freeCells session.disk.mem nodes).Nodup ∧
      (∀ b, b ∈ trees (inodeBlocks z nInodes) session.disk + freeCells session.disk.mem nodes ↔
        inodeBlocks z nInodes < b ∧ b < store.size) ∧
      ∀ i next, Step session (.call (.setsize i 0)) next →
        ∃ more, Chain next.disk.mem (freeList (next.disk.mem 0)) more ∧
        (freeCells next.disk.mem more).card = (freeCells session.disk.mem nodes).card + (session.disk.tree i).card := by
  obtain ⟨_, formatted⟩ := @formatted_of_create z nInodes ⟨store, []⟩ created clear format
  obtain ⟨held, opened, size⟩ := files_of_run formatted run
  obtain ⟨nodes, volume⟩ := held.volume
  have distinct := volume.distinct
  have area := volume.area
  rw [add_zero] at distinct area
  rw [size, formatted.size] at area
  refine ⟨check_passes held, nodes, volume.chain, distinct, area, fun i next step => ?_⟩
  obtain ⟨isOpen, _⟩ := Step.called step
  obtain ⟨room, rooted⟩ := @Files.careful z _ _ _ (.setsize i 0) held (opened i isOpen) trivial
  have sound := held.sound_at opened volume
  obtain ⟨_, ⟨more, truncated⟩, _⟩ := sound.calls room rooted step
  refine ⟨more, truncated.volume.chain, ?_⟩
  rw [truncated.cells, Multiset.card_add, Nat.add_comm]

def truncatingEvents : List (Event .small) :=
  [.opens 0, .opens 1, .call (.write 1 0 fun _ => 8), .call (.write 0 3 fun _ => 7), .call (.setsize 0 0),
    .call (.write 1 1 fun _ => 9)]

theorem blocks_partitioned_sample : ∃ created session, treediskCreate 1 ⟨sampleStore, []⟩ = .done 0 created ∧
    Run (Guarded Within Step) ⟨created, []⟩ truncatingEvents session ∧ treediskCheck session.disk = .ok none := by
  obtain ⟨created, format, same⟩ := @Session.on_formats .small 1 sampleStore (by decide +kernel) rfl
  have ran : ((Session.on 1 sampleStore).bind fun start =>
      truncatingEvents.foldlM (fun s event => if Within s event then s.next event else none) start).isSome =
        true := by decide +kernel
  rw [same, Option.bind_some] at ran
  obtain ⟨session, reached⟩ := Option.isSome_iff_exists.mp ran
  have run : Run (Guarded Within Step) ⟨created, []⟩ truncatingEvents session := by
    refine Run.of_foldlM ?_ reached
    intro before event after moved
    exact Option.ite_none_right_eq_some.mp moved
  exact ⟨created, session, format, run, (blocks_partitioned rfl format run).1⟩

/-- treedisk_create accepts a formatted store with blocks that are nowhere. -/
theorem preset_leaks : ∃ created : State .small, treediskCreate 1 ⟨presetStore, []⟩ = .done 0 created ∧
    treediskCheck created = .ok (some 2) :=
  ⟨⟨presetStore, []⟩, rfl, by decide +kernel⟩

end Egos.Treedisk
