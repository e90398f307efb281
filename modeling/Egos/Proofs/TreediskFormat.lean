import Egos.Proofs.TreediskVolume

/-! Formatting a store: treedisk_create puts all blocks behind the inode blocks on the free
list, and all inodes are empty. -/

namespace Egos.Treedisk
open Library Library.Prog Library.RefTree

variable {z : BlockSize}

/-- The block numbers from one to before another. -/
def numbers (first last : BlockNo) : Multiset BlockNo :=
  (List.range' first.toNat (last.toNat - first.toNat)).map UInt32.ofNat

section Numbers
variable {first middle last b : BlockNo}

theorem mem_numbers : b ∈ numbers first last ↔ first ≤ b ∧ b < last := by
  unfold numbers
  rw [Multiset.mem_coe, List.mem_map, UInt32.le_iff_toNat_le, UInt32.lt_iff_toNat_lt]
  constructor
  · rintro ⟨k, member, rfl⟩
    obtain ⟨low, high⟩ := List.mem_range'_1.mp member
    have small : last.toNat < UInt32.size := last.toNat_lt
    rw [UInt32.toNat_ofNat_of_lt' (by omega)]
    omega
  · rintro ⟨low, high⟩
    exact ⟨b.toNat, List.mem_range'_1.mpr (by omega), UInt32.ofNat_toNat⟩

theorem numbers_nodup : (numbers first last).Nodup := by
  unfold numbers
  rw [Multiset.coe_nodup]
  refine List.Nodup.map_on ?_ (List.nodup_range' ..)
  intro k left l right same
  have small : last.toNat < UInt32.size := last.toNat_lt
  have inK := List.mem_range'_1.mp left
  have inL := List.mem_range'_1.mp right
  have values := congrArg UInt32.toNat same
  rwa [UInt32.toNat_ofNat_of_lt' (by omega), UInt32.toNat_ofNat_of_lt' (by omega)] at values

theorem numbers_none : numbers first first = 0 := by
  unfold numbers
  rw [Nat.sub_self]
  rfl

theorem succ_toNat (below : first < last) : (first + 1).toNat = first.toNat + 1 := by
  have less := UInt32.lt_iff_toNat_lt.mp below
  have small := last.toNat_lt
  rw [UInt32.toNat_add, UInt32.toNat_one]
  exact Nat.mod_eq_of_lt (by omega)

theorem numbers_cons (below : first < last) : numbers first last = first ::ₘ numbers (first + 1) last := by
  have less := UInt32.lt_iff_toNat_lt.mp below
  unfold numbers
  rw [succ_toNat below, show last.toNat - first.toNat =
    last.toNat - (first.toNat + 1) + 1 by omega, List.range'_succ, List.map_cons,
    UInt32.ofNat_toNat]
  rfl

theorem numbers_add (low : first ≤ middle) (high : middle ≤ last) :
    numbers first middle + numbers middle last = numbers first last := by
  rw [UInt32.le_iff_toNat_le] at low high
  unfold numbers
  rw [Multiset.coe_add, ← List.map_append, show last.toNat - first.toNat =
    (middle.toNat - first.toNat) + (last.toNat - middle.toNat) by omega,
    ← List.range'_append_1, show first.toNat + (middle.toNat - first.toNat) = middle.toNat by omega]

end Numbers

section Fill

def upTo (block : Block z) (i : Nat) : Block z := fun j => if j.val < i then block j else 0

theorem upTo_set {block : Block z} {i : Nat} (inside : i < z.refs) (value : BlockNo) :
    upTo (setRef block i value) (i + 1) = Function.update (upTo block i) ⟨i, inside⟩ value := by
  rw [setRef_eq _ inside]
  funext j
  unfold upTo
  by_cases same : j = ⟨i, inside⟩
  · subst same
    rw [if_pos (Nat.lt_succ_self i), Function.update_self, Function.update_self]
  · have apart : j.val ≠ i := fun equal => same (Fin.ext equal)
    rw [Function.update_of_ne same, Function.update_of_ne same]
    congr 1
    exact propext ⟨fun less => by omega, fun less => by omega⟩

theorem upTo_all (block : Block z) : upTo block z.refs = block := by
  funext j
  exact if_pos j.isLt

theorem slots_upTo_le (block : Block z) (i : Nat) : slots (upTo block i) ≤ slots block := by
  have same : ∀ j ∈ (Finset.univ.filter fun j => j ≠ 0 ∧ upTo block i j ≠ 0).val, upTo block i j = block j := by
    intro j member
    have some := (Finset.mem_filter.mp (Finset.mem_val.mp member)).2.2
    by_contra other
    exact some (if_neg fun less => other (if_pos less))
  unfold slots
  rw [Multiset.map_congr rfl same]
  apply Multiset.map_le_map
  rw [Finset.val_le_iff]
  intro j member
  have listed := same j (Finset.mem_val.mpr member)
  obtain ⟨_, slot, some⟩ := Finset.mem_filter.mp member
  rw [listed] at some
  exact Finset.mem_filter.mpr ⟨Finset.mem_univ j, slot, some⟩

theorem slots_upTo_one (block : Block z) : slots (upTo block 1) = 0 := by
  apply slots_empty
  intro j slot
  apply if_neg
  intro less
  exact slot (Fin.ext (Nat.lt_one_iff.mp less))

/-- The slots that are filled get the next blocks. -/
private theorem fillSlots_spec {nblocks : BlockNo} {left i : Nat} {nextFree : BlockNo} {data : Block z}
    (full : i + left = z.refs)
    (slot : 0 < i) (some : 0 < nextFree) (low : nextFree ≤ nblocks) :
    nextFree ≤ (fillSlots nblocks left i nextFree data).1 ∧ (fillSlots nblocks left i nextFree data).1 ≤ nblocks ∧
      slots (fillSlots nblocks left i nextFree data).2 =
        slots (upTo data i) + numbers nextFree (fillSlots nblocks left i nextFree data).1 ∧
      (fillSlots nblocks left i nextFree data).2 0 = data 0 := by
  induction left generalizing i nextFree data with
  | zero =>
    rw [Nat.add_zero] at full
    unfold fillSlots
    refine ⟨UInt32.le_refl _, low, ?_, rfl⟩
    rw [numbers_none, full, upTo_all, add_zero]
  | succ left ih =>
    have inside : i < z.refs := by omega
    have position : (⟨i, inside⟩ : Fin z.refs) ≠ 0 := fun zero => Nat.ne_of_gt slot (congrArg Fin.val zero)
    have empty : upTo data i ⟨i, inside⟩ = 0 := if_neg (Nat.lt_irrefl i)
    have first : ∀ value, setRef data i value 0 = data 0 := by
      intro value
      rw [setRef_eq _ inside]
      exact Function.update_of_ne position.symm _ _
    unfold fillSlots
    split
    · rename_i more
      have next : nextFree < nextFree + 1 := by
        rw [UInt32.lt_iff_toNat_lt, succ_toNat more]
        exact Nat.lt_succ_self _
      have room : nextFree + 1 ≤ nblocks := by
        rw [UInt32.le_iff_toNat_le, succ_toNat more]
        exact UInt32.lt_iff_toNat_lt.mp more
      obtain ⟨start, stop, filled, zero⟩ :=
        @ih (i + 1) (nextFree + 1) (setRef data i nextFree) (by omega) (Nat.succ_pos i)
        (UInt32.lt_trans some next) room
      refine ⟨UInt32.le_trans (UInt32.le_of_lt next) start, stop, ?_, zero.trans (first nextFree)⟩
      rw [filled, upTo_set inside, slots_put position empty (UInt32.pos_iff_ne_zero.mp some),
        numbers_cons (UInt32.lt_of_lt_of_le next start), Multiset.cons_add, Multiset.add_cons]
    · obtain ⟨start, stop, filled, zero⟩ := @ih (i + 1) nextFree (setRef data i 0) (by omega) (Nat.succ_pos i) some low
      refine ⟨start, stop, ?_, zero.trans (first 0)⟩
      rw [filled, upTo_set inside, ← empty, Function.update_eq_self]

end Fill

/-- What the loop has written: the blocks from `first` on are on the list. -/
structure Linked (first last head : BlockNo) (nodes : List BlockNo) (s after : State z) : Prop where
  chain : Chain after.mem head nodes
  cells : freeCells after.mem nodes = numbers first last
  size : after.below.size = s.below.size
  freed : after.freed = s.freed
  same : ∀ b, b < first → after.mem b = s.mem b

/-- One round of the loop. -/
private theorem link {first nextFree head : BlockNo} {nodes : List BlockNo} {s t : State z} {next : BlockNo}
    {filled : Block z}
    (linked : Linked first nextFree head nodes s t) (some : 0 < first) (low : first ≤ nextFree)
    (above : nextFree < next)
    (leads : filled 0 = head) (fills : slots filled = numbers (nextFree + 1) next) :
    Linked first next nextFree (nextFree :: nodes) s (t.put nextFree filled) := by
  have here : (t.put nextFree filled).mem nextFree = filled := State.put_self ..
  have kept : ∀ node ∈ nodes, (t.put nextFree filled).mem node = t.mem node := by
    intro node member
    apply State.put_ne
    rintro rfl
    have listed := node_mem (m := t.mem) member
    rw [linked.cells] at listed
    exact absurd (mem_numbers.mp listed).2 (UInt32.lt_irrefl _)
  refine ⟨⟨rfl, ?_, ?_⟩, ?_, linked.size, linked.freed, fun b below => ?_⟩
  · exact UInt32.pos_iff_ne_zero.mp (UInt32.lt_of_lt_of_le some low)
  · rw [here, leads]
    exact linked.chain.congr kept
  · rw [freeCells_cons, here, fills, freeCells_congr kept, linked.cells, ← numbers_cons above, add_comm,
      numbers_add low (UInt32.le_of_lt above)]
  · rw [State.put_ne]
    · exact linked.same b below
    · rintro rfl
      exact absurd (UInt32.lt_of_lt_of_le below low) (UInt32.lt_irrefl _)

/-- A round of the loop takes the next blocks and hangs them on the list. -/
theorem Linked.round {first nextFree head nblocks : BlockNo} {nodes : List BlockNo} {s t : State z} {data : Block z}
    (linked : Linked first nextFree head nodes s t) (some : 0 < first) (low : first ≤ nextFree)
    (below : nextFree < nblocks) :
    let filled := fillSlots nblocks (z.refs - 1) 1 (nextFree + 1) (setRef data 0 head)
    nextFree < filled.1 ∧ filled.1 ≤ nblocks ∧
        Linked first filled.1 nextFree (nextFree :: nodes) s (t.put nextFree filled.2) := by
  have next : nextFree < nextFree + 1 := by
    rw [UInt32.lt_iff_toNat_lt, succ_toNat below]
    exact Nat.lt_succ_self _
  have room : nextFree + 1 ≤ nblocks := by
    rw [UInt32.le_iff_toNat_le, succ_toNat below]
    exact UInt32.lt_iff_toNat_lt.mp below
  have positive : 0 < nextFree + 1 := UInt32.lt_trans (UInt32.lt_of_lt_of_le some low) next
  have large := refs_large z
  obtain ⟨start, stop, filled, zero⟩ :=
    @fillSlots_spec z nblocks (z.refs - 1) 1 (nextFree + 1) (setRef data 0 head) (by omega)
    Nat.zero_lt_one positive room
  rw [slots_upTo_one, zero_add] at filled
  have leads : setRef data 0 head 0 = head := by
    rw [setRef_eq _ (Nat.lt_of_succ_lt large)]
    exact Function.update_self ..
  have above := UInt32.lt_of_lt_of_le next start
  exact ⟨above, stop, link linked some low above (zero.trans leads) filled⟩

theorem setupLoop_ensures {first nblocks : BlockNo} (some : 0 < first) {s : State z}
    (fits : nblocks = s.below.size) {rounds : Nat}
    {nextFree head : BlockNo} {nodes : List BlockNo} {data : Block z} {t : State z}
    (linked : Linked first nextFree head nodes s t)
    (low : first ≤ nextFree) (high : nextFree ≤ nblocks) (enough : nblocks.toNat < nextFree.toNat + rounds) :
    Ensures (fun _ => False) (setupLoop nblocks rounds nextFree head data) t fun free after =>
      ∃ nodes, Linked first nblocks free nodes s after := by
  induction rounds generalizing nextFree head nodes data t with
  | zero => exact absurd (UInt32.le_iff_toNat_le.mp high) (Nat.not_le.mpr enough)
  | succ rounds ih =>
    unfold setupLoop
    cases more : decide (nextFree < nblocks) with
    | false =>
      have done : nextFree = nblocks := UInt32.le_antisymm high (UInt32.not_lt.mp (of_decide_eq_false more))
      rw [done] at linked
      exact ⟨nodes, linked⟩
    | true =>
      have below := of_decide_eq_true more
      obtain ⟨above, stop, longer⟩ := @Linked.round z first nextFree head nblocks nodes s t data linked some low below
      have inside : nextFree < t.below.size := by
        rw [linked.size, ← fits]
        exact below
      apply Ensures.bind_returns (writeOrPanic_returns inside _ _)
      apply ih longer (UInt32.le_trans low (UInt32.le_of_lt above)) stop
      have further := UInt32.lt_iff_toNat_lt.mp above
      omega

theorem clearInodes_returns {left : Nat} {i : BlockNo} {s : State z} (inside : i.toNat + left ≤ s.below.size.toNat) :
    ∃ after, clearInodes left i s = .done true after ∧ after.below.size = s.below.size ∧ after.freed = s.freed ∧
      (∀ b, i ≤ b → b.toNat < i.toNat + left → after.mem b = nullBlock) ∧
      ∀ b, b < i ∨ i.toNat + left ≤ b.toNat → after.mem b = s.mem b := by
  induction left generalizing i s with
  | zero =>
    refine ⟨s, rfl, rfl, rfl, fun b low high => ?_, fun _ _ => rfl⟩
    exact absurd (UInt32.le_iff_toNat_le.mp low) (Nat.not_le.mpr high)
  | succ left ih =>
    have here : i < s.below.size := by
      rw [UInt32.lt_iff_toNat_lt]
      omega
    have next := succ_toNat here
    obtain ⟨after, ran, size, freed, cleared, kept⟩ :=
      @ih (i + 1) (s.put i nullBlock) (by rw [next, State.put_size]; omega)
    refine ⟨after, ?_, size, freed, fun b low high => ?_, fun b out => ?_⟩
    · unfold clearInodes
      rw [bind_done (write_returns here _)]
      exact ran
    · by_cases same : b = i
      · rw [kept b (.inl (by rw [UInt32.lt_iff_toNat_lt, next, same]; exact Nat.lt_succ_self _)), same]
        exact State.put_self ..
      · apply cleared b
        · rw [UInt32.le_iff_toNat_le] at low ⊢
          have apart : b.toNat ≠ i.toNat := fun equal => same (UInt32.toNat_inj.mp equal)
          omega
        · omega
    · rw [UInt32.lt_iff_toNat_lt] at out
      have apart : b ≠ i := by
        rintro rfl
        omega
      rw [kept b (by rw [UInt32.lt_iff_toNat_lt, next]; omega)]
      exact State.put_ne _ apart _

/-- The number of inode blocks of a file system with the given number of inodes. -/
def inodeBlocks (z : BlockSize) (nInodes : UInt32) : BlockNo := UInt32.ofNat ((nInodes.toNat + z.inodes - 1) / z.inodes)

section Count
variable (nInodes : UInt32)

theorem inodeBlocks_bound : (inodeBlocks z nInodes).toNat * z.inodes ≤ 2 ^ 32 := by
  have bound := nInodes.toNat_lt
  unfold inodeBlocks
  rw [UInt32.toNat_ofNat']
  have le := Nat.mod_le ((nInodes.toNat + z.inodes - 1) / z.inodes) (2 ^ 32)
  cases z <;> simp only [BlockSize.inodes, BlockSize.refs, BlockSize.logRpb] at * <;> omega

theorem inodeBlocks_small : (inodeBlocks z nInodes).toNat ≤ 2 ^ 26 := by
  have bound := inodeBlocks_bound (z := z) nInodes
  cases z <;> simp only [BlockSize.inodes, BlockSize.refs, BlockSize.logRpb] at * <;> omega

theorem inodeBlocks_enough : nInodes.toNat ≤ (inodeBlocks z nInodes).toNat * z.inodes := by
  have bound := nInodes.toNat_lt
  unfold inodeBlocks
  rw [UInt32.toNat_ofNat']
  cases z <;> simp only [BlockSize.inodes, BlockSize.refs, BlockSize.logRpb] at * <;> omega

theorem room_toNat : (inodeBlocks z nInodes + 2).toNat = (inodeBlocks z nInodes).toNat + 2 := by
  have small := inodeBlocks_small (z := z) nInodes
  rw [UInt32.toNat_add]
  exact Nat.mod_eq_of_lt (Nat.lt_of_le_of_lt (Nat.add_le_add_right small 2) (by decide))

end Count

structure Formatted (n : BlockNo) (nodes : List BlockNo) (s after : State z) : Prop where
  volume : Volume n nodes 0 after
  size : after.below.size = s.below.size
  empty : ∀ i : UInt32, i.toNat < n.toNat * z.inodes → after.sizeOf i = 0
  freed : after.freed = s.freed

theorem Linked.formatted {n free : BlockNo} {nodes : List BlockNo} {s linked after : State z}
    (list : Linked (n + 1) s.below.size free nodes s linked) (room : n.toNat + 2 ≤ s.below.size.toNat)
    (inodes : n.toNat * z.inodes ≤ 2 ^ 32) (next : (n + 1).toNat = n.toNat + 1)
    (size : after.below.size = s.below.size) (freed : after.freed = s.freed)
    (super : after.mem 0 = setRef (setRef nullBlock 0 n : Block z) 1 free)
    (cleared : ∀ b : BlockNo, 1 ≤ b → b.toNat < 1 + n.toNat → after.mem b = nullBlock)
    (kept : ∀ b : BlockNo, 1 + n.toNat ≤ b.toNat → after.mem b = linked.mem b) : Formatted n nodes s after := by
  have large := refs_large z
  have same : ∀ node ∈ nodes, after.mem node = linked.mem node := by
    intro node member
    have listed := node_mem (m := linked.mem) member
    rw [list.cells] at listed
    have low := UInt32.le_iff_toNat_le.mp (mem_numbers.mp listed).1
    exact kept node (by omega)
  have inode : ∀ i : UInt32, i.toNat < n.toNat * z.inodes → after.mem (inodeBlock z i) = nullBlock := by
    intro i inside
    have low := UInt32.le_iff_toNat_le.mp (Volume.inodeBlock_le inside)
    apply cleared
    · rw [UInt32.le_iff_toNat_le, inodeBlock_toNat]
      exact Nat.le_add_right 1 _
    · omega
  have empty : ∀ i : UInt32, i.toNat < n.toNat * z.inodes → after.tree i = 0 := by
    intro i inside
    unfold State.tree State.rootOf
    rw [inode i inside]
    exact cells_null
  have none : trees n after = 0 := by
    apply Finset.sum_eq_zero
    intro k member
    have small := Finset.mem_range.mp member
    apply empty
    rw [UInt32.toNat_ofNat_of_lt' (Nat.lt_of_lt_of_le small inodes)]
    exact small
  have head : freeList (after.mem 0) = free := by
    rw [super]
    exact freeList_setFreeList _ _
  have count : nInodeblocks (after.mem 0) = n := by
    rw [super, nInodeblocks_setFreeList]
    unfold nInodeblocks ref setRef
    exact Function.update_self ..
  have area : trees n after + freeCells after.mem nodes + 0 = numbers (n + 1) s.below.size := by
    rw [none, freeCells_congr same, list.cells, zero_add, add_zero]
  refine ⟨⟨count, size ▸ room, inodes, ?_, ?_, ?_, ?_⟩, size, fun i inside => congrFun (inode i inside) _, freed⟩
  · rw [head]
    exact list.chain.congr same
  · rw [area]
    exact numbers_nodup
  · intro b
    rw [area, mem_numbers, size, UInt32.le_iff_toNat_le, next, UInt32.lt_iff_toNat_lt (a := n)]
    rfl
  · intro i inside
    unfold State.rootOf
    rw [inode i inside]
    exact Fits.null

theorem create_refused {nInodes : UInt32} {s : State z}
    (small : s.below.size.toNat < (inodeBlocks z nInodes).toNat + 2) :
    treediskCreate nInodes s = .done (-1) s := by
  have refused : s.below.size < inodeBlocks z nInodes + 2 := by
    rw [UInt32.lt_iff_toNat_lt, room_toNat]
    exact small
  unfold treediskCreate
  rw [bind_done (get_run s)]
  unfold inodeBlocks at refused
  simp only [decide_eq_true refused]
  rfl

theorem create_ensures {nInodes : UInt32} {s : State z} (room : (inodeBlocks z nInodes).toNat + 2 ≤ s.below.size.toNat)
    (clear : nInodeblocks (s.mem 0) = 0) :
    Ensures (fun _ => False) (treediskCreate nInodes) s fun code after =>
      code = 0 ∧ ∃ nodes, Formatted (inodeBlocks z nInodes) nodes s after := by
  have enough : ¬ s.below.size < inodeBlocks z nInodes + 2 := by
    rw [UInt32.lt_iff_toNat_lt, room_toNat]
    exact Nat.not_lt.mpr room
  have nonempty : 0 < s.below.size := by
    rw [UInt32.lt_iff_toNat_lt]
    exact Nat.lt_of_lt_of_le (Nat.succ_pos _) room
  have bound := inodeBlocks_bound (z := z) nInodes
  have small := inodeBlocks_small (z := z) nInodes
  unfold treediskCreate
  apply Ensures.get
  unfold inodeBlocks at *
  generalize counted : UInt32.ofNat ((nInodes.toNat + z.inodes - 1) / z.inodes) = n at *
  have next : (n + 1).toNat = n.toNat + 1 := by
    rw [UInt32.toNat_add, UInt32.toNat_one]
    omega
  have positive : 0 < n + 1 := by
    rw [UInt32.lt_iff_toNat_lt, next]
    exact Nat.succ_pos _
  have high : n + 1 ≤ s.below.size := by
    rw [UInt32.le_iff_toNat_le, next]
    omega
  have start : Linked (n + 1) (n + 1) 0 [] s s := ⟨rfl, numbers_none.symm, rfl, rfl, fun _ _ => rfl⟩
  simp only [decide_eq_false enough]
  apply Ensures.bind_returns (read_returns nonempty)
  simp only [clear]
  apply Ensures.bind (setupLoop_ensures positive rfl start (UInt32.le_refl _) high (by omega))
  rintro free linked ⟨nodes, list⟩
  have writable : 0 < linked.below.size := list.size ▸ nonempty
  apply Ensures.bind_returns (write_returns writable _)
  obtain ⟨after, ran, size, freed, cleared, kept⟩ :=
    @clearInodes_returns z n.toNat 1 (linked.put 0 (setRef (setRef nullBlock 0 n : Block z) 1 free)) (by
      rw [State.put_size, list.size, UInt32.toNat_one]
      omega)
  apply Ensures.bind_returns ran
  refine ⟨rfl, nodes, list.formatted room bound next (size.trans list.size) (freed.trans list.freed) ?_ cleared
    fun b past => ?_⟩
  · rw [kept 0 (.inl (by decide))]
    exact State.put_self ..
  · rw [kept b (.inr past)]
    apply State.put_ne
    rintro rfl
    exact absurd past (by rw [UInt32.toNat_zero]; omega)

theorem formatted_of_create {nInodes : UInt32} {s created : State z} (clear : nInodeblocks (s.mem 0) = 0)
    (format : treediskCreate nInodes s = .done 0 created) :
    ∃ nodes, Formatted (inodeBlocks z nInodes) nodes s created := by
  have room : (inodeBlocks z nInodes).toNat + 2 ≤ s.below.size.toNat := by
    by_contra small
    rw [create_refused (Nat.not_le.mp small)] at format
    cases format
  exact ((create_ensures room clear).done format).2

end Egos.Treedisk
