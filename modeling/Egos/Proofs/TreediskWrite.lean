import Egos.Proofs.TreediskOps

/-! A write to an inode: the tree grows, the inode is written, and the block is reached from it. -/

namespace Egos.Treedisk
open Library Library.Prog Library.RefTree

variable {z : BlockSize} {n : BlockNo} {nodes : List BlockNo} {leaked : Multiset BlockNo} {s : State z}
    {i : UInt32} {offset : BlockNo}

def grown (size offset : BlockNo) : BlockNo := if offset ≥ size then offset + 1 else size

section Grown
variable {size : BlockNo} (room : offset + 1 ≠ 0)
include room

private theorem next_toNat : (offset + 1).toNat = offset.toNat + 1 := by
  have bound := offset.toNat_lt
  have notLast : offset.toNat + 1 ≠ 2 ^ 32 := by
    intro last
    apply room
    apply UInt32.toNat_inj.mp
    rw [UInt32.toNat_add, UInt32.toNat_one, last]
    rfl
  rw [UInt32.toNat_add, UInt32.toNat_one]
  exact Nat.mod_eq_of_lt (by omega)

theorem grown_toNat : (grown size offset).toNat = max size.toNat (offset.toNat + 1) := by
  unfold grown
  split
  · rename_i past
    rw [next_toNat room]
    have le := UInt32.le_iff_toNat_le.mp past
    omega
  · rename_i below
    have less := UInt32.lt_iff_toNat_lt.mp (UInt32.not_le.mp below)
    omega

theorem offset_grown : offset < grown size offset := by
  rw [UInt32.lt_iff_toNat_lt, grown_toNat room]
  omega

theorem grown_some : grown size offset ≠ 0 := by
  intro zero
  have less : offset < grown size offset := offset_grown room
  rw [zero] at less
  exact absurd less UInt32.not_lt_zero

private theorem levelsOf_past (past : offset ≥ size) : levelsOf z (grown size offset) = levelsFor z offset := by
  unfold levelsOf
  rw [if_pos (UInt32.pos_iff_ne_zero.mpr (grown_some room))]
  unfold grown
  rw [if_pos past, UInt32.add_sub_cancel]

omit room in
private theorem levelsOf_below (below : ¬ offset ≥ size) : levelsOf z (grown size offset) = levelsOf z size := by
  unfold grown
  rw [if_neg below]

theorem levelsOf_grown : levelsOf z size ≤ levelsOf z (grown size offset) := by
  by_cases past : offset ≥ size
  · rw [levelsOf_past room past]
    unfold levelsOf
    split
    · rename_i some
      apply levelsFor_mono
      have le := UInt32.le_iff_toNat_le.mp past
      rw [last_toNat some]
      omega
    · exact Nat.zero_le _
  · rw [levelsOf_below past]

private def writeOpened (s : State z) (i : UInt32) (offset : BlockNo) (data : Block z) : Tree z Int := do
  let size := grown (s.sizeOf i) offset
  let levels := levelsOf z size - levelsOf z (s.sizeOf i)
  let snapshot ← growLevels levels ((s.opened i).setNblocks size)
  match decide (offset ≥ s.sizeOf i) || decide (levels > 0) with
  | true => writeOrPanic snapshot.inodeBlockno snapshot.inodeblock "treedisk_write: inode block"
  | false => pure ()
  walkAndWrite offset data (levelsOf z size) snapshot snapshot.inodeBlockno snapshot.inodeblock (rootSlot z i)
  pure 0

omit room in
private theorem setNblocks_nblocks (snapshot : Snapshot z) (count : BlockNo) :
    (snapshot.setNblocks count).nblocks = count := by
  unfold Snapshot.nblocks Snapshot.setNblocks ref setRef
  exact Function.update_self ..

omit room in
private theorem setNblocks_self (snapshot : Snapshot z) : snapshot.setNblocks snapshot.nblocks = snapshot := by
  unfold Snapshot.setNblocks Snapshot.nblocks ref setRef
  rw [Function.update_eq_self]

private theorem write_eq (volume : Volume n nodes leaked s) (inside : i.toNat < n.toNat * z.inodes) (data : Block z) :
    treediskWrite i offset data s = writeOpened s i offset data s := by
  have nblocks : (s.opened i).nblocks = s.sizeOf i := rfl
  have grows : levelsOf z (s.sizeOf i) ≤ levelsOf z (grown (s.sizeOf i) offset) := levelsOf_grown room
  have some : grown (s.sizeOf i) offset ≠ 0 := grown_some room
  unfold treediskWrite writeOpened
  rw [bind_done (volume.getSnapshot_returns inside)]
  by_cases past : offset ≥ s.sizeOf i
  · have size : grown (s.sizeOf i) offset = offset + 1 := if_pos past
    have levels := levelsOf_past (z := z) room past
    rw [size] at levels grows some
    rw [levels] at grows
    simp only [nblocks, decide_eq_true past, size, if_true, setNblocks_nblocks, if_neg some, levels,
      Nat.max_eq_right grows]
    rfl
  · have size : grown (s.sizeOf i) offset = s.sizeOf i := if_neg past
    have same : (s.opened i).setNblocks (s.sizeOf i) = s.opened i := setNblocks_self _
    rw [size] at some
    simp only [nblocks, decide_eq_false past, size, same, Bool.false_eq_true, if_false, if_neg some, Nat.max_self]
    rfl

end Grown

structure Stored (n : BlockNo) (nodes : List BlockNo) (leaked : Multiset BlockNo) (i : UInt32)
    (offset : BlockNo) (data : Block z)
    (s after : State z) (more : List BlockNo) : Prop where
  volume : Volume n more leaked after
  differs : Local i nodes s after
  freed : after.freed = s.freed
  size : after.sizeOf i = grown (s.sizeOf i) offset
  rooted : after.rootOf i ≠ 0
  here : after.dataAt i offset.toNat = data
  others : ∀ o, o ≠ offset.toNat → after.dataAt i o = s.dataAt i o

structure Aborted (n : BlockNo) (nodes : List BlockNo) (leaked : Multiset BlockNo) (i : UInt32) (offset : BlockNo)
    (s after : State z) (lost : Multiset BlockNo) : Prop where
  volume : Volume n [] (lost + leaked) after
  differs : Local i nodes s after
  freed : after.freed = s.freed
  size : after.sizeOf i = s.sizeOf i ∨ after.sizeOf i = grown (s.sizeOf i) offset
  rooted : (1 < (s.sizeOf i).toNat → s.rootOf i ≠ 0) → 1 < (after.sizeOf i).toNat → after.rootOf i ≠ 0
  data : ∀ o, after.dataAt i o = s.dataAt i o

/-- The tree of an inode has grown, and the inode is to be written. -/
structure Entered (n : BlockNo) (nodes : List BlockNo) (leaked : Multiset BlockNo) (i : UInt32) (s : State z)
    (size : BlockNo)
    (snapshot : Snapshot z) (middle : State z) (rest : List BlockNo) : Prop where
  volume : Volume n nodes leaked s
  inside : i.toNat < n.toNat * z.inodes
  grew : Grew (levelsOf z (s.sizeOf i)) (levelsOf z size) s ((s.opened i).setNblocks size) nodes snapshot middle rest

namespace Entered
variable {size : BlockNo} {snapshot : Snapshot z} {middle : State z} {rest : List BlockNo}

private def state (middle : State z) (i : UInt32) (snapshot : Snapshot z) : State z :=
  middle.put (inodeBlock z i) snapshot.inodeblock

variable (entered : Entered n nodes leaked i s size snapshot middle rest)
include entered

omit entered in
private theorem opened_root : ((s.opened i).setNblocks size).root = s.rootOf i :=
  Function.update_of_ne (rootSlot_ne_sizeSlot i i) _ _

private theorem place : snapshot.inodeBlockno = inodeBlock z i := by
  rw [entered.grew.inode]
  rfl

private theorem row : snapshot.inodeblock =
    Function.update (Function.update (s.mem (inodeBlock z i)) (sizeSlot z i) size) (rootSlot z i) snapshot.root := by
  have inodeblock := congrArg Snapshot.inodeblock entered.grew.inode
  exact inodeblock

private theorem slot : snapshot.inodeblock (rootSlot z i) = snapshot.root := by
  rw [entered.row, Function.update_self]

private theorem grown_cells : cells middle.mem (levelsOf z size) snapshot.root + freeCells middle.mem rest =
    s.tree i + freeCells s.mem nodes := by
  rw [entered.grew.cells, opened_root]
  rfl

private theorem apart : inodeBlock z i ∉ s.tree i + freeCells s.mem nodes :=
  entered.volume.inodeBlock_out entered.inside

/-- Writing the inode does not change the tree that grew. -/
private theorem same {b : BlockNo} (member : b ∈ cells middle.mem
    (levelsOf z size) snapshot.root + freeCells middle.mem rest) :
    (state middle i snapshot).mem b = middle.mem b := by
  rw [entered.grown_cells] at member
  apply State.put_ne
  rintro rfl
  exact entered.apart member

private theorem same_tree :
    ∀ b ∈ cells middle.mem (levelsOf z size) snapshot.root, (state middle i snapshot).mem b = middle.mem b :=
  fun _ member => entered.same (Multiset.mem_add.mpr (.inl member))

private theorem same_nodes : ∀ node ∈ rest, (state middle i snapshot).mem node = middle.mem node :=
  fun _ member => entered.same (Multiset.mem_add.mpr (.inr (node_mem member)))

private theorem blocks : cells (state middle i snapshot).mem (levelsOf z size) (snapshot.inodeblock (rootSlot z i)) +
    freeCells (state middle i snapshot).mem rest = s.tree i + freeCells s.mem nodes := by
  rw [entered.slot, cells_congr entered.same_tree, freeCells_congr entered.same_nodes, entered.grown_cells]

private theorem size_kept : (state middle i snapshot).below.size = s.below.size := entered.grew.keeps.size

private theorem standing :
    Standing (levelsOf z size) (state middle i snapshot) snapshot rest (inodeBlock z i) snapshot.inodeblock
    (rootSlot z i) := by
  have owned := entered.volume.owned_tree entered.inside
  refine ⟨⟨?_, entered.grew.ready.chain.congr entered.same_nodes⟩, ⟨?_, ?_, ?_⟩, ?_, .inl (State.put_self ..)⟩
  · unfold state
    rw [State.put_ne _ (inodeBlock_some i).symm]
    exact entered.grew.ready.super
  · rw [entered.blocks, Multiset.nodup_cons]
    exact ⟨entered.apart, owned.distinct⟩
  · rw [entered.blocks]
    intro b member
    rcases Multiset.mem_cons.mp member with rfl | member
    · exact inodeBlock_some i
    · exact owned.some b member
  · rw [entered.blocks, entered.size_kept]
    intro b member
    rcases Multiset.mem_cons.mp member with rfl | member
    · exact entered.volume.inodeBlock_inside entered.inside
    · exact owned.inside b member
  · rw [entered.size_kept]
    exact entered.volume.nonempty

section Landed
variable {after : State z} {r : BlockNo} {most : List BlockNo}
  (walked : Walked offset (levelsOf z size) (state middle i snapshot) rest (inodeBlock z i) snapshot.inodeblock
    (rootSlot z i) after r most)
include walked

private theorem landed_row : after.mem (inodeBlock z i) =
    Function.update (Function.update (s.mem (inodeBlock z i)) (sizeSlot z i) size) (rootSlot z i) r := by
  rw [walked.parent, entered.row, Function.update_idem]

private theorem landed_size : after.sizeOf i = size := by
  unfold State.sizeOf
  rw [entered.landed_row walked, Function.update_of_ne (rootSlot_ne_sizeSlot i i).symm, Function.update_self]

private theorem landed_root : after.rootOf i = r := by
  unfold State.rootOf
  rw [entered.landed_row walked, Function.update_self]

private theorem landed_cells : after.tree i + freeCells after.mem most = s.tree i + freeCells s.mem nodes := by
  unfold State.tree
  rw [entered.landed_size walked, entered.landed_root walked, walked.cells, entered.blocks]
  rfl

private theorem landed_local : Local i nodes s after := by
  have keeps := walked.keeps
  rw [entered.blocks] at keeps
  have written : Keeps (inodeBlock z i ::ₘ (s.tree i + freeCells s.mem nodes)) middle (state middle i snapshot) :=
    Keeps.put (inodeBlock_some i) (Multiset.mem_cons_self ..) _
  have grown : Keeps (inodeBlock z i ::ₘ (s.tree i + freeCells s.mem nodes)) s middle :=
    entered.grew.keeps.mono fun b member => Multiset.mem_cons_of_mem (Multiset.mem_add.mpr (.inr member))
  have all := (grown.trans written).trans keeps
  refine ⟨all.size, all.count, fun b some apart out => ?_, fun slot notRoot notSize => ?_⟩
  · refine all.same b some fun member => ?_
    exact (Multiset.mem_cons.mp member).elim apart out
  · rw [entered.landed_row walked, Function.update_of_ne notRoot, Function.update_of_ne notSize]

private theorem landed_volume (positive : offset < size) (grows : (s.sizeOf i).toNat ≤ size.toNat) :
    Volume n most leaked after := by
  have stepped : Volume n most (0 + leaked) after := by
    apply entered.volume.step entered.inside (entered.landed_local walked) walked.chain
    · rw [add_zero]
      exact entered.landed_cells walked
    · rw [entered.landed_size walked, entered.landed_root walked]
      have less := UInt32.lt_iff_toNat_lt.mp positive
      apply walked.fits
      · exact Nat.lt_of_le_of_lt (Nat.mod_le _ _) less
      · rw [entered.slot]
        refine Fits.congr ?_ entered.same_tree
        apply entered.grew.fits _ (Nat.ne_of_gt (Nat.zero_lt_of_lt less))
        rw [opened_root]
        exact (entered.volume.fits i entered.inside).mono grows
  rw [zero_add] at stepped
  exact stepped

omit walked in
/-- The data in the tree the walk started from. -/
private theorem entered_view (o : Nat) :
    view (state middle i snapshot).mem (levelsOf z size) (snapshot.inodeblock (rootSlot z i)) o = s.dataAt i o := by
  have grown := entered.grew.view o
  rw [opened_root] at grown
  unfold State.dataAt
  rw [← grown, entered.slot]
  unfold view
  split
  · exact fetch_congr entered.same_tree
  · rfl

private theorem landed_others (positive : offset < size) {o : Nat} (other : o ≠ offset.toNat) :
    after.dataAt i o = s.dataAt i o := by
  rw [← entered.entered_view o]
  unfold State.dataAt view
  rw [entered.landed_size walked, entered.landed_root walked]
  split
  · rename_i low
    apply walked.others
    rw [Nat.mod_eq_of_lt low, Nat.mod_eq_of_lt (Volume.offset_lt positive)]
    exact other
  · rfl

end Landed

/-- The walk has reached its block. -/
private theorem stored {after : State z} {r : BlockNo} {most : List BlockNo} {data : Block z} (room : offset + 1 ≠ 0)
    (same : size = grown (s.sizeOf i) offset)
    (wrote : Wrote offset data (levelsOf z size) (state middle i snapshot) rest
    (inodeBlock z i) snapshot.inodeblock (rootSlot z i) after r
      most) : Stored n nodes leaked i offset data s after most := by
  have positive : offset < size := same ▸ offset_grown room
  have grows : (s.sizeOf i).toNat ≤ size.toNat := by
    rw [same, grown_toNat room]
    exact Nat.le_max_left _ _
  have walked := wrote.toWalked
  refine ⟨entered.landed_volume walked positive grows, entered.landed_local walked,
    walked.freed.trans entered.grew.freed, ?_, ?_, ?_,
    fun o other => entered.landed_others walked positive other⟩
  · rw [entered.landed_size walked, same]
  · rw [entered.landed_root walked]
    exact wrote.some
  · unfold State.dataAt view
    rw [entered.landed_size walked, entered.landed_root walked, if_pos (Volume.offset_lt positive)]
    exact wrote.here

/-- The root is there unless the inode was empty and the write was at offset 0. -/
private theorem stuck_rooted {after : State z} {r : BlockNo}
    (walked : Walked offset (levelsOf z size) (state middle i snapshot) rest
    (inodeBlock z i) snapshot.inodeblock (rootSlot z i) after r [])
    (rooted : 1 < (s.sizeOf i).toNat → s.rootOf i ≠ 0) (several : 1 < size.toNat) : r ≠ 0 := by
  have root : snapshot.root ≠ 0 := by
    apply entered.grew.rooted
    by_cases flat : levelsOf z (s.sizeOf i) < levelsOf z size
    · exact .inl flat
    · right
      rw [opened_root]
      apply rooted
      by_contra small
      apply flat
      have none : levelsOf z (s.sizeOf i) = 0 := by
        have values : s.sizeOf i = 0 ∨ s.sizeOf i = 1 := by
          rcases Nat.le_one_iff_eq_zero_or_eq_one.mp (Nat.not_lt.mp small) with zero | one
          · exact .inl (UInt32.toNat_inj.mp zero)
          · exact .inr (UInt32.toNat_inj.mp one)
        rcases values with zero | one
        · rw [zero]
          rfl
        · rw [one, levelsOf_one]
      rw [none]
      apply Nat.pos_of_ne_zero
      intro zero
      have last : (size - 1) < size := by
        rw [UInt32.lt_iff_toNat_lt, last_toNat (UInt32.lt_iff_toNat_lt.mpr (Nat.zero_lt_of_lt several))]
        omega
      have low := Volume.offset_lt (z := z) last
      rw [zero, pow_zero, last_toNat (UInt32.lt_iff_toNat_lt.mpr (Nat.zero_lt_of_lt several))] at low
      omega
  rintro rfl
  have cells := walked.cells
  rw [cells_null, zero_add, entered.slot] at cells
  have member : snapshot.root ∈ freeCells after.mem [] := by
    rw [cells]
    exact Multiset.mem_add.mpr (.inl (root_mem root))
  exact absurd member (Multiset.notMem_zero _)

private theorem aborted {after : State z} {r : BlockNo} (room : offset + 1 ≠ 0)
    (same : size = grown (s.sizeOf i) offset)
    (stuck : Stuck offset (levelsOf z size) (state middle i snapshot) rest (inodeBlock z i) snapshot.inodeblock
    (rootSlot z i) after r) :
    Aborted n nodes leaked i offset s after 0 := by
  have positive : offset < size := same ▸ offset_grown room
  have grows : (s.sizeOf i).toNat ≤ size.toNat := by
    rw [same, grown_toNat room]
    exact Nat.le_max_left _ _
  have walked := stuck.toWalked
  refine ⟨?_, entered.landed_local walked, walked.freed.trans entered.grew.freed,
    .inr ?_, fun rooted several => ?_, fun o => ?_⟩
  · rw [zero_add]
    exact entered.landed_volume walked positive grows
  · rw [entered.landed_size walked, same]
  · rw [entered.landed_size walked] at several
    rw [entered.landed_root walked]
    exact entered.stuck_rooted walked rooted several
  · by_cases here : o = offset.toNat
    · have before := entered.entered_view o
      unfold view at before
      rw [here, if_pos (Volume.offset_lt positive)] at before
      rw [here, ← before]
      unfold State.dataAt view
      rw [entered.landed_size walked, entered.landed_root walked, if_pos (Volume.offset_lt positive)]
      exact stuck.here
    · exact entered.landed_others walked positive here

private theorem walk_finishes (room : offset + 1 ≠ 0) (same : size = grown (s.sizeOf i) offset) (data : Block z) :
    Leaves (do
        walkAndWrite offset data (levelsOf z size) snapshot snapshot.inodeBlockno snapshot.inodeblock (rootSlot z i)
        pure 0) (state middle i snapshot)
      (fun (code : Int) after => code = 0 ∧ ∃ more, Stored n nodes leaked i offset data s after more)
      (fun reason after => reason = full ∧ ∃ lost, Aborted n nodes leaked i offset s after lost) := by
  rw [entered.place]
  apply Leaves.bind (walk_leaves offset data entered.standing)
  · rintro _ after ⟨r, more, wrote⟩
    exact ⟨rfl, more, entered.stored room same wrote⟩
  · rintro reason after ⟨stopped, r, stuck⟩
    exact ⟨stopped, 0, entered.aborted room same stuck⟩

/-- The inode is not written when it is as before. -/
private theorem state_same (same : size = s.sizeOf i) : state middle i snapshot = middle := by
  have root : snapshot.root = s.rootOf i := (entered.grew.flat (congrArg (levelsOf z) same)).trans opened_root
  have block : snapshot.inodeblock = middle.mem (inodeBlock z i) := by
    have kept : middle.mem (inodeBlock z i) = s.mem (inodeBlock z i) := by
      apply entered.grew.keeps.same _ (inodeBlock_some i)
      exact fun member => entered.apart (Multiset.mem_add.mpr (.inr member))
    rw [entered.row, root, same, kept]
    unfold State.sizeOf State.rootOf
    rw [Function.update_eq_self, Function.update_eq_self]
  have written : Function.update middle.below.block (inodeBlock z i) (middle.mem (inodeBlock z i)) =
      middle.below.block :=
    Function.update_eq_self _ _
  unfold state State.put
  rw [block, written]

end Entered

/-- The store was full before the tree had grown: the new blocks are leaked. -/
private theorem lost_aborted (volume : Volume n nodes leaked s) (inside : i.toNat < n.toNat * z.inodes)
    {after : State z}
    (lost : Lost s nodes after) : Aborted n nodes leaked i offset s after (freeCells s.mem nodes) := by
  have owned := volume.owned_tree inside
  have disjoint : ∀ c ∈ s.tree i, after.mem c = s.mem c := fun c member =>
    lost.keeps.same c (owned.some c (Multiset.mem_add.mpr (.inl member))) (owned.disjoint member)
  have inode : after.mem (inodeBlock z i) = s.mem (inodeBlock z i) := by
    apply lost.keeps.same _ (inodeBlock_some i)
    intro member
    exact volume.inodeBlock_out inside (Multiset.mem_add.mpr (.inr member))
  have size : after.sizeOf i = s.sizeOf i := congrFun inode _
  have root : after.rootOf i = s.rootOf i := congrFun inode _
  have tree : after.tree i = s.tree i := by
    unfold State.tree
    rw [size, root]
    exact cells_congr disjoint
  have differs : Local i nodes s after := by
    refine ⟨lost.keeps.size, lost.keeps.count, fun b some _ out => ?_, fun slot _ _ => congrFun inode slot⟩
    exact lost.keeps.same b some fun member => out (Multiset.mem_add.mpr (.inr member))
  refine ⟨?_, differs, lost.freed, .inl size, fun rooted several => ?_, fun o => ?_⟩
  · apply volume.step inside differs lost.chain
    · rw [tree, add_assoc]
      congr 1
      exact zero_add _
    · rw [size, root]
      exact (volume.fits i inside).congr disjoint
  · rw [root]
    exact rooted (size ▸ several)
  · unfold State.dataAt view
    rw [size, root]
    split
    · exact fetch_congr disjoint
    · rfl

theorem write_leaves (volume : Volume n nodes leaked s) (inside : i.toNat < n.toNat * z.inodes)
    (room : offset + 1 ≠ 0) (data : Block z) :
    Leaves (treediskWrite i offset data) s
      (fun code after => code = 0 ∧ ∃ more, Stored n nodes leaked i offset data s after more)
      (fun reason after => reason = full ∧ ∃ lost, Aborted n nodes leaked i offset s after lost) := by
  have grows : levelsOf z (s.sizeOf i) ≤ levelsOf z (grown (s.sizeOf i) offset) := levelsOf_grown room
  unfold Leaves
  rw [write_eq room volume inside data]
  change Leaves (writeOpened s i offset data) s _ _
  unfold writeOpened
  generalize sized : grown (s.sizeOf i) offset = size at grows ⊢
  have same : size = grown (s.sizeOf i) offset := sized.symm
  have ready : Ready s ((s.opened i).setNblocks size) nodes := ⟨rfl, volume.chain⟩
  have owned : Owned s (cells s.mem (levelsOf z (s.sizeOf i))
      ((s.opened i).setNblocks size).root + freeCells s.mem nodes) := by
    rw [Entered.opened_root]
    exact volume.owned_tree inside
  apply Leaves.bind (grow_leaves (Nat.add_sub_of_le grows).symm ready owned volume.nonempty)
  · rintro snapshot middle ⟨rest, grew⟩
    have entered : Entered n nodes leaked i s size snapshot middle rest := ⟨volume, inside, grew⟩
    have finishes := entered.walk_finishes room same data
    cases dirty : decide (offset ≥ s.sizeOf i) || decide (levelsOf z size - levelsOf z (s.sizeOf i) > 0) with
    | true =>
      have within : inodeBlock z i < middle.below.size := grew.keeps.size ▸ volume.inodeBlock_inside inside
      have writes := writeOrPanic_returns within snapshot.inodeblock "treedisk_write: inode block"
      rw [← entered.place] at writes
      exact Leaves.bind_returns writes (entered.place ▸ finishes)
    | false =>
      have below : ¬ offset ≥ s.sizeOf i := of_decide_eq_false (Bool.or_eq_false_iff.mp dirty).1
      rw [entered.state_same (same.trans (if_neg below))] at finishes
      exact finishes
  · rintro reason after ⟨stopped, lost⟩
    exact ⟨stopped, _, lost_aborted volume inside lost⟩

end Egos.Treedisk
