import Egos.Library.Links
import Egos.Proofs.FatdiskVolume

/-! Lengthening and truncating files on a volume keeps the chains apart, as long
as entry 0 is not hung behind another entry: its number is also the free mark. -/

namespace Egos.Fatdisk
open Library Disk

theorem EOF_ne_zero : EOF ≠ 0 := by decide

/-- The chains of the files have the lengths `len`; during a write the size of its
file is stored before its chain has that length. -/
structure Kept (g : Geometry) (v : Volume) (len : Nat → Nat) : Prop where
  linked : Linked v.next v.head len EOF
  used : ∀ inode, ∀ entry ∈ nodes v.next v.head len inode, entry < g.usable ∧ v.next entry ≠ 0
  inside : v.free < g.usable
  pointer : v.next v.free = 0
  spare : ∀ entry, g.usable ≤ entry → entry < g.entries → v.next entry ≠ 0

/-- The free entries from the free pointer to the end of the table. -/
def Volume.freeAhead (v : Volume) (entries : Nat) : Nat :=
  (List.range' v.free (entries - v.free)).countP fun entry => v.next entry == 0

namespace Volume
variable {g : Geometry} {v w : Volume} {inode offset last : Nat}

theorem alloc_eq_some {allocated : Volume} : v.alloc g = some allocated ↔
    ∃ free, v.nextFree g = some free ∧ allocated = { v with next := Function.update v.next v.free EOF, free } := by
  rw [alloc, Option.map_eq_some_iff]
  exact exists_congr fun free => and_congr_right' eq_comm

@[simp] theorem link_nblocks (v : Volume) (inode last entry : Nat) : (v.link inode last entry).nblocks = v.nblocks := by
  rw [link]; split <;> rfl

@[simp] theorem link_free (v : Volume) (inode last entry : Nat) : (v.link inode last entry).free = v.free := by
  rw [link]; split <;> rfl

@[simp] theorem link_data (v : Volume) (inode last entry : Nat) : (v.link inode last entry).data = v.data := by
  rw [link]; split <;> rfl

theorem nextFree_lt {free : Nat} (inside : v.free < g.entries) (found : v.nextFree g = some free) :
    free < g.entries := by
  have member := List.mem_of_find?_eq_some found
  rcases List.mem_append.mp member with ahead | behind
  · have := List.mem_range'_1.mp ahead
    omega
  · have := List.mem_range'_1.mp behind
    omega

theorem nextFree_free {free : Nat} (found : v.nextFree g = some free) : free ≠ v.free ∧ v.next free = 0 := by
  have zero := beq_iff_eq.mp (List.find?_some (p := fun entry => Function.update v.next v.free EOF entry == 0) found)
  by_cases same : free = v.free
  · rw [same, Function.update_self] at zero
    exact absurd zero EOF_ne_zero
  · exact ⟨same, by rwa [Function.update_of_ne same] at zero⟩

/-- What one round of the loop does to a volume. -/
theorem addBlock_eq_some (added : v.addBlock g inode offset last = some w) :
    ∃ free, v.nextFree g = some free ∧ w.free = free ∧ w.data = v.data ∧
      w.nblocks = Function.update v.nblocks inode (max (v.nblocks inode) (offset + 1)) ∧
      if v.nblocks inode = 0 then w.next = Function.update v.next v.free EOF ∧
        w.head = Function.update v.head inode v.free
      else w.next = Function.update (Function.update v.next v.free EOF) last v.free ∧ w.head = v.head := by
  rw [addBlock, Option.map_eq_some_iff] at added
  obtain ⟨allocated, took, rfl⟩ := added
  obtain ⟨free, found, rfl⟩ := alloc_eq_some.mp took
  refine ⟨free, found, ?_, ?_, ?_, ?_⟩
  · simp only [link_nblocks]
    split <;> simp [setSize]
  · simp only [link_nblocks]
    split <;> simp [setSize]
  · simp only [link_nblocks, setSize]
    split
    next longer => rw [Nat.max_eq_right (by omega)]
    next shorter => rw [Nat.max_eq_left (by omega), Function.update_eq_self]; simp
  · by_cases first : v.nblocks inode = 0
    · simp only [link, first, if_true]
      split <;> exact ⟨rfl, rfl⟩
    · simp only [link, first, if_false]
      split <;> exact ⟨rfl, rfl⟩

end Volume

namespace Kept
variable {g : Geometry} {v w : Volume} {len : Nat → Nat} {inode offset last : Nat}

theorem fresh (kept : Kept g v len) (other : Nat) : v.free ∉ nodes v.next v.head len other :=
  fun member => (kept.used other v.free member).2 kept.pointer

/-- One more block for a file, whose entry is not 0 unless it is the first. -/
theorem addBlock (kept : Kept g v len) (added : v.addBlock g inode offset last = some w)
    (empty : v.nblocks inode = 0 ↔ len inode = 0)
    (isLast : len inode ≠ 0 → last = v.next^[len inode - 1] (v.head inode))
    (linkable : v.free = 0 → len inode = 0) :
    nodes w.next w.head (Function.update len inode (len inode + 1)) =
      Function.update (nodes v.next v.head len) inode (nodes v.next v.head len inode ++ [v.free]) ∧
    Kept g w (Function.update len inode (len inode + 1)) ∧ ∀ entry, w.next entry = 0 ↔
        entry ≠ v.free ∧ v.next entry = 0 := by
  obtain ⟨free, found, pointer, _, _, links⟩ := Volume.addBlock_eq_some added
  obtain ⟨different, zero⟩ := Volume.nextFree_free found
  have entries : v.free < g.entries := Nat.lt_of_lt_of_le kept.inside g.covered
  have freeInside : free < g.usable := by
    by_contra outside
    exact kept.spare free (by omega) (Volume.nextFree_lt entries found) zero
  obtain ⟨changed, linked⟩ : nodes w.next w.head (Function.update len inode (len inode + 1)) =
        Function.update (nodes v.next v.head len) inode (nodes v.next v.head len inode ++ [v.free]) ∧
      Linked w.next w.head (Function.update len inode (len inode + 1)) EOF := by
    by_cases first : len inode = 0
    · rw [if_pos (empty.mpr first)] at links
      have none : nodes v.next v.head len inode = [] := by rw [nodes, first]; rfl
      rw [links.1, links.2, first, none]
      exact kept.linked.start kept.fresh
    · rw [if_neg (mt empty.mp first)] at links
      rw [links.1, links.2]
      exact kept.linked.append kept.fresh (by omega) (isLast first)
  have marks : ∀ entry, w.next entry = 0 ↔ entry ≠ v.free ∧ v.next entry = 0 := by
    intro entry
    by_cases first : len inode = 0
    · rw [if_pos (empty.mpr first)] at links
      rw [links.1, Function.update_apply]
      split
      next same => simp [same, EOF_ne_zero]
      next other => simp [other]
    · rw [if_neg (mt empty.mp first)] at links
      have member : last ∈ nodes v.next v.head len inode := isLast first ▸ step_mem_nodes (by omega)
      rw [links.1, Function.update_apply]
      split
      next same =>
        subst same
        have := (kept.used inode entry member).2
        simp [this, mt linkable first]
      next apart =>
        rw [Function.update_apply]
        split
        next same => simp [same, EOF_ne_zero]
        next other => simp [other]
  refine ⟨changed, ⟨linked, ?_, pointer ▸ freeInside, ?_, ?_⟩, marks⟩
  · intro other entry member
    rw [changed] at member
    have known : entry = v.free ∨ ∃ list, entry ∈ nodes v.next v.head len list := by
      by_cases here : other = inode
      · rw [here, Function.update_self] at member
        rcases List.mem_append.mp member with old | new
        · exact .inr ⟨inode, old⟩
        · exact .inl (List.mem_singleton.mp new)
      · rw [Function.update_of_ne here] at member
        exact .inr ⟨other, member⟩
    rcases known with rfl | ⟨list, old⟩
    · exact ⟨kept.inside, fun zero => ((marks _).mp zero).1 rfl⟩
    · exact ⟨(kept.used list entry old).1, fun zero => (kept.used list entry old).2 ((marks _).mp zero).2⟩
  · rw [pointer]
    exact (marks free).mpr ⟨different, zero⟩
  · intro entry outside small zero
    exact kept.spare entry outside small ((marks entry).mp zero).2

end Kept

/-- As long as another free entry lies ahead, the free pointer moves on to it. -/
theorem Volume.freeAhead_moves {g : Geometry} {v w : Volume} (inside : v.free < g.entries) (pointer : v.next v.free = 0)
    (found : v.nextFree g = some w.free) (marks : ∀ entry, w.next entry = 0 ↔ entry ≠ v.free ∧ v.next entry = 0)
    (more : 1 < v.freeAhead g.entries) : v.free < w.free ∧ v.freeAhead g.entries = w.freeAhead g.entries + 1 := by
  have agree : ∀ entry, (Function.update v.next v.free EOF entry == 0) = (w.next entry == 0) := by
    intro entry
    rw [Bool.eq_iff_iff, beq_iff_eq, beq_iff_eq, marks]
    by_cases same : entry = v.free
    · simp [same, EOF_ne_zero]
    · simp [same]
  have marked : ¬ w.next v.free = 0 := fun zero => ((marks _).mp zero).1 rfl
  obtain ⟨left, room⟩ : ∃ left, g.entries - v.free = left + 1 := ⟨g.entries - v.free - 1, by omega⟩
  have counted : v.freeAhead g.entries = (List.range' v.free (g.entries - v.free)).countP
      (fun entry => w.next entry == 0) + 1 := by
    rw [freeAhead, room, List.range'_succ, List.countP_cons_of_pos (by simp [pointer]),
      List.countP_cons_of_neg (by simp [marked])]
    congr 1
    apply List.countP_congr
    intro entry member
    have := List.mem_range'_1.mp member
    simp only [beq_iff_eq, marks]
    exact ⟨fun zero => ⟨by omega, zero⟩, fun zero => zero.2⟩
  have ahead : ∃ entry ∈ List.range' v.free (g.entries - v.free), (w.next entry == 0) = true :=
    List.countP_pos_iff.mp (by omega)
  have first : (List.range' v.free (g.entries - v.free)).find? (fun entry => w.next entry == 0) = some w.free := by
    simp only [nextFree, agree, scanOrder, List.find?_append] at found
    cases seen : (List.range' v.free (g.entries - v.free)).find? (fun entry => w.next entry == 0) with
    | none =>
      obtain ⟨entry, member, zero⟩ := ahead
      exact absurd zero (List.find?_eq_none.mp seen entry member)
    | some entry =>
      rw [seen, Option.some_or] at found
      exact found
  obtain ⟨zero, member, before⟩ := List.find?_range'_eq_some.mp first
  have range := List.mem_range'_1.mp member
  have different : w.free ≠ v.free := by
    intro same
    rw [same] at zero
    exact marked (beq_iff_eq.mp zero)
  have split : List.range' v.free (g.entries - v.free) =
      List.range' v.free (w.free - v.free) ++ List.range' w.free (g.entries - w.free) := by
    have := List.range'_append_1 (s := v.free) (m := w.free - v.free) (n := g.entries - w.free)
    rw [show v.free + (w.free - v.free) = w.free by omega] at this
    rw [this]
    congr 1
    omega
  have skipped : (List.range' v.free (w.free - v.free)).countP (fun entry => w.next entry == 0) = 0 := by
    rw [List.countP_eq_zero]
    intro entry member
    have := List.mem_range'_1.mp member
    simpa using before entry (by omega) (by omega)
  refine ⟨by omega, ?_⟩
  rw [counted, split, List.countP_append, skipped, Nat.zero_add, freeAhead]

/-- Entry 0 is not hung behind another one in the next `count` rounds of a write
to a file of `built` blocks. -/
def Volume.Clean (g : Geometry) (v : Volume) (built count : Nat) : Prop :=
  count ≠ 0 → v.next 0 = 0 → if v.free = 0 then built = 0 else count ≤ v.freeAhead g.entries

namespace Kept
variable {g : Geometry} {v w : Volume} {len : Nat → Nat} {inode offset last : Nat}

theorem clean_step (kept : Kept g v len) (found : v.nextFree g = some w.free)
    (marks : ∀ entry, w.next entry = 0 ↔ entry ≠ v.free ∧ v.next entry = 0) {built count : Nat}
    (clean : v.Clean g built (count + 1)) : w.Clean g (built + 1) count := by
  intro some zero
  obtain ⟨different, zero⟩ := (marks 0).mp zero
  have ahead := clean (by omega) zero
  rw [if_neg different.symm] at ahead
  obtain ⟨moved, counted⟩ := Volume.freeAhead_moves
    (Nat.lt_of_lt_of_le kept.inside g.covered) kept.pointer found marks (by omega)
  rw [if_neg (by omega)]
  omega

/-- Growing a file by several blocks. -/
theorem addBlocks (count : Nat) : ∀ {v : Volume} {len : Nat → Nat} {last : Nat}, Kept g v len →
    v.addBlocks g inode offset count last = some w → (v.nblocks inode = 0 ↔ len inode = 0) →
    (len inode ≠ 0 → last = v.next^[len inode - 1] (v.head inode)) → v.Clean g (len inode) count →
    Kept g w (Function.update len inode (len inode + count)) ∧ w.data = v.data ∧
      w.nblocks = (if count = 0 then v.nblocks else Function.update v.nblocks inode
        (max (v.nblocks inode) (offset + 1))) ∧
      ∃ added, added.length = count ∧ nodes w.next w.head (Function.update len inode (len inode + count)) =
        Function.update (nodes v.next v.head len) inode (nodes v.next v.head len inode ++ added) := by
  induction count with
  | zero =>
    intro v len last kept added _ _ _
    cases added
    rw [Nat.add_zero, Function.update_eq_self]
    exact ⟨kept, rfl, rfl, [], rfl, by rw [List.append_nil, Function.update_eq_self]⟩
  | succ count ih =>
    intro v len last kept added empty isLast clean
    rw [Volume.addBlocks, Option.bind_eq_some_iff] at added
    obtain ⟨middle, one, rest⟩ := added
    obtain ⟨free, found, pointer, data, nblocks, _⟩ := Volume.addBlock_eq_some one
    have linkable : v.free = 0 → len inode = 0 := by
      intro zero
      have := clean (by omega) (zero ▸ kept.pointer)
      rwa [if_pos zero] at this
    obtain ⟨changed, keeps, marks⟩ := kept.addBlock one empty isLast linkable
    subst pointer
    have cleaner := kept.clean_step found marks clean
    have isLast' : v.free = middle.next^[Function.update len inode (len inode + 1) inode - 1] (middle.head inode) :=
      nodes_getLast (by rw [changed, Function.update_self])
    obtain ⟨final, data', nblocks', added, size, lists⟩ := ih keeps rest
      (by rw [nblocks, Function.update_self, Function.update_self]; omega) (fun _ => isLast')
      (by rw [Function.update_self]; exact cleaner)
    rw [Function.update_self, Function.update_idem,
      show len inode + 1 + count = len inode + (count + 1) by omega] at final lists
    refine ⟨final, data'.trans data, ?_, v.free :: added, by rw [List.length_cons, size], ?_⟩
    · rw [nblocks', nblocks, if_neg (Nat.succ_ne_zero count)]
      by_cases done : count = 0
      · rw [if_pos done]
      · rw [if_neg done, Function.update_self, Function.update_idem, Nat.max_assoc, Nat.max_self]
    · rw [lists, changed, Function.update_self, Function.update_idem, List.append_assoc]
      rfl

/-- Making room for a block at an offset. -/
theorem grow (kept : Kept g v v.nblocks) (grown : v.grow g inode offset = some w)
    (clean : v.Clean g (v.nblocks inode) (offset + 1 - v.nblocks inode)) :
    Kept g w w.nblocks ∧ w.nblocks = Function.update v.nblocks inode (max (v.nblocks inode) (offset + 1)) ∧
      w.data = v.data ∧
      ∃ added, added.length = offset + 1 - v.nblocks inode ∧ nodes w.next w.head w.nblocks =
        Function.update (nodes v.next v.head v.nblocks) inode (nodes v.next v.head v.nblocks inode ++ added) := by
  have isLast : v.nblocks inode ≠ 0 → v.lastEntry inode = v.next^[v.nblocks inode - 1] (v.head inode) := by
    intro some
    rw [Volume.lastEntry, if_neg some]
  obtain ⟨keeps, data, nblocks, added, size, lists⟩ := kept.addBlocks _ grown Iff.rfl isLast clean
  have sizes : w.nblocks = Function.update v.nblocks inode (max (v.nblocks inode) (offset + 1)) := by
    rw [nblocks]
    split
    next none => rw [Nat.max_eq_left (by omega), Function.update_eq_self]
    next => rfl
  have lengths : Function.update v.nblocks inode (v.nblocks inode + (offset + 1 - v.nblocks inode)) = w.nblocks := by
    rw [sizes]; congr 1; omega
  rw [lengths] at keeps lists
  exact ⟨keeps, sizes, data, added, size, lists⟩

end Kept

/-- Until the first truncation the free entries are those from the free pointer on. -/
def Volume.Fresh (g : Geometry) (v : Volume) : Prop :=
  ∀ entry < g.entries, v.next entry = 0 ↔ v.free ≤ entry ∧ entry < g.usable

theorem Volume.Fresh.nextFree_eq {g : Geometry} {v : Volume} (fresh : v.Fresh g) (inside : v.free < g.usable) :
    v.nextFree g = if v.free + 1 < g.usable then some (v.free + 1) else none := by
  have covered : g.usable ≤ g.entries := g.covered
  have looked : ∀ entry < g.entries, (Function.update v.next v.free EOF entry == 0) = true ↔
      v.free < entry ∧ entry < g.usable := by
    intro entry known
    rw [beq_iff_eq]
    by_cases same : entry = v.free
    · simp [same, EOF_ne_zero]
    · rw [Function.update_of_ne same, fresh entry known]
      omega
  rw [nextFree, scanOrder, List.find?_append]
  by_cases more : v.free + 1 < g.usable
  · have found : (List.range' v.free (g.entries - v.free)).find?
      (fun entry => Function.update v.next v.free EOF entry == 0) =
        some (v.free + 1) := by
      refine List.find?_range'_eq_some.mpr ⟨(looked _ (by omega)).mpr ⟨by omega, more⟩,
        List.mem_range'_1.mpr (by omega), ?_⟩
      intro entry low high
      have : ¬ (Function.update v.next v.free EOF entry == 0) = true := by rw [looked _ (by omega)]; omega
      simpa using this
    rw [if_pos more, found, Option.some_or]
  · have ahead : (List.range' v.free (g.entries - v.free)).find?
        (fun entry => Function.update v.next v.free EOF entry == 0) = none := by
      refine List.find?_eq_none.mpr fun entry member => ?_
      have := List.mem_range'_1.mp member
      rw [looked _ (by omega)]; omega
    have behind : (List.range' 0 (v.free / 256 * 256)).find?
        (fun entry => Function.update v.next v.free EOF entry == 0) = none := by
      refine List.find?_eq_none.mpr fun entry member => ?_
      have := List.mem_range'_1.mp member
      rw [looked _ (by omega)]; omega
    rw [if_neg more, ahead, behind, Option.none_or]

/-- Until the first truncation a file grows by the next entries, if there are enough. -/
theorem Kept.addBlocks_fresh {g : Geometry} {inode offset : Nat} (count : Nat) :
    ∀ {v : Volume} {len : Nat → Nat} {last : Nat},
    Kept g v len → v.Fresh g → (v.nblocks inode = 0 ↔ len inode = 0) →
    (len inode ≠ 0 → last = v.next^[len inode - 1] (v.head inode)) →
    if v.free + count < g.usable then ∃ w, v.addBlocks g inode offset count last = some w ∧ w.free = v.free + count ∧
      w.Fresh g ∧ nodes w.next w.head (Function.update len inode (len inode + count)) =
        Function.update (nodes v.next v.head len) inode (nodes v.next v.head len inode ++ List.range' v.free count)
    else v.addBlocks g inode offset count last = none := by
  induction count with
  | zero =>
    intro v len last kept fresh _ _
    rw [if_pos (show v.free + 0 < g.usable from kept.inside)]
    refine ⟨v, rfl, rfl, fresh, ?_⟩
    rw [List.range'_zero, List.append_nil, Function.update_eq_self, Nat.add_zero, Function.update_eq_self]
  | succ count ih =>
    intro v len last kept fresh empty isLast
    have next := fresh.nextFree_eq kept.inside
    by_cases more : v.free + 1 < g.usable
    · rw [if_pos more] at next
      obtain ⟨w, one⟩ : ∃ w, v.addBlock g inode offset last = some w := by
        rw [Volume.addBlock, Volume.alloc, next]
        exact ⟨_, rfl⟩
      obtain ⟨free, found, pointer, _, nblocks, _⟩ := Volume.addBlock_eq_some one
      rw [next] at found
      cases found
      have linkable : v.free = 0 → len inode = 0 := by
        intro zero
        by_contra some
        obtain ⟨small, taken⟩ := kept.used inode _ (step_mem_nodes (show 0 < len inode by omega))
        exact taken ((fresh _ (Nat.lt_of_lt_of_le small g.covered)).mpr ⟨by omega, small⟩)
      obtain ⟨changed, keeps, marks⟩ := kept.addBlock one empty isLast linkable
      have fresher : w.Fresh g := by
        intro entry known
        rw [marks, fresh entry known, pointer]
        omega
      have rest := ih keeps fresher (by rw [nblocks, Function.update_self, Function.update_self]; omega)
        (fun _ => nodes_getLast (by rw [changed, Function.update_self]))
      have counts : w.free + count = v.free + (count + 1) := by omega
      rw [counts, Function.update_self, Function.update_idem, changed, Function.update_self,
        Function.update_idem, pointer,
        List.append_assoc, show len inode + 1 + count = len inode + (count + 1) by omega] at rest
      rw [Volume.addBlocks, one, Option.bind_some]
      exact rest
    · rw [if_neg more] at next
      rw [if_neg (by omega), Volume.addBlocks, Volume.addBlock, Volume.alloc, next]
      rfl

/-- Entry 0 is handed out first, to an empty file. -/
theorem Kept.clean_fresh {g : Geometry} {v : Volume} (kept : Kept g v v.nblocks) (fresh : v.Fresh g)
    (inode count : Nat) :
    v.Clean g (v.nblocks inode) count := by
  intro _ zero
  have first := ((fresh 0 (Nat.lt_of_lt_of_le g.nonempty g.covered)).mp zero).1
  rw [if_pos (by omega)]
  by_contra some
  obtain ⟨small, taken⟩ := kept.used inode _ (step_mem_nodes (show 0 < v.nblocks inode by omega))
  exact taken ((fresh _ (Nat.lt_of_lt_of_le small g.covered)).mpr ⟨by omega, small⟩)

theorem Kept.grow_fresh {g : Geometry} {v : Volume} (kept : Kept g v v.nblocks) (fresh : v.Fresh g) {inode offset : Nat}
    (room : v.free + (offset + 1 - v.nblocks inode) < g.usable) :
    ∃ w, v.grow g inode offset = some w ∧ w.free = v.free + (offset + 1 - v.nblocks inode) ∧ w.Fresh g ∧
      Kept g w w.nblocks ∧ w.nblocks = Function.update v.nblocks inode (max (v.nblocks inode) (offset + 1)) ∧
      w.data = v.data ∧ nodes w.next w.head w.nblocks = Function.update (nodes v.next v.head v.nblocks) inode
        (nodes v.next v.head v.nblocks inode ++ List.range' v.free (offset + 1 - v.nblocks inode)) := by
  have isLast : v.nblocks inode ≠ 0 → v.lastEntry inode = v.next^[v.nblocks inode - 1] (v.head inode) := by
    intro some
    rw [Volume.lastEntry, if_neg some]
  have grows := @Kept.addBlocks_fresh g inode offset (offset + 1 - v.nblocks inode) _ _ _ kept fresh Iff.rfl isLast
  rw [if_pos room] at grows
  obtain ⟨w, grown, pointer, fresher, lists⟩ := grows
  obtain ⟨keeps, sizes, data, _⟩ := kept.grow grown (kept.clean_fresh fresh _ _)
  have lengths : Function.update v.nblocks inode (v.nblocks inode + (offset + 1 - v.nblocks inode)) = w.nblocks := by
    rw [sizes]; congr 1; omega
  rw [lengths] at lists
  exact ⟨w, grown, pointer, fresher, keeps, sizes, data, lists⟩

theorem Kept.grow_full {g : Geometry} {v : Volume} (kept : Kept g v v.nblocks) (fresh : v.Fresh g) {inode offset : Nat}
    (full : g.usable ≤ v.free + (offset + 1 - v.nblocks inode)) : v.grow g inode offset = none := by
  have grows := @Kept.addBlocks_fresh g inode offset (offset + 1 - v.nblocks inode) _ _
    (v.lastEntry inode) kept fresh Iff.rfl
    (fun some => by rw [Volume.lastEntry, if_neg some])
  rwa [if_neg (by omega)] at grows

/-- The chain of an inode stays among the usable entries. -/
def Volume.Sound (g : Geometry) (v : Volume) (inode : Nat) : Prop :=
  ∀ step < v.nblocks inode, v.next^[step] (v.head inode) < g.usable

theorem Kept.sound {g : Geometry} {v : Volume} (kept : Kept g v v.nblocks) (inode : Nat) : v.Sound g inode :=
  fun _ inside => (kept.used inode _ (step_mem_nodes inside)).1

/-- Releasing a chain frees its entries and no others. -/
theorem Volume.releaseChain_eq_some {g : Geometry} {w : Volume} (count : Nat) : ∀ {v : Volume} {entry : Nat},
    (List.iterate v.next entry count).Nodup → releaseChain g count entry v = some w →
    (∀ other, w.next other = if other ∈ List.iterate v.next entry count then 0 else v.next other) ∧
    w.head = v.head ∧ w.nblocks = v.nblocks ∧ w.free = v.free := by
  induction count with
  | zero =>
    intro v entry _ released
    cases released
    exact ⟨fun other => rfl, rfl, rfl, rfl⟩
  | succ count ih =>
    intro v entry nodup released
    obtain ⟨absent, tail⟩ := List.nodup_cons.mp nodup
    have agree : ∀ step, step + 1 < count → v.next (v.next^[step] (v.next entry)) =
        (v.release entry).next (v.next^[step] (v.next entry)) := by
      intro step small
      refine (Function.update_of_ne ?_ _ _).symm
      intro equal
      exact absent (List.mem_iterate.mpr ⟨step, by omega, equal.symm⟩)
    rw [releaseChain] at released
    by_cases stored : g.dataPos entry < g.size
    · rw [if_pos stored] at released
      obtain ⟨next, head, nblocks, free⟩ := ih (by rw [← iterate_congr agree]; exact tail) released
      refine ⟨fun other => ?_, head, nblocks, free⟩
      rw [next, ← iterate_congr agree, List.iterate]
      by_cases later : other ∈ List.iterate v.next (v.next entry) count
      · rw [if_pos later, if_pos (List.mem_cons_of_mem _ later)]
      · rw [if_neg later]
        by_cases here : other = entry
        · rw [if_pos (here ▸ List.mem_cons_self), here]
          exact Function.update_self _ _ _
        · rw [if_neg (by rw [List.mem_cons]; exact not_or.mpr ⟨here, later⟩)]
          exact Function.update_of_ne here _ _
    · rw [if_neg stored] at released
      cases released

theorem Kept.truncate {g : Geometry} {v w : Volume} {inode : Nat} (kept : Kept g v v.nblocks)
    (truncated : v.truncate g inode = some w) :
    Kept g w w.nblocks ∧ w.nblocks = Function.update v.nblocks inode 0 ∧ w.free = v.free ∧
      ∀ other, w.next other = if other ∈ nodes v.next v.head v.nblocks inode then 0 else v.next other := by
  rw [Volume.truncate] at truncated
  by_cases empty : v.nblocks inode = 0
  · rw [if_pos empty] at truncated
    cases truncated
    have none : nodes v.next v.head v.nblocks inode = [] := by rw [nodes, empty]; rfl
    refine ⟨kept, (Function.update_eq_self_iff.mpr empty.symm).symm, rfl, fun other => ?_⟩
    rw [none, if_neg List.not_mem_nil]
  · rw [if_neg empty, Option.map_eq_some_iff] at truncated
    obtain ⟨released, freed, rfl⟩ := truncated
    obtain ⟨next, head, nblocks, free⟩ := Volume.releaseChain_eq_some _ (kept.linked.nodup inode) freed
    change ∀ other, released.next other = if other ∈ nodes v.next v.head v.nblocks inode then 0
      else v.next other at next
    obtain ⟨lists, linked⟩ := kept.linked.clear
      (fun entry absent => (by rw [next, if_neg absent] : released.next entry = v.next entry))
      (fun other (different : other ≠ inode) =>
        (by rw [Function.update_of_ne different, head] : Function.update released.head inode 0 other = v.head other))
    rw [nblocks]
    refine ⟨⟨linked, ?_, free ▸ kept.inside, ?_, ?_⟩, rfl, free, next⟩
    · intro other entry member
      rw [lists] at member
      by_cases here : other = inode
      · rw [here, Function.update_self] at member
        cases member
      · rw [Function.update_of_ne here] at member
        have used := kept.used other entry member
        rw [next, if_neg (kept.linked.apart other inode here entry member)]
        exact used
    · rw [free, next]
      split
      · rfl
      · exact kept.pointer
    · intro entry outside small
      have absent : entry ∉ nodes v.next v.head v.nblocks inode := by
        intro member
        have := (kept.used inode entry member).1
        omega
      rw [next, if_neg absent]
      exact kept.spare entry outside small

end Egos.Fatdisk
