import Egos.Library.Faults
import Egos.Proofs.TreediskFormat
import Egos.Proofs.TreediskSteps
import Mathlib.Logic.Relation

/-! Formatting that is interrupted. treedisk_create writes the free list, the super block
and the inode blocks, in this order: once the super block is written, later calls do nothing. -/

namespace Egos.Treedisk
open Library

variable {z : BlockSize}

abbrev Steps.faulty {α : Type} (program : Steps z α) : Prog (Faulty (State z)) (Option Halt) α :=
  program.runFaulty Access.serve Access.failure

abbrev Steps.Ends {α : Type} (program : Steps z α) (s : State z) (returned : α → State z → Prop)
    (stopped : State z → Prop) : Prop :=
  Effect.Ends Access.serve Access.failure program s returned stopped

def Interrupted (nInodes : UInt32) (before after : State z) : Prop :=
  ∃ fates, ((Stepwise.treediskCreate nInodes).faulty ⟨before, fates⟩).value? ≠ some 0 ∧
    ((Stepwise.treediskCreate nInodes).faulty ⟨before, fates⟩).state.state = after

/-- A file system in which every inode has size 0 and no root. -/
structure Fresh (n : BlockNo) (s : State z) : Prop where
  volume : ∃ nodes, Volume n nodes 0 s
  empty : ∀ i : UInt32, i.toNat < n.toNat * z.inodes → s.sizeOf i = 0 ∧ s.rootOf i = 0

/-- A call that returns 0 after calls that were interrupted leaves an empty file system. -/
def Restartable (nInodes : UInt32) (initial : State z) : Prop :=
  ∀ between fates after, Relation.ReflTransGen (Interrupted nInodes) initial between →
    (Stepwise.treediskCreate nInodes).faulty ⟨between, fates⟩ = .done 0 after →
      Fresh (inodeBlocks z nInodes) after.state

namespace Stepwise
variable {α : Type} {s : State z} {stopped : State z → Prop}

theorem size_ends : (getSize : Steps z BlockNo).Ends s (fun size after => size = s.below.size ∧ after = s) stopped :=
  .call rfl rfl (.pure ⟨rfl, rfl⟩)

theorem read_ends {offset : BlockNo} {next : Option (Block z) → Steps z α} {returned : α → State z → Prop}
    (cut : stopped s)
    (found : offset < s.below.size → (next (some (s.mem offset))).Ends s returned stopped)
    (lost : (next none).Ends s returned stopped) :
    (belowRead offset >>= next).Ends s returned stopped := by
  by_cases inside : offset < s.below.size
  · exact .access rfl (read_returns inside) cut (found inside) lost
  · have ran : Treedisk.belowRead offset s = .done none s := by
      unfold Treedisk.belowRead
      rw [Prog.bind_done (Prog.get_run s), if_neg inside]
      rfl
    exact .access rfl ran cut lost lost

theorem write_ends {offset : BlockNo} {block : Block z} {next : Bool → Steps z α}
    {returned : α → State z → Prop} (cut : stopped s)
    (wrote : offset < s.below.size → (next true).Ends (s.put offset block) returned stopped)
    (refused : (next false).Ends s returned stopped) :
    (belowWrite offset block >>= next).Ends s returned stopped := by
  by_cases inside : offset < s.below.size
  · exact .access rfl (write_returns inside _) cut (wrote inside) refused
  · have ran : Treedisk.belowWrite offset block s = .done false s := by
      unfold Treedisk.belowWrite
      rw [Prog.bind_done (Prog.get_run s)]
      simp only [decide_eq_false inside]
      rfl
    exact .access rfl ran cut refused refused

theorem writeOrPanic_ends {offset : BlockNo} {block : Block z} {message : String} {next : Unit → Steps z α}
    {returned : α → State z → Prop}
    (cut : stopped s) (wrote : (next ()).Ends (s.put offset block) returned stopped) :
    (writeOrPanic offset block message >>= next).Ends s returned stopped := by
  have written : (writeOrPanic offset block message).Ends s (fun _ after => after = s.put offset block) stopped :=
    write_ends cut (fun _ => .pure rfl) (.halt cut)
  exact written.bind fun _ after same => same ▸ wrote

theorem setupLoop_ends {first nblocks : BlockNo} (some : 0 < first) {t : State z} {rounds : Nat}
    {nextFree head : BlockNo} {nodes : List BlockNo} {data : Block z} (linked : Linked first nextFree head nodes t s)
    (low : first ≤ nextFree) (high : nextFree ≤ nblocks) :
    (setupLoop nblocks rounds nextFree head data).Ends s
      (fun free after => ∃ nodes, Linked first nblocks free nodes t after)
      fun after => after.below.size = t.below.size ∧ ∀ b, b < first → after.mem b = t.mem b := by
  induction rounds generalizing nextFree head nodes data s with
  | zero => exact .halt ⟨linked.size, linked.same⟩
  | succ rounds ih =>
    unfold setupLoop
    cases more : decide (nextFree < nblocks) with
    | false =>
      have done : nextFree = nblocks := UInt32.le_antisymm high (UInt32.not_lt.mp (of_decide_eq_false more))
      rw [done] at linked
      exact .pure ⟨nodes, linked⟩
    | true =>
      have below := of_decide_eq_true more
      obtain ⟨above, stop, longer⟩ := @Linked.round z first nextFree head nblocks nodes t s data linked some low below
      exact writeOrPanic_ends ⟨linked.size, linked.same⟩ (ih longer (UInt32.le_trans low (UInt32.le_of_lt above)) stop)

/-- Clearing blocks that hold zeros. -/
theorem clearInodes_ends {left : Nat} {i : BlockNo}
    (nulls : ∀ b, i ≤ b → b.toNat < i.toNat + left → s.mem b = nullBlock)
    (small : i.toNat + left < 2 ^ 32) :
    (clearInodes left i).Ends s (fun _ after => after = s) fun after => after = s := by
  induction left generalizing i with
  | zero => exact .pure rfl
  | succ left ih =>
    have next : (i + 1).toNat = i.toNat + 1 := by
      rw [UInt32.toNat_add, UInt32.toNat_one]
      omega
    have same : s.put i nullBlock = s := by
      have here := nulls i (UInt32.le_refl i) (by omega)
      unfold State.put
      rw [← here]
      exact congrArg (fun block => { s with below := { s.below with block } }) (Function.update_eq_self i s.below.block)
    refine write_ends rfl (fun _ => ?_) (.pure rfl)
    rw [same]
    refine ih (fun b low high => nulls b ?_ ?_) (by omega)
    · rw [UInt32.le_iff_toNat_le] at low ⊢
      omega
    · omega

/-- What interrupted calls leave of a store whose inode blocks hold zeros. -/
structure Kept (n : BlockNo) (s : State z) : Prop where
  nulls : ∀ b, 1 ≤ b → b ≤ n → s.mem b = nullBlock
  super : nInodeblocks (s.mem 0) = 0 ∨ Fresh n s

theorem create_ends {nInodes : UInt32} (kept : Kept (inodeBlocks z nInodes) s) :
    (treediskCreate nInodes).Ends s (fun code after => Kept (inodeBlocks z nInodes) after ∧
      (code = 0 → Fresh (inodeBlocks z nInodes) after))
      (Kept (inodeBlocks z nInodes)) := by
  have sized := @size_ends z s (Kept (inodeBlocks z nInodes))
  have bound := inodeBlocks_bound (z := z) nInodes
  have few := inodeBlocks_small (z := z) nInodes
  have counted := room_toNat (z := z) nInodes
  unfold treediskCreate
  refine sized.bind fun nblocks after ⟨size, same⟩ => ?_
  subst size same
  unfold inodeBlocks at *
  generalize UInt32.ofNat ((nInodes.toNat + z.inodes - 1) / z.inodes) = n at *
  cases small : decide (after.below.size < n + 2) with
  | true => exact .pure ⟨kept, nofun⟩
  | false =>
    have room : n.toNat + 2 ≤ after.below.size.toNat := by
      rw [← counted]
      exact Nat.not_lt.mp (mt UInt32.lt_iff_toNat_lt.mpr (of_decide_eq_false small))
    have next : (n + 1).toNat = n.toNat + 1 := by
      rw [UInt32.toNat_add, UInt32.toNat_one]
      omega
    have positive : 0 < n + 1 := by
      rw [UInt32.lt_iff_toNat_lt, next]
      exact Nat.succ_pos _
    have high : n + 1 ≤ after.below.size := by
      rw [UInt32.le_iff_toNat_le, next]
      omega
    refine read_ends kept (fun inside => ?_) (.pure ⟨kept, nofun⟩)
    dsimp only
    cases clear : decide (nInodeblocks (after.mem 0) = 0) with
    | true =>
      have start : Linked (n + 1) (n + 1) 0 [] after after := ⟨rfl, numbers_none.symm, rfl, rfl, fun _ _ => rfl⟩
      have low : ∀ {t : State z}, (∀ b, b < n + 1 → t.mem b = after.mem b) → Kept n t := by
        intro t same
        refine ⟨fun b some inodes => ?_, .inl ?_⟩
        · rw [same b ?_]
          · exact kept.nulls b some inodes
          · rw [UInt32.lt_iff_toNat_lt, next]
            exact Nat.lt_succ_of_le (UInt32.le_iff_toNat_le.mp inodes)
        · rw [same 0 positive]
          exact of_decide_eq_true clear
      refine ((setupLoop_ends positive start (UInt32.le_refl _) high).stopped_mono fun t ⟨_, same⟩ => low same).bind ?_
      rintro free linked ⟨nodes, list⟩
      refine write_ends (low list.same) (fun _ => ?_) (.pure ⟨low list.same, nofun⟩)
      generalize written : linked.put 0 (setRef (setRef nullBlock 0 n : Block z) 1 free) = formatted
      have other : ∀ b, b ≠ 0 → formatted.mem b = linked.mem b := fun b nonzero => written ▸ State.put_ne _ nonzero _
      have nulls : ∀ b, 1 ≤ b → b ≤ n → formatted.mem b = nullBlock := by
        intro b some inodes
        rw [other b (UInt32.pos_iff_ne_zero.mp (UInt32.lt_of_lt_of_le (by decide) some))]
        exact (low list.same).nulls b some inodes
      have shape := list.formatted room bound next (written ▸ list.size) (written ▸ list.freed) (written ▸
        State.put_self ..)
        (fun b some below => nulls b some (UInt32.le_iff_toNat_le.mpr (by omega)))
        fun b above => other b (by rintro rfl; exact absurd above (by rw [UInt32.toNat_zero]; omega))
      have fresh : Fresh n formatted := by
        refine ⟨⟨nodes, shape.volume⟩, fun i inside => ⟨shape.empty i inside, ?_⟩⟩
        have few := UInt32.le_iff_toNat_le.mp (Volume.inodeBlock_le inside)
        refine congrFun (nulls (inodeBlock z i) ?_ (UInt32.le_iff_toNat_le.mpr (by omega))) _
        rw [UInt32.le_iff_toNat_le, inodeBlock_toNat]
        exact Nat.le_add_right 1 _
      have held : Kept n formatted := ⟨nulls, .inr fresh⟩
      have cleared : (clearInodes n.toNat 1).Ends formatted (fun _ t => t = formatted) (fun t => t = formatted) := by
        refine clearInodes_ends (fun b some below => nulls b some (UInt32.le_iff_toNat_le.mpr ?_))
          (by rw [UInt32.toNat_one]; omega)
        rw [UInt32.toNat_one] at below
        omega
      refine (cleared.stopped_mono fun t same => same ▸ held).bind fun done t same => ?_
      subst same
      cases done with
      | false => exact .pure ⟨held, nofun⟩
      | true => exact .pure ⟨held, fun _ => fresh⟩
    | false =>
      have fresh := kept.super.resolve_left (of_decide_eq_false clear)
      dsimp only
      split
      · exact .pure ⟨kept, fun _ => fresh⟩
      · exact .halt kept

theorem create_ends_small {nInodes : UInt32} (small : s.below.size.toNat < (inodeBlocks z nInodes).toNat + 2) :
    (treediskCreate nInodes).Ends s (fun code after => after = s ∧ code ≠ 0) (fun after => after = s) := by
  have refused : s.below.size < inodeBlocks z nInodes + 2 := by
    rw [UInt32.lt_iff_toNat_lt, room_toNat]
    exact small
  refine size_ends.bind fun nblocks after ⟨size, same⟩ => ?_
  subst size same
  unfold inodeBlocks at refused
  rw [decide_eq_true refused]
  exact .pure ⟨rfl, nofun⟩

end Stepwise

section Restart
variable {nInodes : UInt32} {initial : State z}

/-- A call that is cut off between the super block and the inode blocks. -/
theorem interrupted_between (some : inodeBlocks z nInodes ≠ 0) (clear : nInodeblocks (initial.mem 0) = 0)
    (room : (inodeBlocks z nInodes).toNat + 2 ≤ initial.below.size.toNat) :
    ∃ after, Interrupted nInodes initial after ∧ after.below.size = initial.below.size ∧
      nInodeblocks (after.mem 0) = inodeBlocks z nInodes ∧ ∀ b, 1 ≤ b → b ≤ inodeBlocks z nInodes →
          after.mem b = initial.mem b := by
  have few := inodeBlocks_small (z := z) nInodes
  have enough : ¬ initial.below.size < inodeBlocks z nInodes + 2 := by
    rw [UInt32.lt_iff_toNat_lt, room_toNat]
    exact Nat.not_lt.mpr room
  have nonempty : 0 < initial.below.size := by
    rw [UInt32.lt_iff_toNat_lt]
    exact Nat.lt_of_lt_of_le (Nat.succ_pos _) room
  have next : (inodeBlocks z nInodes + 1).toNat = (inodeBlocks z nInodes).toNat + 1 := by
    rw [UInt32.toNat_add, UInt32.toNat_one]
    omega
  have positive : 0 < inodeBlocks z nInodes + 1 := by
    rw [UInt32.lt_iff_toNat_lt, next]
    exact Nat.succ_pos _
  have high : inodeBlocks z nInodes + 1 ≤ initial.below.size := by
    rw [UInt32.le_iff_toNat_le, next]
    omega
  have start : Linked (inodeBlocks z nInodes + 1) (inodeBlocks z nInodes + 1) 0 [] initial initial :=
    ⟨rfl, numbers_none.symm, rfl, rfl, fun _ _ => rfl⟩
  have listed : Prog.Ensures (fun _ => False)
      (setupFreelist (inodeBlocks z nInodes + 1) initial.below.size) initial _ :=
    setupLoop_ensures positive rfl start (UInt32.le_refl _) high (by omega)
  obtain ⟨free, linked, ran, nodes, list⟩ := listed.total
  rw [← Stepwise.setupFreelist_run] at ran
  obtain ⟨k, served⟩ := @Effect.runFaulty_served _ _ _ _ _ _ Access.failure _ _ _ _ ran
  let fates (j : Nat) : Fate := if j < k + 2 then .served else .cut
  let super : Block z := setRef (setRef nullBlock 0 (inodeBlocks z nInodes)) 1 free
  have first : fates 0 = .served := if_pos (Nat.succ_pos _)
  have between : ∀ j < k, fates (j + 1) = .served := fun j less => if_pos (by omega)
  have second : fates (k + 0 + 1) = .served := if_pos (by omega)
  have third : fates (k + (0 + 1) + 1) = .cut := if_neg (by omega)
  have writable : 0 < linked.below.size := list.size ▸ nonempty
  have left : ∃ left, (inodeBlocks z nInodes).toNat = left + 1 :=
    Nat.exists_eq_succ_of_ne_zero fun none => some (UInt32.toNat_inj.mp none)
  have stopped : ∃ later, (Stepwise.treediskCreate nInodes).faulty ⟨initial, fates⟩ =
      .halted none ⟨linked.put 0 super, later⟩ := by
    have sized : (Stepwise.getSize : Steps z BlockNo).faulty ⟨initial, fates⟩ =
      .done initial.below.size ⟨initial, fates⟩ := rfl
    obtain ⟨left, count⟩ := left
    refine ⟨fun j => fates (k + (j + 1 + 1) + 1),
      Eq.trans (congrFun Effect.runFaulty_bind _) (Eq.trans (Prog.bind_done sized) ?_)⟩
    unfold inodeBlocks at *
    simp only [decide_eq_false enough]
    refine Eq.trans (Effect.runFaulty_access rfl (read_returns nonempty) first) ?_
    dsimp only
    rw [decide_eq_true clear]
    refine Eq.trans (congrFun Effect.runFaulty_bind _) (Eq.trans (Prog.bind_done (served _ between)) ?_)
    refine Eq.trans (Effect.runFaulty_access rfl (write_returns writable super) second) ?_
    rw [count]
    exact Effect.runFaulty_cut rfl third
  obtain ⟨later, ran⟩ := stopped
  refine ⟨linked.put 0 super, ⟨fates, ?_, ?_⟩, list.size, ?_, fun b low inodes => ?_⟩
  · rw [ran]
    exact nofun
  · rw [ran]
    rfl
  · rw [State.put_self, nInodeblocks_setFreeList]
    unfold nInodeblocks ref setRef
    exact Function.update_self ..
  · have apart : b ≠ 0 := UInt32.pos_iff_ne_zero.mp (UInt32.lt_of_lt_of_le (by decide) low)
    rw [State.put_ne _ apart]
    apply list.same
    rw [UInt32.lt_iff_toNat_lt, next]
    exact Nat.lt_succ_of_le (UInt32.le_iff_toNat_le.mp inodes)

/-- Every word of an inode block belongs to one of its inodes. -/
theorem inode_of_slot {n b : BlockNo} (bound : n.toNat * z.inodes ≤ 2 ^ 32) (low : 1 ≤ b) (high : b ≤ n)
    (slot : Fin z.refs) :
    ∃ i : UInt32, i.toNat < n.toNat * z.inodes ∧ inodeBlock z i = b ∧ (slot = rootSlot z i ∨ slot = sizeSlot z i) := by
  have first := UInt32.le_iff_toNat_le.mp low
  have last := UInt32.le_iff_toNat_le.mp high
  rw [UInt32.toNat_one] at first
  have refs := refs_inodes z
  have half : slot.val / 2 < z.inodes := by omega
  have fits : (b.toNat - 1) * z.inodes + slot.val / 2 < n.toNat * z.inodes :=
    calc (b.toNat - 1) * z.inodes + slot.val / 2 < (b.toNat - 1) * z.inodes + z.inodes := Nat.add_lt_add_left half _
      _ = (b.toNat - 1 + 1) * z.inodes := (Nat.succ_mul _ _).symm
      _ ≤ n.toNat * z.inodes := Nat.mul_le_mul_right _ (by omega)
  generalize number : UInt32.ofNat ((b.toNat - 1) * z.inodes + slot.val / 2) = i
  have value : i.toNat = (b.toNat - 1) * z.inodes + slot.val / 2 := by
    rw [← number]
    exact UInt32.toNat_ofNat_of_lt' (Nat.lt_of_lt_of_le fits bound)
  have block : i.toNat / z.inodes = b.toNat - 1 := by
    rw [value, Nat.mul_comm, Nat.mul_add_div (inodes_pos z), Nat.div_eq_of_lt half, Nat.add_zero]
  have position : i.toNat % z.inodes = slot.val / 2 := by
    rw [value, Nat.mul_comm, Nat.mul_add_mod, Nat.mod_eq_of_lt half]
  refine ⟨i, value ▸ fits, UInt32.toNat_inj.mp ?_, ?_⟩
  · rw [inodeBlock_toNat, block]
    omega
  · rcases Nat.mod_two_eq_zero_or_one slot.val with even | odd
    · refine .inl (Fin.ext ?_)
      rw [rootSlot_val, rootIndex, position]
      omega
    · refine .inr (Fin.ext ?_)
      rw [sizeSlot_val, nblocksIndex, position]
      omega

/-- A file system whose inodes are all empty has no bit set in its inode blocks. -/
theorem Fresh.nulls {n : BlockNo} {s : State z} (fresh : Fresh n s) {b : BlockNo} (low : 1 ≤ b) (high : b ≤ n) :
    s.mem b = nullBlock := by
  obtain ⟨nodes, volume⟩ := fresh.volume
  funext slot
  obtain ⟨i, inside, rfl, rfl | rfl⟩ := inode_of_slot volume.inodes low high slot
  · exact (fresh.empty i inside).2
  · exact (fresh.empty i inside).1

theorem create_formatted {s : State z} (room : (inodeBlocks z nInodes).toNat + 2 ≤ s.below.size.toNat)
    (some : inodeBlocks z nInodes ≠ 0) (counted : nInodeblocks (s.mem 0) = inodeBlocks z nInodes) :
    treediskCreate nInodes s = .done 0 s := by
  have enough : ¬ s.below.size < inodeBlocks z nInodes + 2 := by
    rw [UInt32.lt_iff_toNat_lt, room_toNat]
    exact Nat.not_lt.mpr room
  have nonempty : 0 < s.below.size := by
    rw [UInt32.lt_iff_toNat_lt]
    exact Nat.lt_of_lt_of_le (Nat.succ_pos _) room
  have other : ¬ nInodeblocks (s.mem 0) = 0 := fun zero => some (counted.symm.trans zero)
  unfold treediskCreate
  rw [Prog.bind_done (Prog.get_run s)]
  unfold inodeBlocks at *
  simp only [decide_eq_false enough]
  rw [Prog.bind_done (read_returns nonempty)]
  simp only [decide_eq_false other, decide_eq_true counted]
  rfl

/-- Nothing that goes wrong while a store is formatted does harm if and only if the store is too
small to be formatted, or its inode blocks already hold zeros. -/
theorem restartable_iff (some : 1 ≤ nInodes) (clear : nInodeblocks (initial.mem 0) = 0) :
    Restartable nInodes initial ↔ initial.below.size.toNat < (inodeBlocks z nInodes).toNat + 2 ∨
      ∀ b, 1 ≤ b → b ≤ inodeBlocks z nInodes → initial.mem b = nullBlock := by
  have nonzero : inodeBlocks z nInodes ≠ 0 := by
    intro none
    have enough := inodeBlocks_enough (z := z) nInodes
    rw [none, UInt32.toNat_zero, Nat.zero_mul] at enough
    exact Nat.not_succ_le_zero 0 (Nat.le_trans (UInt32.le_iff_toNat_le.mp some) enough)
  constructor
  · intro restartable
    by_cases room : (inodeBlocks z nInodes).toNat + 2 ≤ initial.below.size.toNat
    · obtain ⟨after, interrupted, size, counted, same⟩ := interrupted_between nonzero clear room
      have finds : treediskCreate nInodes after = .done 0 after := create_formatted (size ▸ room) nonzero counted
      rw [← Stepwise.treediskCreate_run] at finds
      obtain ⟨k, served⟩ := @Effect.runFaulty_served _ _ _ _ _ _ Access.failure _ _ _ _ finds
      have fresh := restartable after _ _ (.single interrupted) (served (fun _ => .served) fun _ _ => rfl)
      exact .inr fun b low high => (same b low high).symm.trans (fresh.nulls low high)
    · exact .inl (Nat.not_le.mp room)
  · rintro (small | nulls) between fates after calls ran
    · have same : between = initial := by
        clear ran
        induction calls with
        | refl => rfl
        | tail _ call ih =>
          obtain ⟨fates, _, rfl⟩ := call
          subst ih
          exact ((Stepwise.create_ends_small small).weaken fun _ _ ended => ended.1).ended fates
      subst same
      exact absurd rfl ((Stepwise.create_ends_small small).done ran).2
    · have kept : Stepwise.Kept (inodeBlocks z nInodes) between := by
        clear ran
        induction calls with
        | refl => exact ⟨nulls, .inl clear⟩
        | tail _ call ih =>
          obtain ⟨fates, _, rfl⟩ := call
          exact ((Stepwise.create_ends ih).weaken fun _ _ ended => ended.1).ended fates
      exact ((Stepwise.create_ends kept).done ran).2 rfl

end Restart
end Egos.Treedisk
