import Egos.Proofs.MyallocLists

/-! Runs of the wrapper around malloc: as long as no area is too large, the list is that of
the live areas after every call, and every call returns. -/

namespace Egos.Myalloc
open Library Library.Prog Links

/-- The area, its header and its tail fit into a `size_t`, and an area that is given back
has, with its tail, less than 2^32 bytes. -/
structure Modest (s : System) (label : Label) : Prop where
  fits : ∀ total asked, label.call.allocates = some (total, asked) → headerSize + asked + 16 < 2 ^ 64
  small : ∀ mh asked, label.call.releases = some mh → s.live mh = some asked → asked + 16 < 2 ^ 32

/-- The list holds the live areas once each, forwards and backwards. -/
def Sound (s : System) : Prop := ∃ nodes, Intact s.store s.live nodes

/-- The list is right, and my_check comes to an end without a failed assertion. -/
structure Kept (s : System) : Prop where
  sound : Sound s
  checks : ∃ fuel, myCheck fuel s.store = .done () s.store

/-- The call returns, and my_realloc has kept the bytes that both areas have room for. -/
def Answered (s : System) (label : Label) : Prop :=
  ∃ after, label.call.perform label.block s.store = .done () after ∧
    ∀ mh size file line asked, label.call = .realloc (some mh) size file line → s.live mh = some asked →
      Copied s.store after mh label.block.addr (min asked size.toNat)

variable {s : Store} {live : Addr → Option Nat} {nodes : List Addr} {block : Block}

theorem myAlloc_spec (intact : Intact s live nodes) {count size : Size} (clr : Bool) (free : s.heap block.addr = none)
    (length : block.bytes.length = (blockSize (count * size)).toNat)
    (fits : headerSize + (count * size).toNat + 16 < 2 ^ 64) :
    ∃ after, myAlloc block count size clr s = .done () after ∧
      Intact after (Function.update live block.addr (some (count * size).toNat)) (block.addr :: nodes) := by
  obtain ⟨grown, allocates, intact, _⟩ := doAlloc_spec intact free length (by unfold headerSize at fits; omega)
  cases clr with
  | false => exact ⟨grown, Prog.bind_done allocates, intact⟩
  | true =>
    have inside : 0 + (List.replicate (count * size).toNat (0 : UInt8)).length ≤ (count * size).toNat := by simp
    obtain ⟨after, clears, intact, _⟩ := intact.write (Function.update_self ..) inside
    exact ⟨after, (Prog.bind_done allocates).trans clears, intact⟩

theorem myAllocExt_spec (intact : Intact s live nodes) {size ext : Size} (free : s.heap block.addr = none)
    (length : block.bytes.length = (blockSize (size + ext)).toNat)
    (fits : headerSize + (size.toNat + ext.toNat) + 16 < 2 ^ 64) :
    ∃ after, myAllocExt block size ext s = .done () after ∧
      Intact after (Function.update live block.addr (some (size.toNat + ext.toNat))) (block.addr :: nodes) := by
  have total : (size + ext).toNat = size.toNat + ext.toNat := by
    rw [UInt64.toNat_add]
    exact Nat.mod_eq_of_lt (by omega)
  obtain ⟨grown, allocates, intact, _⟩ :=
    doAlloc_spec intact free length (by rw [total]; unfold headerSize at fits; omega)
  rw [total] at intact
  have inside : 0 + (List.replicate size.toNat (0 : UInt8)).length ≤ size.toNat + ext.toNat := by simp
  obtain ⟨after, clears, intact, _⟩ := intact.write (Function.update_self ..) inside
  exact ⟨after, (Prog.bind_done allocates).trans clears, intact⟩

/-- A legal call of modest size returns and keeps the list right. -/
theorem perform_spec {s : System} {label : Label} (intact : Intact s.store s.live nodes)
    (legal : Legal s label.block label.call)
    (modest : Modest s label) : ∃ after rest, label.call.perform label.block s.store = .done () after ∧
      Intact after (s.lives label.block label.call) rest ∧
      ∀ mh size file line asked, label.call = .realloc (some mh) size file line → s.live mh = some asked →
        Copied s.store after mh label.block.addr (min asked size.toNat) := by
  obtain ⟨call, block⟩ := label
  obtain ⟨fits, small⟩ := modest
  cases call with
  | alloc count size clr =>
    obtain ⟨free, length⟩ := legal.block _ _ rfl
    have fits := fits _ _ rfl
    have total : (count * size).toNat = count.toNat * size.toNat := by
      rw [UInt64.toNat_mul]
      exact Nat.mod_eq_of_lt (by omega)
    obtain ⟨after, ran, intact⟩ := myAlloc_spec intact clr free length (total ▸ fits)
    rw [total] at intact
    exact ⟨after, _, ran, intact, nofun⟩
  | allocExt size ext =>
    obtain ⟨free, length⟩ := legal.block _ _ rfl
    obtain ⟨after, ran, intact⟩ := myAllocExt_spec intact free length (fits _ _ rfl)
    exact ⟨after, _, ran, intact, nofun⟩
  | realloc ptr size file line =>
    obtain ⟨free, length⟩ := legal.block _ _ rfl
    have bound := fits _ _ rfl
    cases ptr with
    | none =>
      have total : 1 * size = size := UInt64.one_mul size
      obtain ⟨after, ran, intact⟩ := myAlloc_spec intact false free (by rw [total]; exact length)
        (by rw [total]; exact bound)
      rw [total] at intact
      exact ⟨after, _, ran, intact, nofun⟩
    | some mh =>
      obtain ⟨asked, here⟩ := Option.ne_none_iff_exists'.mp (legal.pointer mh rfl)
      obtain ⟨after, rest, ran, intact, copied⟩ := myRealloc_spec intact here (small mh asked rfl here) free length
        (by unfold headerSize at bound; omega) file line
      refine ⟨after, rest, ran, intact, ?_⟩
      rintro _ _ _ _ amount ⟨⟩ there
      cases here.symm.trans there
      exact copied
  | free ptr file line =>
    cases ptr with
    | none => exact ⟨s.store, nodes, rfl, intact, nofun⟩
    | some mh =>
      obtain ⟨asked, here⟩ := Option.ne_none_iff_exists'.mp (legal.pointer mh rfl)
      obtain ⟨after, rest, ran, intact, _⟩ := myFree_spec intact here (small mh asked rfl here) file line
      exact ⟨after, rest, ran, intact, nofun⟩
  | write ptr offset bytes =>
    obtain ⟨asked, here, inside⟩ := legal.inside ptr offset bytes rfl
    obtain ⟨after, ran, intact, _⟩ := intact.write here inside
    exact ⟨after, nodes, ran, intact, nofun⟩

theorem started_sound : Sound started :=
  ⟨[], ⟨rfl, List.nodup_nil⟩, trivial, fun _ => ⟨nofun, fun live => absurd rfl live⟩, nofun⟩

theorem Sound.step {before after : System} {label : Label} (sound : Sound before)
    (step : Guarded Modest Step before label after) : Sound after := by
  obtain ⟨nodes, intact⟩ := sound
  obtain ⟨modest, step⟩ := step
  cases step with
  | call legal ran =>
    obtain ⟨last, rest, performed, intact, _⟩ := perform_spec intact legal modest
    obtain ⟨_, rfl⟩ := Outcome.done.inj (ran.symm.trans performed)
    exact ⟨rest, intact⟩

theorem Sound.kept {s : System} (sound : Sound s) : Kept s := by
  obtain ⟨nodes, intact⟩ := sound
  exact ⟨⟨nodes, intact⟩, nodes.length + 1, intact.checks⟩

/-- In every run of modest calls the list is right after each of them, and the next one returns. -/
theorem list_kept {labels : List Label} {s : System} (run : Run (Guarded Modest Step) started labels s) :
    Kept s ∧ ∀ label, Legal s label.block label.call → Modest s label → Answered s label := by
  have sound : Sound s := run.invariant (fun _ _ _ sound step => sound.step step) started_sound
  refine ⟨sound.kept, fun label legal modest => ?_⟩
  obtain ⟨nodes, intact⟩ := sound
  obtain ⟨after, _, ran, _, copied⟩ := perform_spec intact legal modest
  exact ⟨after, ran, copied⟩

/-! A run can be computed. -/

def permitted (s : System) (label : Label) : Bool :=
  (label.call.allocates.all fun (total, asked) => (s.store.heap label.block.addr).isNone &&
    decide (label.block.bytes.length = (blockSize total).toNat) && decide (headerSize + asked + 16 < 2 ^ 64)) &&
  (label.call.releases.all fun mh => (s.live mh).any fun asked => decide (asked + 16 < 2 ^ 32)) &&
  match label.call with
  | .write mh offset bytes => (s.live mh).any fun asked => decide (offset + bytes.length ≤ asked)
  | _ => true

def next (s : System) (label : Label) : Option System :=
  if permitted s label then
    match label.call.perform label.block s.store with
    | .done () after => some { store := after, live := s.lives label.block label.call }
    | .halted .. => none
  else none

theorem legal_of_permitted {s : System} {label : Label} (allowed : permitted s label = true) :
    Legal s label.block label.call ∧ Modest s label := by
  unfold permitted at allowed
  simp only [Bool.and_eq_true, Option.all_eq_true, Option.any_eq_true, decide_eq_true_eq] at allowed
  obtain ⟨⟨blocks, pointers⟩, inside⟩ := allowed
  refine ⟨⟨fun total asked asks => ?_, fun mh frees => ?_, fun mh offset bytes write => ?_⟩,
    ⟨fun total asked asks => (blocks _ asks).2, fun mh asked frees here => ?_⟩⟩
  · obtain ⟨⟨unused, length⟩, -⟩ := blocks _ asks
    exact ⟨Option.isNone_iff_eq_none.mp unused, length⟩
  · obtain ⟨there, same, -⟩ := pointers mh frees
    rw [same]
    exact Option.some_ne_none _
  · rw [write] at inside
    simpa only [Option.any_eq_true, decide_eq_true_eq] using inside
  · obtain ⟨there, same, small⟩ := pointers mh frees
    cases here.symm.trans same
    exact small

theorem step_of_next {s after : System} {label : Label} (computed : next s label = some after) :
    Guarded Modest Step s label after := by
  unfold next at computed
  split at computed
  · rename_i allowed
    split at computed
    · rename_i ran
      cases computed
      obtain ⟨legal, modest⟩ := legal_of_permitted allowed
      exact ⟨modest, .call legal ran⟩
    · cases computed
  · cases computed

/-- Two areas; the first one is filled and gets larger, and the second one is given back. -/
def smallCalls : List Label :=
  [{ call := .alloc 1 4 true, block := { addr := 1, bytes := List.replicate 84 0 } },
    { call := .alloc 3 5 false, block := { addr := 2, bytes := List.replicate 95 0 } },
    { call := .write 1 0 [7, 8, 9, 10], block := { addr := 3, bytes := [] } },
    { call := .realloc (some 1) 8 "file" 1, block := { addr := 3, bytes := List.replicate 88 0 } },
    { call := .free (some 2) "file" 2, block := { addr := 1, bytes := [] } }]

def shrink : Label := { call := .realloc (some 3) 2 "file" 3, block := { addr := 4, bytes := List.replicate 82 0 } }

private theorem smallCalls_run : (smallCalls.foldlM next started).any
    (fun s => decide (s.live 1 = none) && decide (s.live 2 = none) && permitted s shrink) = true := by decide +kernel

theorem list_kept_small :
    ∃ s, Run (Guarded Modest Step) started smallCalls s ∧ Kept s ∧ s.live 1 = none ∧ s.live 2 = none ∧
      Answered s shrink := by
  obtain ⟨s, ran, left⟩ := (Option.any_eq_true ..).mp smallCalls_run
  simp only [Bool.and_eq_true, decide_eq_true_eq] at left
  obtain ⟨⟨first, second⟩, allowed⟩ := left
  have run : Run (Guarded Modest Step) started smallCalls s := .of_foldlM step_of_next ran
  obtain ⟨kept, answers⟩ := list_kept run
  obtain ⟨legal, modest⟩ := legal_of_permitted allowed
  exact ⟨s, run, kept, first, second, answers shrink legal modest⟩

/-- Together with its tail the area has 2^32 bytes. -/
private def large : Label :=
  { call := .alloc 1 4294967280 false, block := { addr := 1, bytes := List.replicate 4294967360 0 } }

/-- A large area can be allocated, but the call that gives it back does not return. -/
theorem large_area_not_freed :
    ¬ ∀ labels s, Run Step started labels s → Kept s ∧ ∀ label, Legal s label.block label.call → Answered s label := by
  intro always
  have legal : Legal started large.block large.call := by
    refine ⟨?_, nofun, nofun⟩
    rintro _ _ ⟨⟩
    refine ⟨rfl, ?_⟩
    exact List.length_replicate.trans (by decide +kernel)
  have modest : Modest started large := by
    refine ⟨?_, nofun⟩
    rintro _ _ ⟨⟩
    decide +kernel
  obtain ⟨_, none⟩ := started_sound
  obtain ⟨grown, nodes, ran, intact, _⟩ := perform_spec none legal modest
  obtain ⟨_, answered⟩ := always [large] _ (.snoc .nil (.call legal ran))
  have here : started.lives large.block large.call 1 = some 4294967280 := rfl
  have pointer : Legal ⟨grown, started.lives large.block large.call⟩ large.block (.free (some 1) "file" 1) := by
    refine ⟨nofun, ?_, nofun⟩
    rintro _ ⟨⟩ gone
    cases here.symm.trans gone
  obtain ⟨after, frees, _⟩ := answered ⟨.free (some 1) "file" 1, large.block⟩ pointer
  obtain ⟨last, stuck⟩ := myFree_wild intact here (by decide) (by decide) "file" 1
  cases frees.symm.trans stuck

end Egos.Myalloc
