import Egos.Proofs.Raid1diskMirrors

/-! Offsets past the end of healthy mirrors. A read of one does nothing, but a write of one
looks like a failure of every store. -/

namespace Egos.Raid1disk
open Disk

/-- A read or a write that every store can serve, if the offset is in its range. -/
inductive Access where
  | read (offset : BlockNo)
  | write (offset : BlockNo) (block : Block)

namespace Access

def offset : Access → BlockNo
  | read offset => offset
  | write offset _ => offset

def writes : Access → Bool
  | read _ => false
  | write .. => true

def call (n : Nat) : Access → Call n
  | read offset => .read offset fun _ => false
  | write offset block => .write offset block fun _ => false

def error : Access → Reply
  | read _ => .block none
  | write .. => .status false

end Access

variable {n : Nat}

def reached (raid : Raid1 n) (accesses : List Access) : Raid1 n := (run raid (accesses.map (Access.call n))).1

/-- An access past the end returns -1 and leaves everything as it was. One in range succeeds where
there is a store, just as if no access past the end had been made before. -/
def Unharmed (size : BlockNo) (raid : Raid1 n) (accesses : List Access) : Prop :=
  ∀ before access after, accesses = before ++ access :: after →
    (¬ access.offset < size → exec (reached raid before) (access.call n) = (reached raid before, access.error)) ∧
    (access.offset < size → (0 < n → (exec (reached raid before) (access.call n)).2.Served size) ∧
      (exec (reached raid before) (access.call n)).2 =
        (exec (reached raid (before.filter fun access => access.offset < size)) (access.call n)).2)

variable {raid : Raid1 n} {size : BlockNo} {access : Access}

theorem run_append (calls later : List (Call n)) :
    (run raid (calls ++ later)).1 = (run (run raid calls).1 later).1 := by
  induction calls generalizing raid with
  | nil => rfl
  | cons call calls ih => exact ih

theorem reached_append (before : List Access) :
    reached raid (before ++ [access]) = (exec (reached raid before) (access.call n)).1 := by
  unfold reached
  rw [List.map_append, run_append]
  rfl

/-- A read past the end. -/
theorem read_outside (sizes : ∀ i, (raid.below i).size = size) {offset : BlockNo} (outside : ¬ offset < size)
    (list : List (Fin n)) :
    raid.readFrom (fun _ => false) offset list = none := by
  induction list with
  | nil => rfl
  | cons i rest ih =>
    have none : raid.readBelow (fun _ => false) offset i = none := by
      unfold Raid1.readBelow Store.read
      rw [if_neg Bool.false_ne_true, if_neg (by rwa [sizes])]
    unfold Raid1.readFrom
    rw [none, ih, ite_self]

/-- Every store that is not broken fails a write past the end. -/
theorem write_outside (healthy : ∀ i, Survives i size raid) {offset : BlockNo} (outside : ¬ offset < size)
    (block : Block) {i : Fin n} :
    ((raid.write (fun _ => false) offset block).1).broken i = true := by
  have breaks : ∀ list : List (Fin n), i ∈ list →
    ∀ {raid : Raid1 n} (result : Bool), (∀ i, (raid.below i).size = size) →
      (raid.writeFrom (fun _ => false) offset block list result).1.broken i = true := by
    intro list member
    induction list with
    | nil => cases member
    | cons j rest ih =>
      intro raid result sizes
      have failed : raid.writeBelow (fun _ => false) offset block j = none := by
        unfold Raid1.writeBelow Store.write
        rw [if_neg Bool.false_ne_true, if_neg (by rwa [sizes])]
      rcases List.mem_cons.mp member with rfl | later
      · cases broken : raid.broken i with
        | true =>
          rw [Raid1.writeFrom_broken broken]
          exact write_broken broken
        | false =>
          rw [Raid1.writeFrom_failed broken failed]
          exact write_broken Raid1.markBroken_self
      · cases broken : raid.broken j with
        | true =>
          rw [Raid1.writeFrom_broken broken]
          exact ih later result sizes
        | false =>
          rw [Raid1.writeFrom_failed broken failed]
          exact ih later result sizes
  exact breaks _ (List.mem_finRange i) false (healthy i).sizes

theorem exec_inside (healthy : ∀ i, Survives i size raid) (inside : access.offset < size) :
    (∀ i, Survives i size (exec raid (access.call n)).1) ∧ (0 < n → (exec raid (access.call n)).2.Served size) := by
  have served : ∀ i, (exec raid (access.call n)).2.Served size ∧ Survives i size (exec raid (access.call n)).1 := by
    intro i
    cases access with
    | read offset => exact (healthy i).exec rfl inside trivial
    | write offset block => exact (healthy i).exec rfl inside trivial
  exact ⟨fun i => (served i).2, fun positive => (served ⟨0, positive⟩).1⟩

theorem exec_read_outside (healthy : ∀ i, Survives i size raid) (outside : ¬ access.offset < size)
    (reads : access.writes = false) :
    exec raid (access.call n) = (raid, access.error) := by
  cases access with
  | write offset block => cases reads
  | read offset =>
    cases n with
    | zero => rfl
    | succ m =>
      have none := read_outside (healthy 0).sizes outside (List.finRange (m + 1))
      exact congrArg (fun contents => (raid, Reply.block contents)) none

/-- As long as no write is past the end, the mirrors are those of a run without the accesses past the end. -/
theorem reached_inside (healthy : ∀ i, Survives i size raid) {accesses : List Access}
    (bounded : ∀ access ∈ accesses, access.writes = true → access.offset < size) :
    (∀ i, Survives i size (reached raid accesses)) ∧
      reached raid accesses = reached raid (accesses.filter fun access => access.offset < size) := by
  induction accesses using List.reverseRecOn with
  | nil => exact ⟨healthy, rfl⟩
  | append_singleton before access ih =>
    obtain ⟨kept, same⟩ := ih fun access member => bounded access (List.mem_append_left _ member)
    rw [List.filter_append, reached_append]
    by_cases inside : access.offset < size
    · rw [List.filter_cons_of_pos (by simpa using inside), List.filter_nil, reached_append, ← same]
      exact ⟨(exec_inside kept inside).1, rfl⟩
    · have reads : access.writes = false := by
        cases writes : access.writes with
        | false => rfl
        | true => exact absurd (bounded access (by simp) writes) inside
      rw [List.filter_cons_of_neg (by simpa using inside), List.filter_nil, List.append_nil, ← same,
        exec_read_outside kept inside reads]
      exact ⟨kept, rfl⟩

/-- Without stores every call fails and changes nothing. -/
theorem exec_none (raid : Raid1 0) (access : Access) : exec raid (access.call 0) = (raid, access.error) := by
  cases access with
  | read offset => rfl
  | write offset block => rfl

/-- Accesses past the end of healthy mirrors are harmless exactly if none of them is a write. -/
theorem unharmed_iff {below : Fin n → Store} (sizes : ∀ i, (below i).size = size) (accesses : List Access) :
    Unharmed size (.init below) accesses ↔ n = 0 ∨ ∀ access ∈ accesses, access.writes = true →
        access.offset < size := by
  have healthy : ∀ i, Survives i size (.init below) := fun i => ⟨rfl, sizes⟩
  constructor
  · intro unharmed
    rcases Nat.eq_zero_or_pos n with none | positive
    · exact .inl none
    refine .inr ?_
    -- the first write past the end would break the stores
    induction accesses using List.reverseRecOn with
    | nil => exact nofun
    | append_singleton before newest ih =>
      have bounded : ∀ access ∈ before, access.writes = true → access.offset < size := by
        refine ih fun first access after split => unharmed first access (after ++ [newest]) ?_
        rw [split, List.append_assoc]
        rfl
      intro last member writes
      rcases List.mem_append.mp member with earlier | here
      · exact bounded last earlier writes
      · cases List.mem_singleton.mp here
        by_contra outside
        have same := (unharmed before _ [] rfl).1 outside
        have kept := (reached_inside healthy bounded).1
        cases newest with
        | read offset => cases writes
        | write offset block =>
          have broken : ((reached (.init below) before).write (fun _ => false) offset block).1.broken ⟨0, positive⟩ =
              true :=
            write_outside kept outside block
          have state : ((reached (.init below) before).write (fun _ => false) offset block).1 =
              reached (.init below) before :=
            congrArg Prod.fst same
          rw [state, (kept ⟨0, positive⟩).healthy] at broken
          cases broken
  · rintro (rfl | bounded)
    · exact fun before access after split =>
        ⟨fun _ => exec_none _ access, fun _ => ⟨nofun, by rw [exec_none, exec_none]⟩⟩
    · intro before access after split
      have earlier : ∀ access ∈ before, access.writes = true → access.offset < size :=
        fun access member => bounded access (by rw [split]; exact List.mem_append_left _ member)
      obtain ⟨kept, same⟩ := reached_inside healthy earlier
      refine ⟨fun outside => exec_read_outside kept outside ?_,
        fun inside => ⟨(exec_inside kept inside).2, by rw [same]⟩⟩
      cases writes : access.writes with
      | false => rfl
      | true => exact absurd (bounded access (by rw [split]; simp) writes) outside

theorem unharmed_pair : Unharmed 1 (.init fun _ : Fin 2 => blank) [.read 5, .write 0 nullBlock, .read 0] := by
  have sizes : ∀ i : Fin 2, ((fun _ => blank : Fin 2 → Store) i).size = 1 := fun _ => rfl
  exact (unharmed_iff sizes _).mpr (.inr (by decide))

/-- One write past the end of two good disks, and the block in range cannot be read any more. -/
theorem write_past_end :
    exec (reached (.init fun _ : Fin 2 => blank) []) ((Access.read 0).call 2) =
      (.init fun _ => blank, .block (some nullBlock)) ∧
    (exec (reached (.init fun _ : Fin 2 => blank) [.write 1 nullBlock]) ((Access.read 0).call 2)).2 =
      (Access.read 0).error ∧
    ¬ Unharmed 1 (.init fun _ : Fin 2 => blank) [.write 1 nullBlock, .read 0] := by
  refine ⟨rfl, rfl, fun unharmed => ?_⟩
  have served := ((unharmed [.write 1 nullBlock] (.read 0) [] rfl).2 (by decide)).1 (by decide)
  cases served

end Egos.Raid1disk
