import Egos.Block.Raid1disk

/-! Mirrors that stay equal, and one that never fails and serves every call. -/

namespace Egos.Raid1disk
open Disk

namespace Raid1
variable {n : Nat} {raid : Raid1 n} {fails : Fin n → Bool} {offset : BlockNo} {block : Block} {i j s : Fin n}

@[simp] theorem markBroken_below : (raid.markBroken i).below = raid.below := rfl

@[simp] theorem markBroken_self : (raid.markBroken i).broken i = true := Function.update_self _ _ _

theorem markBroken_other (other : j ≠ i) : (raid.markBroken i).broken j = raid.broken j :=
  Function.update_of_ne other _ _

theorem markBroken_mono (broken : raid.broken j = true) : (raid.markBroken i).broken j = true := by
  by_cases same : j = i
  · rw [same, markBroken_self]
  · rw [markBroken_other same, broken]

@[simp] theorem setBelow_broken {store : Store} : (raid.setBelow i store).broken = raid.broken := rfl

@[simp] theorem setBelow_self {store : Store} : (raid.setBelow i store).below i = store := Function.update_self _ _ _

theorem setBelow_other {store : Store} (other : j ≠ i) : (raid.setBelow i store).below j = raid.below j :=
  Function.update_of_ne other _ _

/-- A block that is read is that of a store that is not broken. -/
theorem readFrom_some {list : List (Fin n)} (found : raid.readFrom fails offset list = some block) :
    ∃ i, raid.broken i = false ∧ raid.readBelow fails offset i = some block := by
  induction list with
  | nil => cases found
  | cons i rest ih =>
    unfold readFrom at found
    cases broken : raid.broken i with
    | true =>
      rw [if_pos broken] at found
      exact ih found
    | false =>
      rw [if_neg (Bool.eq_false_iff.mp broken)] at found
      cases seen : raid.readBelow fails offset i with
      | none =>
        rw [seen] at found
        exact ih found
      | some contents =>
        rw [seen] at found
        exact ⟨i, broken, seen.trans found⟩

/-- One store that can be read is enough. -/
theorem readFrom_isSome {list : List (Fin n)} (member : i ∈ list) (healthy : raid.broken i = false)
    (seen : (raid.readBelow fails offset i).isSome) : (raid.readFrom fails offset list).isSome := by
  induction list with
  | nil => cases member
  | cons head rest ih =>
    unfold readFrom
    rcases List.mem_cons.mp member with rfl | member
    · obtain ⟨contents, seen⟩ := Option.isSome_iff_exists.mp seen
      simp [healthy, seen]
    · split
      · exact ih member
      · split
        · rfl
        · exact ih member

section Rounds
variable {rest : List (Fin n)} {result : Bool}

theorem writeFrom_broken (broken : raid.broken i = true) :
    writeFrom fails offset block (i :: rest) raid result = writeFrom fails offset block rest raid result := by
  rw [writeFrom, if_pos broken]

theorem writeFrom_failed (healthy : raid.broken i = false) (failed : raid.writeBelow fails offset block i = none) :
    writeFrom fails offset block (i :: rest) raid result =
        writeFrom fails offset block rest (raid.markBroken i) result := by
  rw [writeFrom, if_neg (Bool.eq_false_iff.mp healthy), failed]

theorem writeFrom_written {store : Store} (healthy : raid.broken i = false)
    (wrote : raid.writeBelow fails offset block i = some store) :
    writeFrom fails offset block (i :: rest) raid result =
        writeFrom fails offset block rest (raid.setBelow i store) true := by
  rw [writeFrom, if_neg (Bool.eq_false_iff.mp healthy), wrote]

theorem nblocksFrom_broken (broken : raid.broken i = true) :
    nblocksFrom fails (i :: rest) raid = nblocksFrom fails rest raid := by
  rw [nblocksFrom, if_pos broken]

theorem nblocksFrom_failed (healthy : raid.broken i = false) (failed : fails i = true) :
    nblocksFrom fails (i :: rest) raid = nblocksFrom fails rest (raid.markBroken i) := by
  rw [nblocksFrom, if_neg (Bool.eq_false_iff.mp healthy), if_pos failed]

theorem nblocksFrom_answered (healthy : raid.broken i = false) (answered : fails i = false) :
    nblocksFrom fails (i :: rest) raid = (raid, some (raid.below ⟨0, i.pos⟩).size) := by
  rw [nblocksFrom, if_neg (Bool.eq_false_iff.mp healthy), if_neg (Bool.eq_false_iff.mp answered)]

end Rounds

/-- What holds between two rounds of a write to mirrors with contents `old`, where the stores
of `rest` are left: a store that has been passed is broken or written. -/
structure Writing (old : Store) (offset : BlockNo) (block : Block) (rest : List (Fin n)) (raid : Raid1 n)
    (result : Bool) : Prop where
  left : ∀ j ∈ rest, raid.broken j = false → raid.below j = old
  passed : ∀ j ∉ rest, raid.broken j = false → result = true ∧ old.write offset block = some (raid.below j)
  success : result = true → (old.write offset block).isSome

theorem Writing.finish {old : Store} {rest : List (Fin n)} {result : Bool}
    (writing : Writing old offset block rest raid result)
    (nodup : rest.Nodup) (fails : Fin n → Bool) :
    let (final, result) := writeFrom fails offset block rest raid result
    Writing old offset block [] final result := by
  induction rest generalizing raid result with
  | nil => exact writing
  | cons i rest ih =>
    obtain ⟨absent, nodup⟩ := List.nodup_cons.mp nodup
    have different : ∀ j ∈ rest, j ≠ i := by
      rintro j member rfl
      exact absent member
    cases broken : raid.broken i with
    | true =>
      rw [writeFrom_broken broken]
      refine ih { left := fun j member => writing.left j (List.mem_cons_of_mem _ member), passed := ?_, success := writing.success } nodup
      intro j outside healthy
      refine writing.passed j (fun member => ?_) healthy
      rcases List.mem_cons.mp member with rfl | member
      · exact nomatch healthy.symm.trans broken
      · exact outside member
    | false =>
      have here : raid.below i = old := writing.left i List.mem_cons_self broken
      cases wrote : raid.writeBelow fails offset block i with
      | none =>
        rw [writeFrom_failed broken wrote]
        refine ih { left := fun j member => ?_, passed := fun j outside healthy => ?_, success := writing.success }
          nodup
        · rw [markBroken_other (different j member)]
          exact writing.left j (List.mem_cons_of_mem _ member)
        · have other : j ≠ i := by
            rintro rfl
            exact nomatch healthy.symm.trans markBroken_self
          rw [markBroken_other other] at healthy
          exact writing.passed j (fun member => outside ((List.mem_cons.mp member).resolve_left other)) healthy
      | some store =>
        have done : old.write offset block = some store := by
          unfold writeBelow at wrote
          split at wrote
          · cases wrote
          · rw [← here]; exact wrote
        rw [writeFrom_written broken wrote]
        refine ih { left := fun j member => ?_, passed := fun j outside healthy => ?_, success := fun _ => by rw [done]; rfl } nodup
        · rw [setBelow_other (different j member)]
          exact writing.left j (List.mem_cons_of_mem _ member)
        · by_cases same : j = i
          · rw [same, setBelow_self]
            exact ⟨rfl, done⟩
          · rw [setBelow_other same]
            exact ⟨rfl, (writing.passed j (fun member => outside ((List.mem_cons.mp member).resolve_left same))
              healthy).2⟩

end Raid1

section Mirrors
variable {n : Nat} {raid : Raid1 n} {contents : Store}

/-- The stores that are not broken hold the same. -/
def Agrees (raid : Raid1 n) (contents : Store) : Prop := ∀ i, raid.broken i = false → raid.below i = contents

/-- What the last write to an offset that returned 0 has written. -/
def latest (offset : BlockNo) (initial : Block) (history : List (Call n × Reply)) : Block :=
  history.foldl (fun block entry =>
    match entry with
    | (.write written contents _, .status true) => if written = offset then contents else block
    | _ => block) initial

theorem nblocks_agrees (agrees : Agrees raid contents) (fails : Fin n → Bool) (list : List (Fin n)) :
    Agrees (raid.nblocksFrom fails list).1 contents := by
  induction list generalizing raid with
  | nil => exact agrees
  | cons i rest ih =>
    cases broken : raid.broken i with
    | true =>
      rw [Raid1.nblocksFrom_broken broken]
      exact ih agrees
    | false =>
      cases failed : fails i with
      | true =>
        rw [Raid1.nblocksFrom_failed broken failed]
        refine ih fun j healthy => agrees j ?_
        cases broken : raid.broken j with
        | false => rfl
        | true => exact nomatch (Raid1.markBroken_mono broken).symm.trans healthy
      | false =>
        rw [Raid1.nblocksFrom_answered broken failed]
        exact agrees

theorem write_agrees (agrees : Agrees raid contents) (fails : Fin n → Bool) (offset : BlockNo) (block : Block) :
    (raid.write fails offset block).2 = true ∧ (∃ after, contents.write offset block = some after ∧
        Agrees (raid.write fails offset block).1 after) ∨
      (raid.write fails offset block).2 = false ∧ Agrees (raid.write fails offset block).1 contents := by
  have start : Raid1.Writing contents offset block (List.finRange n) raid false :=
    { left := fun j _ => agrees j, passed := fun j outside => absurd (List.mem_finRange j) outside, success := nofun }
  have final := start.finish (List.nodup_finRange n) fails
  cases result : (raid.write fails offset block).2 with
  | true =>
    obtain ⟨after, wrote⟩ := Option.isSome_iff_exists.mp (final.success result)
    refine .inl ⟨rfl, after, wrote, fun i healthy => ?_⟩
    exact Option.some.inj ((final.passed i nofun healthy).2.symm.trans wrote)
  | false => exact .inr ⟨rfl, fun i healthy => nomatch result.symm.trans (final.passed i nofun healthy).1⟩

theorem exec_agrees (agrees : Agrees raid contents) (call : Call n) :
    ∃ after, Agrees (exec raid call).1 after ∧
      ∀ offset : BlockNo, after.block offset.toNat =
          latest offset (contents.block offset.toNat) [(call, (exec raid call).2)] := by
  cases call with
  | nblocks fails => exact ⟨contents, nblocks_agrees agrees fails _, fun _ => rfl⟩
  | read offset fails => exact ⟨contents, agrees, fun _ => rfl⟩
  | write offset block fails =>
    rcases write_agrees agrees fails offset block with ⟨result, after, wrote, kept⟩ | ⟨result, kept⟩
    · refine ⟨after, kept, fun other => ?_⟩
      change _ = latest other _ [(.write offset block fails, .status (raid.write fails offset block).2)]
      rw [result]
      unfold Store.write at wrote
      split at wrote
      · cases wrote
        change Function.update contents.block offset.toNat block other.toNat = if offset = other then block
          else contents.block other.toNat
        rw [Function.update_apply]
        simp only [UInt32.toNat_inj, eq_comm]
      · cases wrote
    · refine ⟨contents, kept, fun other => ?_⟩
      change _ = latest other _ [(.write offset block fails, .status (raid.write fails offset block).2)]
      rw [result]
      rfl

theorem run_agrees (agrees : Agrees raid contents) (calls : List (Call n)) :
    ∃ after, Agrees (run raid calls).1 after ∧
      ∀ offset : BlockNo, after.block offset.toNat =
          latest offset (contents.block offset.toNat) (run raid calls).2 := by
  induction calls generalizing raid contents with
  | nil => exact ⟨contents, agrees, fun _ => rfl⟩
  | cons call calls ih =>
    obtain ⟨middle, kept, first⟩ := exec_agrees agrees call
    obtain ⟨after, final, rest⟩ := ih kept
    refine ⟨after, final, fun offset => ?_⟩
    rw [rest, first]
    rfl

/-- Whatever fails, the mirrors that count stay equal, and a read that succeeds returns what
was written last. -/
theorem mirrors_agree (n : Nat) (start : Store) (calls : List (Call n)) :
    (∀ i j, (run (.init fun _ => start) calls).1.broken i = false →
      (run (.init fun _ => start) calls).1.broken j = false →
      (run (.init fun _ => start) calls).1.below i = (run (.init fun _ => start) calls).1.below j) ∧
    ∀ offset fails block, (run (.init fun _ => start) calls).1.read fails offset = some block →
      block = latest offset (start.block offset.toNat) (run (.init fun _ => start) calls).2 := by
  have begins : Agrees (.init fun _ => start : Raid1 n) start := fun _ _ => rfl
  obtain ⟨contents, agrees, history⟩ := run_agrees begins calls
  refine ⟨fun i j left right => (agrees i left).trans (agrees j right).symm, fun offset fails block found => ?_⟩
  obtain ⟨i, healthy, seen⟩ := Raid1.readFrom_some found
  unfold Raid1.readBelow at seen
  split at seen
  · cases seen
  · rw [agrees i healthy] at seen
    unfold Store.read at seen
    split at seen
    · cases seen
      exact history offset
    · cases seen

end Mirrors

section Survivor
variable {n : Nat} {raid : Raid1 n} {s : Fin n} {size : BlockNo} {call : Call n}

/-- The store `s` does not fail while the call is served. It is asked for its size only if it
is the first one. -/
def Call.Spares (s : Fin n) : Call n → Prop
  | .nblocks fails => s.val = 0 → ∀ i, fails i = false
  | .read _ fails => fails s = false
  | .write _ _ fails => fails s = false

def Call.InRange (size : BlockNo) : Call n → Prop
  | .nblocks _ => True
  | .read offset _ => offset < size
  | .write offset _ _ => offset < size

/-- The first store answers when it is asked on behalf of `s`, or earlier. -/
def Answers (s : Fin n) (raid : Raid1 n) : Call n → Prop
  | .nblocks fails => ∃ i ≤ s, raid.broken i = false ∧ fails i = false
  | .read .. | .write .. => True

def Reply.Served (size : BlockNo) : Reply → Prop
  | .size nblocks => nblocks = some size
  | .block contents => contents.isSome = true
  | .status ok => ok = true

def AllAnswer (s : Fin n) : Raid1 n → List (Call n) → Prop
  | _, [] => True
  | raid, call :: calls => Answers s raid call ∧ AllAnswer s (exec raid call).1 calls

def AllServed (size : BlockNo) (raid : Raid1 n) (calls : List (Call n)) : Prop :=
  ∀ entry ∈ (run raid calls).2, entry.2.Served size

/-- The store that never fails is in use, and all stores have the same size. -/
structure Survives (s : Fin n) (size : BlockNo) (raid : Raid1 n) : Prop where
  healthy : raid.broken s = false
  sizes : ∀ i, (raid.below i).size = size

namespace Survives

theorem nblocks {fails : Fin n → Bool} (survives : Survives s size raid) {i : Fin n} (before : i ≤ s)
    (healthy : raid.broken i = false)
    (answered : fails i = false) {list : List (Fin n)} (sorted : list.Pairwise (· < ·)) (member : i ∈ list) :
    (raid.nblocksFrom fails list).2 = some size ∧ Survives s size (raid.nblocksFrom fails list).1 := by
  induction list generalizing raid with
  | nil => cases member
  | cons head rest ih =>
    obtain ⟨first, sorted⟩ := List.pairwise_cons.mp sorted
    cases broken : raid.broken head with
    | true =>
      rw [Raid1.nblocksFrom_broken broken]
      refine ih survives healthy sorted ((List.mem_cons.mp member).resolve_left ?_)
      rintro rfl
      exact nomatch healthy.symm.trans broken
    | false =>
      cases failed : fails head with
      | true =>
        have member : i ∈ rest := (List.mem_cons.mp member).resolve_left
          (by rintro rfl; exact nomatch answered.symm.trans failed)
        have apart : i ≠ head := (first i member).ne'
        have apart' : s ≠ head := ((first i member).trans_le before).ne'
        rw [Raid1.nblocksFrom_failed broken failed]
        exact ih ⟨(Raid1.markBroken_other apart').trans survives.healthy, survives.sizes⟩
          ((Raid1.markBroken_other apart).trans healthy) sorted member
      | false =>
        rw [Raid1.nblocksFrom_answered broken failed]
        exact ⟨congrArg some (survives.sizes _), survives⟩

theorem read {fails : Fin n → Bool} {offset : BlockNo} (survives : Survives s size raid) (spared : fails s = false)
    (inside : offset < size) : (raid.read fails offset).isSome := by
  refine Raid1.readFrom_isSome (List.mem_finRange s) survives.healthy ?_
  unfold Raid1.readBelow Store.read
  rw [if_neg (Bool.eq_false_iff.mp spared), if_pos (survives.sizes s ▸ inside)]
  rfl

theorem write {fails : Fin n → Bool} {offset : BlockNo} {block : Block} (survives : Survives s size raid)
    (spared : fails s = false)
    (inside : offset < size) {list : List (Fin n)} {result : Bool} (pending : s ∈ list ∨ result = true) :
    (raid.writeFrom fails offset block list result).2 = true ∧
        Survives s size (raid.writeFrom fails offset block list result).1 := by
  induction list generalizing raid result with
  | nil => exact ⟨pending.resolve_left nofun, survives⟩
  | cons i rest ih =>
    cases broken : raid.broken i with
    | true =>
      rw [Raid1.writeFrom_broken broken]
      refine ih survives (pending.imp_left fun member => (List.mem_cons.mp member).resolve_left ?_)
      rintro rfl
      exact nomatch survives.healthy.symm.trans broken
    | false =>
      cases wrote : raid.writeBelow fails offset block i with
      | none =>
        have apart : s ≠ i := by
          rintro rfl
          unfold Raid1.writeBelow Store.write at wrote
          rw [if_neg (Bool.eq_false_iff.mp spared), if_pos (survives.sizes s ▸ inside)] at wrote
          cases wrote
        rw [Raid1.writeFrom_failed broken wrote]
        exact ih ⟨(Raid1.markBroken_other apart).trans survives.healthy, survives.sizes⟩
          (pending.imp_left fun member => (List.mem_cons.mp member).resolve_left apart)
      | some store =>
        have kept : store.size = size := by
          unfold Raid1.writeBelow Store.write at wrote
          split at wrote
          · cases wrote
          · split at wrote
            · cases wrote
              exact survives.sizes i
            · cases wrote
        have written : Survives s size (raid.setBelow i store) := by
          refine ⟨survives.healthy, fun j => ?_⟩
          by_cases same : j = i
          · rw [same, Raid1.setBelow_self, kept]
          · rw [Raid1.setBelow_other same, survives.sizes]
        rw [Raid1.writeFrom_written broken wrote]
        exact ih written (.inr rfl)

theorem exec (survives : Survives s size raid) (spares : call.Spares s) (inside : call.InRange size)
    (answers : Answers s raid call) :
    (Raid1disk.exec raid call).2.Served size ∧ Survives s size (Raid1disk.exec raid call).1 := by
  cases call with
  | nblocks fails =>
    obtain ⟨i, before, healthy, answered⟩ := answers
    exact survives.nblocks before healthy answered (List.pairwise_lt_finRange n) (List.mem_finRange i)
  | read offset fails => exact ⟨survives.read spares inside, survives⟩
  | write offset block fails => exact survives.write spares inside (.inl (List.mem_finRange s))

end Survives

/-- Nothing repairs a broken store. -/
theorem nblocks_broken {fails : Fin n → Bool} {list : List (Fin n)} (broken : raid.broken s = true) :
    (raid.nblocksFrom fails list).1.broken s = true := by
  induction list generalizing raid with
  | nil => exact broken
  | cons i rest ih =>
    cases here : raid.broken i with
    | true => rw [Raid1.nblocksFrom_broken here]; exact ih broken
    | false =>
      cases failed : fails i with
      | true => rw [Raid1.nblocksFrom_failed here failed]; exact ih (Raid1.markBroken_mono broken)
      | false => rw [Raid1.nblocksFrom_answered here failed]; exact broken

theorem write_broken {fails : Fin n → Bool} {offset : BlockNo} {block : Block} {list : List (Fin n)} {result : Bool}
    (broken : raid.broken s = true) : (raid.writeFrom fails offset block list result).1.broken s = true := by
  induction list generalizing raid result with
  | nil => exact broken
  | cons i rest ih =>
    cases here : raid.broken i with
    | true => rw [Raid1.writeFrom_broken here]; exact ih broken
    | false =>
      cases wrote : raid.writeBelow fails offset block i with
      | none => rw [Raid1.writeFrom_failed here wrote]; exact ih (Raid1.markBroken_mono broken)
      | some store => rw [Raid1.writeFrom_written here wrote]; exact ih broken

theorem exec_broken (broken : raid.broken s = true) (call : Call n) : (exec raid call).1.broken s = true := by
  cases call with
  | nblocks fails => exact nblocks_broken broken
  | read offset fails => exact broken
  | write offset block fails => exact write_broken broken

/-- A store is marked as broken when the first store has failed in its place. -/
theorem nblocks_breaks {fails : Fin n → Bool} {list : List (Fin n)} (sorted : list.Pairwise (· < ·)) (member : s ∈ list)
    (silent : ∀ i ≤ s, raid.broken i = false → fails i = true) : (raid.nblocksFrom fails list).1.broken s = true := by
  induction list generalizing raid with
  | nil => cases member
  | cons i rest ih =>
    obtain ⟨first, sorted⟩ := List.pairwise_cons.mp sorted
    have before : i ≤ s := by
      rcases List.mem_cons.mp member with rfl | member
      · exact le_refl _
      · exact (first s member).le
    cases here : raid.broken i with
    | true =>
      rw [Raid1.nblocksFrom_broken here]
      rcases List.mem_cons.mp member with rfl | member
      · exact nblocks_broken here
      · exact ih sorted member silent
    | false =>
      rw [Raid1.nblocksFrom_failed here (silent i before here)]
      rcases List.mem_cons.mp member with rfl | member
      · exact nblocks_broken Raid1.markBroken_self
      · refine ih sorted member fun j le healthy => silent j le ?_
        cases broken : raid.broken j with
        | false => rfl
        | true => exact nomatch (Raid1.markBroken_mono broken).symm.trans healthy

def loneRead (s : Fin n) (offset : BlockNo) : Call n := .read offset fun i => i ≠ s

theorem loneRead_fails {offset : BlockNo} (broken : raid.broken s = true) (calls : List (Call n)) :
    ¬AllServed size raid (calls ++ [loneRead s offset]) := by
  induction calls generalizing raid with
  | nil =>
    intro served
    obtain ⟨block, found⟩ := Option.isSome_iff_exists.mp (served _ List.mem_cons_self)
    obtain ⟨i, healthy, seen⟩ := Raid1.readFrom_some found
    have other : i ≠ s := by
      rintro rfl
      exact nomatch healthy.symm.trans broken
    unfold Raid1.readBelow at seen
    rw [if_pos (decide_eq_true other)] at seen
    cases seen
  | cons call calls ih =>
    intro served
    exact ih (exec_broken broken call) fun entry member => served entry (List.mem_cons_of_mem _ member)

theorem allAnswer_append {offset : BlockNo} (calls : List (Call n)) (answer : AllAnswer s raid calls) :
    AllAnswer s raid (calls ++ [loneRead s offset]) := by
  induction calls generalizing raid with
  | nil => exact ⟨trivial, trivial⟩
  | cons call calls ih => exact ⟨answer.1, ih answer.2⟩

theorem Survives.run (survives : Survives s size raid) {calls : List (Call n)}
    (spared : ∀ call ∈ calls, call.Spares s ∧ call.InRange size) (answer : AllAnswer s raid calls) :
    AllServed size raid calls := by
  induction calls generalizing raid with
  | nil => exact nofun
  | cons call calls ih =>
    obtain ⟨spares, within⟩ := spared call List.mem_cons_self
    obtain ⟨served, kept⟩ := survives.exec spares within answer.1
    intro entry member
    rcases List.mem_cons.mp member with rfl | member
    · exact served
    · exact ih kept (fun call member => spared call (List.mem_cons_of_mem _ member)) answer.2 entry member

theorem Survives.answers {offset : BlockNo} (survives : Survives s size raid) {calls : List (Call n)}
    (spared : ∀ call ∈ calls, call.Spares s ∧ call.InRange size)
    (served : AllServed size raid (calls ++ [loneRead s offset])) :
    AllAnswer s raid calls := by
  induction calls generalizing raid with
  | nil => trivial
  | cons call calls ih =>
    obtain ⟨spares, within⟩ := spared call List.mem_cons_self
    have later : AllServed size (Raid1disk.exec raid call).1 (calls ++ [loneRead s offset]) :=
      fun entry member => served entry (List.mem_cons_of_mem _ member)
    by_cases answer : Answers s raid call
    · have kept := (survives.exec spares within answer).2
      exact ⟨answer, ih kept (fun call member => spared call (List.mem_cons_of_mem _ member)) later⟩
    · cases call with
      | nblocks fails =>
        have silent : ∀ i ≤ s, raid.broken i = false → fails i = true := fun i le healthy => by
          cases failed : fails i with
          | true => rfl
          | false => exact absurd ⟨i, le, healthy, failed⟩ answer
        exact absurd later (loneRead_fails (nblocks_breaks (List.pairwise_lt_finRange n)
          (List.mem_finRange s) silent) calls)
      | read | write => exact absurd trivial answer

/-- One store that never fails serves every call, unless the first store fails where this one
should have been asked for its size; then no call depends on it any more. -/
theorem survivor_serves {n : Nat} {s : Fin n} {size : BlockNo} {below : Fin n → Store} {calls : List (Call n)}
    (sizes : ∀ i, (below i).size = size) (spared : ∀ call ∈ calls, call.Spares s ∧ call.InRange size) :
    (AllAnswer s (.init below) calls → AllServed size (.init below) calls) ∧
      ∀ offset < size, AllServed size (.init below) (calls ++ [loneRead s offset]) ↔
          AllAnswer s (.init below) calls := by
  have survives : Survives s size (.init below) := ⟨rfl, sizes⟩
  refine ⟨survives.run spared, fun offset inside => ⟨survives.answers spared, fun answer => ?_⟩⟩
  refine survives.run (fun call member => ?_) (allAnswer_append calls answer)
  rcases List.mem_append.mp member with member | member
  · exact spared call member
  · cases List.mem_singleton.mp member
    exact ⟨decide_eq_false (not_not.mpr rfl), inside⟩

def blank : Store := { size := 1, block := fun _ => nullBlock, reported := by decide }

theorem survivor_serves_pair :
    (Call.nblocks (fun _ => false) : Call 2).Spares 1 ∧
      AllServed 1 (.init fun _ : Fin 2 => blank) [.nblocks fun _ => false, .write 0 nullBlock fun i => i = 0] := by
  refine ⟨fun _ _ => rfl, (survivor_serves (s := 1) (fun _ => rfl) ?_).1 ⟨⟨0, by decide, rfl, rfl⟩, trivial, trivial⟩⟩
  intro call member
  rcases List.mem_cons.mp member with rfl | member
  · exact ⟨nofun, trivial⟩
  · cases List.mem_singleton.mp member
    exact ⟨rfl, show (0 : BlockNo) < 1 by decide⟩

/-- The second of two stores never fails, but only the first one is asked for its size. -/
theorem first_store_asked :
    (Call.nblocks (fun _ => true) : Call 2).Spares 1 ∧
        ¬AllServed 1 (.init fun _ : Fin 2 => blank) [.nblocks fun _ => true] :=
  ⟨nofun, fun served => nomatch served _ List.mem_cons_self⟩

end Survivor
end Egos.Raid1disk
