import Egos.Apps.Shell
import Mathlib.Data.List.TakeWhile

/-! The words of a command line. -/

namespace Egos.Shell
open Strings

def ends (c : UInt8) : Bool := c = 0 || c = newline || c = chr '#' || c = chr '&'

def isBlank (c : UInt8) : Bool := c = chr ' ' || c = chr '\t'

def command (line : List UInt8) : List UInt8 := line.takeWhile fun c => !ends c

def words (u : List UInt8) : List (List UInt8) := (u.splitOnP isBlank).filter (· ≠ [])

def inBackground (line : List UInt8) : Bool := line.find? ends = some (chr '&')

/-! The rules of the syntax, from the left. -/

variable {line rest word : List UInt8} {c : UInt8}

theorem ends_iff : ends c = true ↔ c = 0 ∨ c = newline ∨ c = chr '#' ∨ c = chr '&' := by
  simp [ends, or_assoc]

theorem not_ends_of_isBlank (blank : isBlank c = true) : ends c = false := by
  unfold isBlank at blank
  rw [Bool.or_eq_true, decide_eq_true_eq, decide_eq_true_eq] at blank
  rcases blank with rfl | rfl <;> decide

theorem isblank_ascii (ascii : c < 128) : isblank c = isBlank c := by
  have all : ∀ n < 128, isblank (UInt8.ofNat n) = isBlank (UInt8.ofNat n) := by decide +kernel
  have same := all c.toNat (UInt8.lt_iff_toNat_lt.mp ascii)
  rwa [UInt8.ofNat_toNat] at same

theorem inWord_ascii (ascii : c < 128) : inWord c = (!ends c && !isBlank c) := by
  unfold inWord ends
  rw [isblank_ascii ascii]
  simp [Bool.and_assoc]

/-- Blanks in front do not count. -/
theorem command_blanks {blanks : List UInt8} (all : ∀ c ∈ blanks, isBlank c = true) :
    words (command (blanks ++ rest)) = words (command rest) ∧ inBackground (blanks ++ rest) = inBackground rest := by
  induction blanks with
  | nil => exact ⟨rfl, rfl⟩
  | cons c blanks ih =>
    have blank := all c List.mem_cons_self
    have goes := not_ends_of_isBlank blank
    obtain ⟨same, ended⟩ := ih fun c member => all c (List.mem_cons_of_mem _ member)
    refine ⟨?_, ?_⟩
    · rw [← same]
      unfold command words
      simp [goes, List.splitOnP_cons_eq_if_modifyHead, blank]
    · rw [← ended]
      unfold inBackground
      simp [goes]

theorem command_ended (stops : ends c = true) :
    words (command (c :: rest)) = [] ∧ inBackground (c :: rest) = decide (c = chr '&') := by
  unfold command inBackground
  simp [stops, words]

theorem words_singleton (some : word ≠ []) (solid : ∀ c ∈ word, isBlank c = false) : words word = [word] := by
  unfold words
  rw [List.splitOnP_eq_singleton solid]
  simp [some]

/-- A word up to the end of the command. -/
theorem command_last (some : word ≠ []) (solid : ∀ c ∈ word, ends c = false ∧ isBlank c = false)
    (stops : ∀ c ∈ rest.head?, ends c = true) :
    words (command (word ++ rest)) = [word] ∧ inBackground (word ++ rest) = decide (rest.head? = .some (chr '&')) := by
  have whole : command (word ++ rest) = word := by
    unfold command
    rw [List.takeWhile_append_of_pos (by simpa using fun c member => (solid c member).1)]
    cases rest with
    | nil => simp
    | cons c rest => simp [stops c rfl]
  rw [whole]
  refine ⟨words_singleton some fun c member => (solid c member).2, ?_⟩
  unfold inBackground
  rw [List.find?_append, List.find?_eq_none.mpr (by simpa using fun c member => (solid c member).1), Option.none_or]
  cases rest with
  | nil => rfl
  | cons c rest => simp [stops c rfl]

/-- A word with a blank behind it. -/
theorem command_word (some : word ≠ []) (solid : ∀ c ∈ word, ends c = false ∧ isBlank c = false)
    (blank : isBlank c = true) :
    words (command (word ++ c :: rest)) = word :: words (command rest) ∧
        inBackground (word ++ c :: rest) = inBackground rest := by
  have goes := not_ends_of_isBlank blank
  have whole : command (word ++ c :: rest) = word ++ c :: command rest := by
    unfold command
    rw [List.takeWhile_append_of_pos (by simpa using fun c member => (solid c member).1)]
    simp [goes]
  constructor
  · rw [whole]
    unfold words
    rw [List.splitOnP_append_cons_of_forall_mem (fun c member => (solid c member).2) c blank]
    simp [some]
  · unfold inBackground
    rw [List.find?_append, List.find?_eq_none.mpr (by simpa using fun c member => (solid c member).1), Option.none_or]
    simp [goes]

/-! The loop. -/

variable {front : List UInt8}

theorem byteAt_length (front rest : List UInt8) : byteAt (front ++ rest) front.length = rest.headD 0 := by
  unfold byteAt
  cases rest <;> simp

theorem str_length (nonzero : 0 ∉ word) (zero : rest.headD 0 = 0) :
    str (front ++ (word ++ rest)) front.length = word := by
  unfold str
  have all : ∀ c ∈ word, decide (c ≠ 0) = true := fun c member => decide_eq_true fun same => nonzero (same ▸ member)
  rw [List.drop_left, List.takeWhile_append_of_pos all]
  cases rest with
  | nil => simp
  | cons c rest =>
    have zero : c = 0 := zero
    simp [zero]

theorem skipBlanks_length (front rest : List UInt8) :
    skipBlanks (front ++ rest) front.length = (front ++ rest.takeWhile isblank).length := by
  unfold skipBlanks
  rw [List.drop_left, List.length_append]

theorem endOfWord_length (front rest : List UInt8) :
    endOfWord (front ++ rest) front.length = (front ++ rest.takeWhile inWord).length := by
  unfold endOfWord
  rw [List.drop_left, List.length_append]

/-- What the loop is to find in the rest of the line. -/
def Finds (front rest : List UInt8) (newArgv : List Nat) (result : Split) : Prop :=
  if MAX_ARGS < newArgv.length + (words (command rest)).length then result = .tooMany
  else ∃ after found, result = .words (front ++ after) (newArgv ++ found) (inBackground rest) ∧
    found.map (str (front ++ after)) = words (command rest)

variable {newArgv : List Nat} {result : Split}

theorem Finds.blanks {blanks : List UInt8} (all : ∀ c ∈ blanks, isBlank c = true)
    (finds : Finds (front ++ blanks) rest newArgv result) :
    Finds front (blanks ++ rest) newArgv result := by
  obtain ⟨same, ended⟩ := @command_blanks rest blanks all
  unfold Finds at finds ⊢
  rw [same, ended]
  refine Or.elim (ite_prop_iff_or.mp finds) (fun ⟨many, full⟩ => ?_) fun ⟨few, after, found, here, strings⟩ => ?_
  · rwa [if_pos many]
  · rw [if_neg few]
    refine ⟨blanks ++ after, found, ?_, ?_⟩
    · rw [here, List.append_assoc]
    · rw [← strings, List.append_assoc]

/-- There are no more words. -/
theorem Finds.none (few : newArgv.length ≤ MAX_ARGS) (none : words (command rest) = []) :
    Finds front rest newArgv (.words (front ++ rest) newArgv (inBackground rest)) := by
  unfold Finds
  rw [none, List.length_nil, Nat.add_zero, if_neg (Nat.not_lt.mpr few)]
  exact ⟨rest, [], by rw [List.append_nil], rfl⟩

theorem Finds.tooMany (full : newArgv.length = MAX_ARGS) (some : words (command rest) ≠ []) :
    Finds front rest newArgv .tooMany := by
  have one := List.length_pos_iff.mpr some
  unfold Finds
  rw [if_pos (by omega)]

/-- The last word, and the character behind it has been overwritten if there is one. -/
theorem Finds.last {after : List UInt8} (few : newArgv.length < MAX_ARGS) (nonzero : 0 ∉ word)
    (zero : after.headD 0 = 0)
    (one : words (command rest) = [word]) :
    Finds front rest newArgv (.words (front ++ (word ++ after)) (newArgv ++ [front.length]) (inBackground rest)) := by
  unfold Finds
  rw [one, List.length_singleton, if_neg (Nat.not_lt.mpr few)]
  exact ⟨word ++ after, [front.length], rfl, by rw [List.map_singleton, str_length nonzero zero]⟩

/-- A word and what is found behind it. -/
theorem Finds.cons (nonzero : 0 ∉ word) (blank : isBlank c = true) (some : word ≠ [])
    (solid : ∀ c ∈ word, ends c = false ∧ isBlank c = false)
    (finds : Finds (front ++ (word ++ [0])) rest (newArgv ++ [front.length]) result) :
    Finds front (word ++ c :: rest) newArgv result := by
  obtain ⟨same, ended⟩ := @command_word rest word c some solid blank
  unfold Finds at finds ⊢
  rw [List.length_append, List.length_singleton] at finds
  rw [same, ended, List.length_cons, ← Nat.add_assoc, Nat.add_right_comm]
  refine Or.elim (ite_prop_iff_or.mp finds) (fun ⟨many, full⟩ => ?_) fun ⟨few, after, found, here, strings⟩ => ?_
  · rwa [if_pos many]
  · rw [if_neg few]
    have same : front ++ (word ++ [0]) ++ after = front ++ (word ++ 0 :: after) := by simp
    rw [same] at here strings
    refine ⟨word ++ 0 :: after, front.length :: found, ?_, ?_⟩
    · rw [here, List.append_assoc, List.singleton_append]
    · rw [List.map_cons, strings, str_length nonzero rfl]

theorem skipBlanks_still (first : isblank (rest.headD 0) = false) :
    skipBlanks (front ++ rest) front.length = front.length := by
  rw [skipBlanks_length]
  cases rest with
  | nil => simp
  | cons c rest =>
    have first : isblank c = false := first
    simp [first]

theorem headD_dropWhile (p : UInt8 → Bool) (rest : List UInt8) :
    rest.dropWhile p = [] ∨ p ((rest.dropWhile p).headD 0) = false := by
  have stops := List.head?_dropWhile_not p rest
  cases behind : rest.dropWhile p with
  | nil => exact .inl rfl
  | cons c rest =>
    rw [behind] at stops
    exact .inr stops

theorem isblank_dropWhile (rest : List UInt8) : isblank ((rest.dropWhile isblank).headD 0) = false := by
  rcases headD_dropWhile isblank rest with none | first
  · rw [none]
    rfl
  · exact first

/-- Blanks are skipped before anything else is done. -/
theorem split_blanks (fuel : Nat) (front rest : List UInt8) (newArgv : List Nat) :
    split (fuel + 1) (front ++ rest) front.length newArgv =
      split (fuel + 1) (front ++ rest.takeWhile isblank ++ rest.dropWhile isblank)
        (front ++ rest.takeWhile isblank).length newArgv := by
  unfold split
  dsimp only
  rw [skipBlanks_still (isblank_dropWhile rest), List.append_assoc, List.takeWhile_append_dropWhile, skipBlanks_length]

/-- The command has ended. -/
theorem Finds.ended (first : isblank (rest.headD 0) = false) (stops : ends (rest.headD 0) = true)
    (few : newArgv.length ≤ MAX_ARGS) (fuel : Nat) :
    Finds front rest newArgv (split (fuel + 1) (front ++ rest) front.length newArgv) := by
  obtain ⟨none, background⟩ : words (command rest) = [] ∧ inBackground rest = decide (rest.headD 0 = chr '&') := by
    cases rest with
    | nil => exact ⟨rfl, rfl⟩
    | cons c rest => exact command_ended stops
  have finds := @Finds.none rest front newArgv few none
  rw [background] at finds
  unfold split
  dsimp only
  rw [skipBlanks_still first, byteAt_length]
  rcases ends_iff.mp stops with zero | line | hash | amp
  · rw [zero] at finds ⊢
    exact finds
  · rw [line] at finds ⊢
    exact finds
  · rw [hash] at finds ⊢
    exact finds
  · rw [amp] at finds ⊢
    exact finds

/-- The next word, and what is behind it. -/
structure Next (word behind : List UInt8) : Prop where
  nonempty : word ≠ []
  solid : ∀ c ∈ word, ends c = false ∧ isBlank c = false
  whole : (word ++ behind).takeWhile inWord = word
  stops : ends (behind.headD 0) = true ∨ ∃ c rest, behind = c :: rest ∧ isBlank c = true

variable {behind : List UInt8}

theorem Next.nonzero (next : Next word behind) : 0 ∉ word :=
  fun member => absurd (next.solid 0 member).1 (by decide)

theorem Next.of_goes (ascii : ∀ c ∈ rest, c < 128) (first : isblank (rest.headD 0) = false)
    (goes : ends (rest.headD 0) = false) : ∃ word behind, rest = word ++ behind ∧ Next word behind := by
  refine ⟨rest.takeWhile inWord, rest.dropWhile inWord, List.takeWhile_append_dropWhile.symm, ?_, ?_, ?_, ?_⟩
  · cases rest with
    | nil => exact absurd goes (by decide)
    | cons c rest =>
      have short : c < 128 := ascii c List.mem_cons_self
      have goes : ends c = false := goes
      have first : isBlank c = false := (isblank_ascii short).symm.trans first
      have inside : inWord c = true := by
        rw [inWord_ascii short, goes, first]
        rfl
      simp [inside]
  · intro c member
    have inside := List.mem_takeWhile_imp member
    rw [inWord_ascii (ascii c (List.takeWhile_subset _ member))] at inside
    simpa using inside
  · rw [List.takeWhile_append_dropWhile]
  · rcases headD_dropWhile inWord rest with none | outside
    · rw [none]
      exact .inl rfl
    · have within : ∀ c ∈ rest.dropWhile inWord, c < 128 := fun c member => ascii c (List.dropWhile_subset _ member)
      cases behind : rest.dropWhile inWord with
      | nil => exact .inl rfl
      | cons c more =>
        rw [behind] at within outside
        have outside : inWord c = false := outside
        rw [inWord_ascii (within c List.mem_cons_self), Bool.and_eq_false_iff, Bool.not_eq_false',
          Bool.not_eq_false'] at outside
        exact outside.imp_right fun blank => ⟨c, more, rfl, blank⟩

/-- A turn of the loop that takes a word. -/
theorem Next.turn (next : Next word behind) (first : isblank ((word ++ behind).headD 0) = false) (fuel : Nat) :
    split (fuel + 1) (front ++ (word ++ behind)) front.length newArgv =
      if newArgv.length = MAX_ARGS then .tooMany
      else if behind.headD 0 = 0 then .words (front ++ (word ++ behind)) (newArgv ++ [front.length]) false
      else if behind.headD 0 = newline ∨ behind.headD 0 = chr '#' then
        .words (front ++ (word ++ behind.set 0 0)) (newArgv ++ [front.length]) false
      else if behind.headD 0 = chr '&' then
        .words (front ++ (word ++ behind.set 0 0)) (newArgv ++ [front.length]) true
      else split fuel (front ++ (word ++ behind.set 0 0)) (front ++ word).length.succ (newArgv ++ [front.length]) := by
  have goes : ends ((word ++ behind).headD 0) = false := by
    cases word with
    | nil => exact absurd rfl next.nonempty
    | cons c word => exact (next.solid c List.mem_cons_self).1
  have going := Bool.eq_false_iff.mp goes
  rw [Ne, ends_iff, not_or, not_or, not_or] at going
  obtain ⟨zero, line, hash, amp⟩ := going
  have here : byteAt (front ++ (word ++ behind)) (front ++ word).length = behind.headD 0 := by
    rw [← List.append_assoc]
    exact byteAt_length ..
  have cleared : (front ++ (word ++ behind)).set (front ++ word).length 0 = front ++ (word ++ behind.set 0 0) := by
    rw [← List.append_assoc, List.set_append_right _ _ (Nat.le_refl _), Nat.sub_self, List.append_assoc]
  rw [split]
  dsimp only
  rw [skipBlanks_still first, byteAt_length, endOfWord_length, next.whole, here, cleared,
    if_neg (not_or.mpr ⟨zero, not_or.mpr ⟨line, hash⟩⟩),
    if_neg amp]

theorem ends_head (last : ends (behind.headD 0) = true) : ∀ c ∈ behind.head?, ends c = true := by
  intro c member
  rw [List.headD_eq_head?_getD, member] at last
  exact last

/-- There is no room for the word. -/
theorem Next.full (next : Next word behind) (full : newArgv.length = MAX_ARGS) :
    Finds front (word ++ behind) newArgv .tooMany := by
  apply Finds.tooMany full
  rcases next.stops with last | ⟨c, rest, rfl, blank⟩
  · rw [(command_last next.nonempty next.solid (ends_head last)).1]
    exact List.cons_ne_nil _ _
  · rw [(command_word next.nonempty next.solid blank).1]
    exact List.cons_ne_nil _ _

/-- The command ends behind the word. -/
theorem Next.last (next : Next word behind) (first : isblank ((word ++ behind).headD 0) = false)
    (last : ends (behind.headD 0) = true)
    (room : newArgv.length < MAX_ARGS) (fuel : Nat) :
    Finds front (word ++ behind) newArgv (split (fuel + 1) (front ++ (word ++ behind)) front.length newArgv) := by
  obtain ⟨one, background⟩ := command_last next.nonempty next.solid (ends_head last)
  have finds : ∀ after : List UInt8, after.headD 0 = 0 → Finds front (word ++ behind) newArgv
      (.words (front ++ (word ++ after)) (newArgv ++ [front.length]) (decide (behind.head? = some (chr '&')))) :=
    fun after zero => background ▸ Finds.last room next.nonzero zero one
  rw [next.turn first, if_neg (Nat.ne_of_lt room)]
  cases behind with
  | nil => exact finds [] rfl
  | cons c rest =>
    rw [List.headD_cons, List.set_cons_zero]
    rcases ends_iff.mp last with zero | line | hash | amp
    · rw [List.headD_cons] at zero
      subst zero
      exact finds (0 :: rest) rfl
    · rw [List.headD_cons] at line
      subst line
      exact finds (0 :: rest) rfl
    · rw [List.headD_cons] at hash
      subst hash
      exact finds (0 :: rest) rfl
    · rw [List.headD_cons] at amp
      subst amp
      exact finds (0 :: rest) rfl

/-- A blank is behind the word, and gets overwritten. -/
theorem Next.goesOn (next : Next word (c :: rest)) (first : isblank ((word ++ c :: rest).headD 0) = false)
    (blank : isBlank c = true)
    (room : newArgv.length < MAX_ARGS) (fuel : Nat) :
    split (fuel + 1) (front ++ (word ++ c :: rest)) front.length newArgv =
      split fuel (front ++ (word ++ [0]) ++ rest) (front ++ (word ++ [0])).length (newArgv ++ [front.length]) := by
  have goes := Bool.eq_false_iff.mp (not_ends_of_isBlank blank)
  rw [Ne, ends_iff, not_or, not_or, not_or] at goes
  obtain ⟨zero, line, hash, amp⟩ := goes
  have buffer : front ++ (word ++ 0 :: rest) = front ++ (word ++ [0]) ++ rest := by simp
  have length : (front ++ word).length.succ = (front ++ (word ++ [0])).length := by simp [Nat.add_assoc]
  rw [next.turn first, if_neg (Nat.ne_of_lt room), List.headD_cons, if_neg zero,
    if_neg (not_or.mpr ⟨line, hash⟩), if_neg amp,
    List.set_cons_zero, buffer, length]

/-- Each turn of the loop takes a word, or finds the end of the command. -/
theorem split_finds {fuel : Nat} (ascii : ∀ c ∈ rest, c < 128) (enough : rest.length < fuel)
    (few : newArgv.length ≤ MAX_ARGS) :
    Finds front rest newArgv (split fuel (front ++ rest) front.length newArgv) := by
  induction fuel generalizing front rest newArgv with
  | zero => exact absurd enough (Nat.not_lt_zero _)
  | succ fuel ih =>
    have short : ∀ c ∈ rest.dropWhile isblank, c < 128 := fun c member => ascii c (List.dropWhile_subset _ member)
    have less : (rest.dropWhile isblank).length ≤ rest.length := (List.dropWhile_sublist _).length_le
    have first := isblank_dropWhile rest
    have blanks : ∀ c ∈ rest.takeWhile isblank, isBlank c = true := fun c member =>
      (isblank_ascii (ascii c (List.takeWhile_subset _ member))).symm.trans (List.mem_takeWhile_imp member)
    suffices finds : Finds (front ++ rest.takeWhile isblank) (rest.dropWhile isblank) newArgv
        (split (fuel + 1) (front ++ rest.takeWhile isblank ++ rest.dropWhile isblank)
          (front ++ rest.takeWhile isblank).length newArgv) by
      have skipped := Finds.blanks blanks finds
      rwa [List.takeWhile_append_dropWhile, ← split_blanks] at skipped
    generalize rest.dropWhile isblank = rest at *
    generalize front ++ _ = front
    by_cases stops : ends (rest.headD 0) = true
    · exact Finds.ended first stops few fuel
    · obtain ⟨word, behind, rfl, next⟩ := Next.of_goes short first (Bool.eq_false_iff.mpr stops)
      by_cases full : newArgv.length = MAX_ARGS
      · rw [next.turn first, if_pos full]
        exact next.full full
      · have room := Nat.lt_of_le_of_ne few full
        rcases next.stops with last | ⟨c, rest, rfl, blank⟩
        · exact next.last first last room fuel
        · rw [next.goesOn first blank room]
          apply Finds.cons next.nonzero blank next.nonempty next.solid
          apply ih
          · exact fun d member => short d (List.mem_append_right _ (List.mem_cons_of_mem _ member))
          · rw [List.length_append, List.length_cons] at less
            omega
          · rw [List.length_append, List.length_singleton]
            exact room

/-- A line is split as the syntax says: its words up to the end of the command are the
arguments, and an ampersand there puts the command into the background. -/
theorem parse_splits (argv : List (List UInt8)) (line : List UInt8) (ascii : ∀ c ∈ line, c < 128) :
    (if MAX_ARGS < (words (command line)).length then split (line.length + 1) line 0 [] = .tooMany
      else ∃ buf newArgv, split (line.length + 1) line 0 [] = .words buf newArgv (inBackground line) ∧
        newArgv.map (str buf) = words (command line)) ∧
    parse argv line = if MAX_ARGS < (words (command line)).length then .tooManyArguments
      else execute (inBackground line) ((words (command line)).map (expand argv)) := by
  have finds : Finds [] line [] (split (line.length + 1) line 0 []) :=
    split_finds ascii (Nat.lt_succ_self _) (Nat.zero_le _)
  unfold Finds at finds
  rw [List.length_nil, Nat.zero_add] at finds
  unfold parse
  by_cases many : MAX_ARGS < (words (command line)).length
  · rw [if_pos many] at finds
    rw [if_pos many, if_pos many, finds]
    exact ⟨rfl, rfl⟩
  · rw [if_neg many] at finds
    obtain ⟨buf, newArgv, here, strings⟩ := finds
    have strings : newArgv.map (str buf) = words (command line) := strings
    rw [if_neg many, if_neg many]
    rw [List.nil_append, List.nil_append] at here
    rw [here, ← strings, List.map_map]
    exact ⟨⟨buf, newArgv, rfl, rfl⟩, rfl⟩

/-- Words end where another one is not expected: at a comment, and at an ampersand. -/
theorem parse_splits_background : (∀ c ∈ text "ls  -l b&c # d\n", c < 128) ∧
    parse [] (text "ls  -l b&c # d\n") = .pathExec [text "ls", text "-l", text "b"] true := by
  have ascii : ∀ c ∈ text "ls  -l b&c # d\n", c < 128 := by decide +kernel
  refine ⟨ascii, (parse_splits [] _ ascii).2.trans ?_⟩
  decide +kernel

end Egos.Shell
