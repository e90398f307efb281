import Egos.Apps.Ed
import Egos.Library.Ensures

/-! The editor as a list of lines with a current line. Lines are typed in by insertions at
the current line, and a delete takes it out. -/

namespace Egos.Ed
open Library Library.Prog Strings

/-- The current line is one of the lines, or a place before or behind them. -/
structure Text where
  lines : List Line
  curline : Nat
  inside : curline ≤ lines.length + 1

namespace Text

def goto (t : Text) (curline : Nat) (inside : curline ≤ t.lines.length + 1) : Text := { t with curline, inside }

def OnLine (t : Text) : Prop := 1 ≤ t.curline ∧ t.curline ≤ t.lines.length

def delete (t : Text) (on : t.OnLine) : Text where
  lines := t.lines.eraseIdx (t.curline - 1)
  curline := t.curline
  inside := by
    obtain ⟨low, high⟩ := on
    rw [List.length_eraseIdx_of_lt (by omega)]
    omega

def insert (t : Text) (line : Line) (low : 1 ≤ t.curline) : Text where
  lines := t.lines.insertIdx (t.curline - 1) line
  curline := t.curline + 1
  inside := by
    have inside := t.inside
    rw [List.length_insertIdx_of_le_length (by omega)]
    omega

def append (t : Text) (line : Line) (high : t.curline ≤ t.lines.length) : Text where
  lines := t.lines.insertIdx t.curline line
  curline := t.curline + 1
  inside := by
    rw [List.length_insertIdx_of_le_length high]
    omega

end Text

inductive Desk where
  | command (t : Text)
  | inserting (t : Text) (low : 1 ≤ t.curline)
  | appending (t : Text) (high : t.curline ≤ t.lines.length)
  | ended (t : Text)

inductive Performs (t : Text) : Command → Desk → Prop where
  | stays {command} : command = .print ∨ command = .write ∨ command = .quit ∨ command = .unknown →
      Performs t command (.command t)
  | page : Performs t .page (.command (t.goto (min (t.curline + 10) (t.lines.length + 1)) (Nat.min_le_right ..)))
  | next : Performs t .next (.command (t.goto (min (t.curline + 1) (t.lines.length + 1)) (Nat.min_le_right ..)))
  | end {command} : command = .all ∨ command = .last →
      Performs t command (.command (t.goto t.lines.length (Nat.le_succ _)))
  | back : Performs t .back (.command (t.goto (t.curline - 1) ((Nat.sub_le ..).trans t.inside)))
  | refused {command} : command = .delete ∨ command = .change → ¬ t.OnLine → Performs t command (.command t)
  | delete (on : t.OnLine) : Performs t .delete (.command (t.delete on))
  | change (on : t.OnLine) : Performs t .change (.inserting (t.delete on) on.1)
  | insert : Performs t .insert
      (.inserting (t.goto (max t.curline 1) (Nat.max_le.mpr ⟨t.inside, Nat.succ_le_succ (Nat.zero_le _)⟩))
        (Nat.le_max_right ..))
  | append : Performs t .append
      (.appending (t.goto (min t.curline t.lines.length) ((Nat.min_le_left ..).trans t.inside)) (Nat.min_le_right ..))
  | number {curline} (inside : curline ≤ t.lines.length + 1) :
      Performs t (.number (curline : Int)) (.command (t.goto curline inside))
  | leaves {command} : command = .quit ∨ command = .abandon → Performs t command (.ended t)

inductive Desk.Step : Desk → Input → Desk → Prop where
  | command {t line opens desk} : Performs t (parseCommand line) desk →
      Desk.Step (.command t) { line := some line, opens } desk
  | leave {t opens} : Desk.Step (.command t) { line := none, opens } (.ended t)
  | insert {t low line opens} : Desk.Step (.inserting t low) { line := some line, opens }
      (.inserting (t.insert (str line 0) low) (Nat.succ_le_succ (Nat.zero_le _)))
  | append {t : Text} {high line opens} : Desk.Step (.appending t high) { line := some line, opens }
      (.appending (t.append (str line 0) high) (by
        unfold Text.append
        dsimp only
        rw [List.length_insertIdx_of_le_length high]
        exact Nat.succ_le_succ high))
  | inserted {t low opens} : Desk.Step (.inserting t low) { line := none, opens } (.command t)
  | appended {t high opens} : Desk.Step (.appending t high) { line := none, opens } (.command t)

/-! How the editor keeps a text. -/

/-- The array holds the lines of the text. -/
structure Holds (e : Editor) (t : Text) : Prop where
  nlines : e.nlines = t.lines.length
  lines : ∀ i : Nat, i < t.lines.length → t.lines[i]? = some (e.lines i)
  curline : e.curline = t.curline

def Shows (e : Editor) : Desk → Prop
  | .command t => e.mode = .command ∧ Holds e t
  | .inserting t _ => e.mode = .inserting ∧ Holds e t
  | .appending t _ => e.mode = .appending ∧ Holds e t
  | .ended t => e.mode = .ended ∧ Holds e t

abbrev never : Halt → Prop := fun _ => False

variable {e after : Editor} {t : Text} {line : Line}

theorem Holds.same (holds : Holds e t) (lines : after.lines = e.lines) (nlines : after.nlines = e.nlines)
    (curline : after.curline = e.curline) :
    Holds after t :=
  ⟨nlines.trans holds.nlines, lines ▸ holds.lines, curline.trans holds.curline⟩

theorem Holds.goto (holds : Holds e t) {curline : Nat} (inside : curline ≤ t.lines.length + 1)
    (lines : after.lines = e.lines)
    (nlines : after.nlines = e.nlines) (goes : after.curline = curline) : Holds after (t.goto curline inside) :=
  ⟨nlines.trans holds.nlines, lines ▸ holds.lines, goes⟩

theorem touch_run {index : Int} (low : 0 ≤ index) (high : index < e.nlines) : touch index e = .done () e := by
  unfold touch
  rw [if_pos ⟨low, high⟩]

theorem moveLines_run {dst src count : Int} (dstLow : 0 ≤ dst) (srcLow : 0 ≤ src) (some : 0 ≤ count)
    (dstHigh : dst + count ≤ e.nlines)
    (srcHigh : src + count ≤ e.nlines) : moveLines dst src count e =
      .done () { e with lines := fun i => if dst ≤ i ∧ i < dst + count then e.lines (i - dst + src) else e.lines i } := by
  unfold moveLines
  by_cases none : count = 0
  · have nothing : (fun i => if dst ≤ i ∧ i < dst + count then e.lines (i - dst + src) else e.lines i) = e.lines := by
      funext i
      rw [if_neg (by omega)]
    rw [if_pos none, nothing]
    rfl
  · rw [if_neg none, bind_done (touch_run dstLow (by omega)), bind_done (touch_run srcLow (by omega)),
      if_neg (by omega),
      bind_done (touch_run (by omega) (by omega)), bind_done (touch_run (by omega) (by omega))]
    rfl

theorem insert_run (low : 1 ≤ e.curline) (high : e.curline ≤ e.nlines + 1) : insert line e = .done () { e with
    nlines := e.nlines + 1
    lines := Function.update (fun i => if e.curline ≤ i ∧ i < e.curline + (e.nlines + 1 - e.curline)
      then e.lines (i - e.curline + (e.curline - 1)) else e.lines i) (e.curline - 1) (str line 0) } := by
  unfold insert setLine
  rw [bind_done (modify_run _ _), bind_done (get_run _),
    bind_done (moveLines_run (by dsimp only; omega) (by dsimp only; omega) (by dsimp only; omega)
      (by dsimp only; omega) (by dsimp only; omega)),
    bind_done (touch_run (by dsimp only; omega) (by dsimp only; omega))]
  rfl

theorem remove_run (low : 1 ≤ e.curline) (high : e.curline ≤ e.nlines) : remove e = .done () { e with
    nlines := e.nlines - 1
    lines := fun i => if e.curline - 1 ≤ i ∧ i < e.curline - 1 + (e.nlines - e.curline)
      then e.lines (i - (e.curline - 1) + e.curline) else e.lines i } := by
  unfold remove
  rw [bind_done (get_run _), bind_done (touch_run (by omega) (by omega)),
    bind_done (moveLines_run (by omega) (by omega) (by omega) (by omega) (by omega))]
  rfl

/-- A place of the array where a line of the text stands. -/
theorem Holds.at_place (holds : Holds e t) {i : Nat} {place : Int} (inside : i < t.lines.length) (same : place = i) :
    t.lines[i]? = some (e.lines place) := same ▸ holds.lines i inside

theorem Holds.inserted (holds : Holds e t) {place : Nat} (inside : place ≤ t.lines.length)
    (curline : e.curline = place + 1) :
    ∃ after, insert line e = .done () after ∧ after.mode = e.mode ∧ after.curline = e.curline ∧
      after.nlines = (t.lines.insertIdx place (str line 0)).length ∧
      ∀ i : Nat, i < (t.lines.insertIdx place (str line 0)).length →
          (t.lines.insertIdx place (str line 0))[i]? = some (after.lines i) := by
  have nlines := holds.nlines
  have length := List.length_insertIdx_of_le_length (a := str line 0) inside
  refine ⟨_, insert_run (by omega) (by omega), rfl, rfl, by simp only [length, nlines]; omega, fun i high => ?_⟩
  rw [length] at high
  rw [List.getElem?_insertIdx]
  dsimp only
  rcases Nat.lt_trichotomy i place with before | rfl | behind
  · rw [if_pos before, Function.update_of_ne (by omega), if_neg (by omega)]
    exact holds.lines i (by omega)
  · rw [if_neg (Nat.lt_irrefl i), if_pos rfl, if_pos inside, curline, Int.add_sub_cancel, Function.update_self]
  · rw [if_neg (by omega), if_neg (by omega), Function.update_of_ne (by omega), if_pos (by omega)]
    exact holds.at_place (by omega) (by omega)

theorem Holds.removed (holds : Holds e t) (on : t.OnLine) :
    ∃ after, remove e = .done () after ∧ after.mode = e.mode ∧ Holds after (t.delete on) := by
  obtain ⟨low, high⟩ := on
  have nlines := holds.nlines
  have curline := holds.curline
  have length := List.length_eraseIdx_of_lt (l := t.lines) (i := t.curline - 1) (by omega)
  refine ⟨_, remove_run (by omega) (by omega), rfl, ⟨?_, fun i inside => ?_, curline⟩⟩
  · unfold Text.delete
    simp only [length]
    omega
  · unfold Text.delete at inside ⊢
    simp only [length] at inside
    dsimp only
    rw [List.getElem?_eraseIdx]
    by_cases before : i < t.curline - 1
    · rw [if_pos before, if_neg (by omega)]
      exact holds.lines i (by omega)
    · rw [if_neg before, if_pos (by omega)]
      exact holds.at_place (by omega) (by omega)

/-! Commands that only show or write lines. -/

theorem printFrom_run {left : Nat} {start : Int} (low : 0 ≤ start) (high : 0 < left → start + left ≤ e.nlines) :
    ∃ output, printFrom left start e = .done () { e with output } := by
  induction left generalizing start e with
  | zero => exact ⟨e.output, rfl⟩
  | succ left ih =>
    obtain ⟨output, rest⟩ := @ih { e with output := e.output ++ [.line (start + 1) (e.lines start)] }
      (start + 1) (by omega)
      (by dsimp only; omega)
    refine ⟨output, ?_⟩
    unfold printFrom
    rw [bind_done (touch_run low (by omega)), bind_done (get_run _)]
    exact rest

theorem print_run {start finish : Int} (low : 0 < e.curline → 0 ≤ start) :
    ∃ output, print start finish e = .done () { e with output } := by
  unfold print
  rw [bind_done (get_run _)]
  by_cases prior : e.curline ≤ 0
  · rw [if_pos prior]
    exact ⟨_, rfl⟩
  · rw [if_neg prior]
    by_cases behind : e.curline > e.nlines
    · rw [if_pos behind]
      exact ⟨_, rfl⟩
    · rw [if_neg behind]
      by_cases none : start ≥ finish
      · rw [if_pos none]
        exact ⟨_, rfl⟩
      · rw [if_neg none]
        exact printFrom_run (low (by omega)) (by have := low (by omega); split <;> omega)

theorem putLines_run {left : Nat} {start : Int} (low : 0 ≤ start) (high : start + left ≤ e.nlines) :
    putLines left start e = .done () e := by
  induction left generalizing start with
  | zero => rfl
  | succ left ih =>
    unfold putLines
    rw [bind_done (touch_run low (by omega))]
    exact ih (by omega) (by omega)

theorem save_run (opens : Bool) (low : 0 ≤ e.nlines) :
    ∃ output modified, save opens e = .done () { e with output, modified } := by
  unfold save
  rw [bind_done (get_run _)]
  by_cases same : (!e.modified) = true
  · rw [if_pos same]
    exact ⟨_, e.modified, rfl⟩
  · rw [if_neg same]
    by_cases closed : (!opens) = true
    · rw [if_pos closed]
      exact ⟨_, e.modified, rfl⟩
    · rw [if_neg closed, bind_done (putLines_run (Int.le_refl 0) (by omega))]
      exact ⟨e.output, false, rfl⟩

/-! One turn. -/

abbrev Follows (t : Text) (command : Command) : Outcome Editor Halt Unit → Prop
  | .done _ after => ∃ desk, Performs t command desk ∧ Shows after desk
  | .halted _ _ => False

theorem Follows.printed {command : Command} {desk : Desk} {start finish : Int} (performs : Performs t command desk)
    (low : 0 < after.curline → 0 ≤ start) (shows : ∀ output, Shows { after with output } desk) :
    Follows t command (print start finish after) := by
  obtain ⟨output, printed⟩ := @print_run after start finish low
  rw [printed]
  exact ⟨desk, performs, shows output⟩

theorem perform_follows {opens : Bool} {command : Command} (mode : e.mode = .command) (holds : Holds e t)
    (within : ∀ number, command = .number number → 0 ≤ number ∧ number ≤ e.nlines + 1) :
    Follows t command (perform opens command e) := by
  have nlines := holds.nlines
  have curline := holds.curline
  have inside := t.inside
  cases command with
  | print => exact .printed (.stays (.inl rfl)) (by omega) fun output => ⟨mode, holds.same rfl rfl rfl⟩
  | page =>
    obtain ⟨output, printed⟩ := @print_run e (e.curline - 1) (e.curline + 9) (by omega)
    simp only [perform]
    rw [bind_done (get_run _), bind_done printed]
    refine ⟨_, .page, mode, holds.goto _ rfl rfl ?_⟩
    dsimp only
    split <;> omega
  | next =>
    refine .printed .next (by omega) fun output => ⟨mode, holds.goto _ rfl rfl ?_⟩
    dsimp only
    split <;> omega
  | all => exact .printed (.end (.inl rfl)) (fun _ => Int.le_refl 0) fun output => ⟨mode, holds.goto _ rfl rfl nlines⟩
  | back =>
    refine .printed .back (by omega) fun output => ⟨mode, holds.goto _ rfl rfl ?_⟩
    dsimp only
    split <;> omega
  | last => exact .printed (.end (.inr rfl)) (by omega) fun output => ⟨mode, holds.goto _ rfl rfl nlines⟩
  | delete =>
    simp only [perform]
    rw [bind_done (get_run _)]
    by_cases outside : e.curline ≤ 0 ∨ e.curline > e.nlines
    · rw [if_pos outside]
      refine ⟨_, .refused (.inl rfl) ?_, mode, holds.same rfl rfl rfl⟩
      unfold Text.OnLine
      omega
    · have on : t.OnLine := by
        unfold Text.OnLine
        omega
      obtain ⟨after, removed, same, kept⟩ := holds.removed on
      rw [if_neg outside, bind_done removed]
      exact ⟨_, .delete on, same.trans mode, kept.same rfl rfl rfl⟩
  | insert =>
    refine ⟨_, .insert, rfl, holds.goto _ rfl rfl ?_⟩
    dsimp only
    split <;> omega
  | change =>
    simp only [perform]
    rw [bind_done (get_run _)]
    by_cases outside : e.curline ≤ 0 ∨ e.curline > e.nlines
    · rw [if_pos outside]
      refine ⟨_, .refused (.inr rfl) ?_, mode, holds.same rfl rfl rfl⟩
      unfold Text.OnLine
      omega
    · have on : t.OnLine := by
        unfold Text.OnLine
        omega
      obtain ⟨after, removed, same, kept⟩ := holds.removed on
      rw [if_neg outside, bind_done removed]
      exact ⟨_, .change on, rfl, kept.same rfl rfl rfl⟩
  | append =>
    refine ⟨_, .append, rfl, holds.goto _ rfl rfl ?_⟩
    dsimp only
    split <;> omega
  | write =>
    obtain ⟨output, modified, saved⟩ := @save_run e opens (by omega)
    simp only [perform]
    rw [saved]
    exact ⟨_, .stays (.inr (.inl rfl)), mode, holds.same rfl rfl rfl⟩
  | quit =>
    simp only [perform]
    rw [bind_done (get_run _)]
    by_cases modified : e.modified = true
    · rw [if_pos modified]
      exact ⟨_, .stays (.inr (.inr (.inl rfl))), mode, holds.same rfl rfl rfl⟩
    · rw [if_neg modified]
      exact ⟨_, .leaves (.inl rfl), rfl, holds.same rfl rfl rfl⟩
  | abandon => exact ⟨_, .leaves (.inr rfl), rfl, holds.same rfl rfl rfl⟩
  | number number =>
    obtain ⟨low, high⟩ := within number rfl
    obtain ⟨place, rfl⟩ := Int.eq_ofNat_of_zero_le low
    refine .printed (.number (by omega)) (by dsimp only; omega) fun output => ⟨mode, holds.goto _ rfl rfl rfl⟩
  | unknown => exact ⟨_, .stays (.inr (.inr (.inr rfl))), mode, holds.same rfl rfl rfl⟩

/-- A number that is typed as a command is that of a line, or of a place before or behind them. -/
def InFile (o : Outcome Editor Halt Unit) (input : Input) : Prop :=
  ∀ line number, o.state.mode = .command → input.line = some line → parseCommand line = .number number →
    0 ≤ number ∧ number ≤ o.state.nlines + 1

theorem turn_follows {input : Input} {desk : Desk} (shows : Shows e desk) (going : e.mode ≠ .ended)
    (within : InFile (.done () e) input) :
    ∃ after next, turn input e = .done () after ∧ Desk.Step desk input next ∧ Shows after next := by
  obtain ⟨line, opens⟩ := input
  unfold turn
  simp only [bind_done (get_run e)]
  cases desk with
  | ended t => exact absurd shows.1 going
  | command t =>
    obtain ⟨mode, holds⟩ := shows
    simp only [mode]
    cases line with
    | none => exact ⟨{ e with mode := .ended }, _, rfl, .leave, rfl, holds.same rfl rfl rfl⟩
    | some line =>
      have follows := @perform_follows e t opens _ mode holds fun number => within line number mode rfl
      dsimp only
      cases ran : perform opens (parseCommand line) e with
      | halted reason after =>
        rw [ran] at follows
        exact follows.elim
      | done value after =>
        rw [ran] at follows
        obtain ⟨next, performs, shows⟩ := follows
        exact ⟨after, next, rfl, .command performs, shows⟩
  | inserting t low =>
    obtain ⟨mode, holds⟩ := shows
    simp only [mode]
    cases line with
    | none => exact ⟨{ e with mode := .command }, _, rfl, .inserted, rfl, holds.same rfl rfl rfl⟩
    | some line =>
      have inside := t.inside
      have curline := holds.curline
      obtain ⟨after, inserted, same, stays, nlines, lines⟩ :=
        @Holds.inserted e t line holds (t.curline - 1) (by omega) (by omega)
      refine ⟨_, _, (bind_done inserted).trans rfl, .insert, same.trans mode, nlines, lines, ?_⟩
      unfold Text.insert
      dsimp only
      omega
  | appending t high =>
    obtain ⟨mode, holds⟩ := shows
    simp only [mode]
    cases line with
    | none => exact ⟨{ e with mode := .command }, _, rfl, .appended, rfl, holds.same rfl rfl rfl⟩
    | some line =>
      have curline := holds.curline
      have next : Holds { e with curline := e.curline + 1 } (t.goto (t.curline + 1) (Nat.succ_le_succ high)) :=
        holds.goto _ rfl rfl (by dsimp only; omega)
      obtain ⟨after, inserted, same, stays, nlines, lines⟩ :=
        @Holds.inserted _ _ line next t.curline high (by dsimp only; omega)
      refine ⟨_, _, (bind_done inserted).trans rfl, .append, same.trans mode, nlines, lines, ?_⟩
      exact stays.trans (by simp [Text.append, curline])

/-! The file is read, and then commands are. -/

theorem load_run {read : List Line} (mode : e.mode = .command) (holds : Holds e t)
    (behind : t.curline = t.lines.length) :
    ∃ after inside, load read e = .done () after ∧ after.mode = .command ∧
      Holds after ⟨t.lines ++ read.map (str · 0), t.lines.length + read.length, inside⟩ := by
  induction read generalizing e t with
  | nil =>
    refine ⟨e, Nat.le_succ_of_le (by simp), rfl, mode, ⟨?_, ?_, ?_⟩⟩
    · simpa using holds.nlines
    · simpa using holds.lines
    · simpa [behind] using holds.curline
  | cons line read ih =>
    have curline := holds.curline
    have next : Holds { e with curline := e.curline + 1 } (t.goto (t.curline + 1) (by omega)) :=
      holds.goto _ rfl rfl (by dsimp only; omega)
    obtain ⟨after, inserted, same, stays, nlines, lines⟩ :=
      @Holds.inserted _ _ line next t.lines.length (Nat.le_refl _) (by dsimp only; omega)
    have added : t.lines.insertIdx t.lines.length (str line 0) = t.lines ++ [str line 0] := List.insertIdx_length_self
    have kept : Holds after ⟨t.lines ++ [str line 0], t.lines.length + 1, by simp⟩ :=
      ⟨by simpa [Text.goto, added] using nlines, by simpa [Text.goto, added] using lines, by simp [stays, curline, behind]⟩
    obtain ⟨last, inside, loaded, idle, whole⟩ := ih (same.trans mode) kept (by simp)
    simp only [List.append_assoc, List.length_append, List.length_singleton] at whole
    refine ⟨last, ?_, ?_, idle, ?_⟩
    · simp
    · unfold load
      rw [bind_done (show setCurline (· + 1) e = .done () _ from rfl), bind_done inserted]
      exact loaded
    · simpa [Nat.add_assoc, Nat.add_comm 1] using whole

/-- The lines of the file, if it can be opened, with the current line before them. -/
def fileText (file : Option Stdio.File) : Text where
  lines := (file.elim [] (Stdio.lines MAX_LINE_SIZE)).map (str · 0)
  curline := 0
  inside := Nat.zero_le _

theorem start_run (file : Option Stdio.File) :
    ∃ e, start file empty = .done () e ∧ Shows e (.command (fileText file)) := by
  have holds : Holds empty ⟨[], 0, Nat.zero_le _⟩ := ⟨rfl, fun i inside => absurd inside (Nat.not_lt_zero i), rfl⟩
  cases file with
  | none => exact ⟨{ empty with output := [.text "can't open"], modified := true }, rfl, rfl, holds.same rfl rfl rfl⟩
  | some file =>
    obtain ⟨after, inside, loaded, mode, whole⟩ := @load_run empty _ (Stdio.lines MAX_LINE_SIZE file) rfl holds rfl
    refine ⟨{ after with curline := 0 }, ?_, mode, whole.nlines, whole.lines, rfl⟩
    simp only [start, bind_done loaded]
    rfl

/-- The editor still runs, its current line is in the file or beside it, and the array holds the lines
that the commands and the lines typed leave of the file. -/
def Kept (file : Option Stdio.File) (inputs : List Input) (o : Outcome Editor Halt Unit) : Prop :=
  ∃ e desk, o = .done () e ∧ 0 ≤ e.curline ∧ e.curline ≤ e.nlines + 1 ∧
    Run Desk.Step (.command (fileText file)) inputs desk ∧ Shows e desk

theorem Shows.inside {desk : Desk} (shows : Shows e desk) : 0 ≤ e.curline ∧ e.curline ≤ e.nlines + 1 := by
  obtain ⟨t, holds⟩ : ∃ t, Holds e t := by
    cases desk with
    | command t => exact ⟨t, shows.2⟩
    | inserting t low => exact ⟨t, shows.2⟩
    | appending t high => exact ⟨t, shows.2⟩
    | ended t => exact ⟨t, shows.2⟩
  have inside := t.inside
  have nlines := holds.nlines
  have curline := holds.curline
  omega

theorem lines_kept {file : Option Stdio.File} {inputs : List Input} {o : Outcome Editor Halt Unit}
    (run : Run (Guarded InFile Step) (start file empty) inputs o) : Kept file inputs o := by
  obtain ⟨e, started, shows⟩ := start_run file
  have follow : ∀ before input after desk, (∃ e, before = .done () e ∧ Shows e desk) →
    Guarded InFile Step before input after →
      ∃ next, Desk.Step desk input next ∧ ∃ e, after = .done () e ∧ Shows e next := by
    intro before input after desk shown moved
    obtain ⟨e, rfl, shows⟩ := shown
    obtain ⟨within, moved⟩ := moved
    cases moved with
    | turn going =>
      obtain ⟨last, next, turned, step, shows⟩ := turn_follows shows going within
      exact ⟨next, step, last, turned, shows⟩
  obtain ⟨desk, typed, last, rfl, shows⟩ := Run.simulate follow run ⟨e, started, shows⟩
  obtain ⟨low, high⟩ := shows.inside
  exact ⟨last, desk, rfl, low, high, typed, shows⟩

/-! A run, computed. -/

def take (o : Outcome Editor Halt Unit) (input : Input) : Option (Outcome Editor Halt Unit) :=
  match o with
  | .done _ e => if e.mode = .ended then none else some (turn input e)
  | .halted _ _ => none

theorem take_step {o next : Outcome Editor Halt Unit} {input : Input} (taken : take o input = some next) :
    Step o input next := by
  cases o with
  | done value e =>
    obtain ⟨going, same⟩ := Option.ite_none_left_eq_some.mp taken
    rw [← Option.some.inj same]
    exact .turn going
  | halted reason e => cases taken

private def typed (s : String) : Input := ⟨some (text s), true⟩

private def opened (s : String) : Option Stdio.File := some (.fopen (fun _ => false) (text s))

private def behindFile : List Input := [typed "5\n", typed "i\n", typed "x\n"]

private def accessOf : Outcome Editor Halt Unit → Option Int
  | .done _ _ => none
  | .halted (.outOfBounds index) _ => some index

/-- An insertion at a line that is far behind the file moves lines that are not there. -/
theorem line_behind_file : ¬ ∀ file inputs o, Run Step (start file empty) inputs o → Kept file inputs o := by
  intro kept
  have outside : (behindFile.foldlM take (start (opened "") empty)).bind accessOf = some 5 := by decide +kernel
  obtain ⟨o, ran, outside⟩ := Option.bind_eq_some_iff.mp outside
  obtain ⟨e, desk, rfl, rest⟩ := kept (opened "") behindFile o (.of_foldlM take_step ran)
  cases outside

private def inFile (o : Outcome Editor Halt Unit) (input : Input) : Bool :=
  match input.line.map parseCommand with
  | some (.number number) => 0 ≤ number && number ≤ o.state.nlines + 1
  | _ => true

private theorem inFile_inFile {o : Outcome Editor Halt Unit} {input : Input} (passes : inFile o input = true) :
    InFile o input := by
  intro line number mode typed parsed
  unfold inFile at passes
  simpa [typed, parsed] using passes

/-- Line 2 of a file with one line, which is behind it, and a line before that place. -/
private def atEnd : List Input := [typed "2\n", typed "i\n", typed "x\n", ⟨none, true⟩]

theorem lines_kept_atEnd : ∃ o, Kept (opened "a\n") atEnd o ∧ o.state.nlines = 2 ∧
    [o.state.lines 0, o.state.lines 1] = [text "a\n", text "x\n"] := by
  let guarded (o : Outcome Editor Halt Unit) (input : Input) : Option (Outcome Editor Halt Unit) :=
    if inFile o input then take o input else none
  have sound : ∀ {before : Outcome Editor Halt Unit} {input : Input} {after : Outcome Editor Halt Unit},
      guarded before input = some after → Guarded InFile Step before input after := by
    intro before input after taken
    obtain ⟨passes, moved⟩ := Option.ite_none_right_eq_some.mp taken
    exact ⟨inFile_inFile passes, take_step moved⟩
  have leaves : (atEnd.foldlM guarded (start (opened "a\n") empty)).map
    (fun o => (o.state.nlines, o.state.lines 0, o.state.lines 1)) =
      some (2, text "a\n", text "x\n") := by decide +kernel
  obtain ⟨o, ran, same⟩ := Option.map_eq_some_iff.mp leaves
  obtain ⟨nlines, same⟩ := Prod.mk.inj same
  obtain ⟨first, second⟩ := Prod.mk.inj same
  exact ⟨o, lines_kept (.of_foldlM sound ran), nlines, by rw [first, second]⟩

end Egos.Ed
