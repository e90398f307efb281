import Egos.Apps.Strings

/-! The part of lib/stdio.c that reads a file. -/

namespace Egos.Stdio
open Strings

/-- A `FILE` that is read: what the file holds from the position on. -/
structure File where
  rest : List UInt8
  pos : Nat
  /-- The FILE_READ requests that fail, by their position. -/
  fails : Nat → Bool
  /-- `flags & (_FILE_EOF | _FILE_ERROR)` -/
  stopped : Bool

/-- A file that fopen has opened. -/
def File.fopen (fails : Nat → Bool) (file : List UInt8) : File := { rest := file, pos := 0, fails, stopped := false }

/-- fgetc with fread. None is EOF, also where the request has failed. -/
def fgetc (stream : File) : Option UInt8 × File :=
  if stream.stopped then (none, stream)
  else if stream.fails stream.pos then (none, { stream with stopped := true })
  else
    match stream.rest with
    | [] => (none, { stream with stopped := true })
    | c :: rest => (some c, { stream with rest, pos := stream.pos + 1 })

/-- The loop of fgets, with room for so many characters. -/
def takeLine : Nat → File → List UInt8 × File
  | 0, stream => ([], stream)
  | room + 1, stream =>
    match fgetc stream with
    | (none, stream) => ([], stream)
    | (some c, stream) =>
      if c = newline then ([c], stream)
      else (c :: (takeLine room stream).1, (takeLine room stream).2)

/-- The line, or null if there is no character any more. -/
def fgets (size : Nat) (stream : File) : Option (List UInt8 × File) :=
  match takeLine (size - 1) stream with
  | ([], _) => none
  | (line, stream) => some (line, stream)

/-- The lines that fgets returns until it returns null. -/
def linesOf (size : Nat) : Nat → File → List (List UInt8)
  | 0, _ => []
  | fuel + 1, stream =>
    match fgets size stream with
    | none => []
    | some (line, stream) => line :: linesOf size fuel stream

def lines (size : Nat) (stream : File) : List (List UInt8) := linesOf size (stream.rest.length + 1) stream

/-- What fgets returns: a newline is only at the end. -/
structure Piece (line : List UInt8) : Prop where
  some : line ≠ []
  inner : newline ∉ line.dropLast

/-- The bytes before the first request that fails. -/
def readable (fails : Nat → Bool) : Nat → List UInt8 → List UInt8
  | _, [] => []
  | pos, c :: rest => if fails pos then [] else c :: readable fails (pos + 1) rest

def File.readable (stream : File) : List UInt8 :=
  if stream.stopped then [] else Stdio.readable stream.fails stream.pos stream.rest

theorem readable_begins (fails : Nat → Bool) (pos : Nat) (rest : List UInt8) : readable fails pos rest <+: rest := by
  induction rest generalizing pos with
  | nil => exact List.prefix_refl []
  | cons c rest ih =>
    unfold readable
    split
    case isTrue => exact List.nil_prefix
    case isFalse => exact List.cons_prefix_cons.mpr ⟨rfl, ih (pos + 1)⟩

theorem File.readable_begins (stream : File) : stream.readable <+: stream.rest := by
  unfold File.readable
  split
  case isTrue => exact List.nil_prefix
  case isFalse => exact Stdio.readable_begins ..

/-- If no request fails all can be read. -/
theorem readable_all {fails : Nat → Bool} (fine : ∀ pos, fails pos = false) (pos : Nat) (rest : List UInt8) :
    readable fails pos rest = rest := by
  induction rest generalizing pos with
  | nil => rfl
  | cons c rest ih =>
    unfold readable
    rw [fine, if_neg Bool.false_ne_true, ih]

theorem File.fopen_readable {fails : Nat → Bool} (fine : ∀ pos, fails pos = false) (file : List UInt8) :
    (File.fopen fails file).readable = file :=
  readable_all fine 0 file

/-- Either a character is read, or nothing can be read any more. -/
theorem fgetc_cases (stream : File) :
    (∃ c after, fgetc stream = (some c, after) ∧ stream.readable = c :: after.readable) ∨
    ∃ after, fgetc stream = (none, after) ∧ stream.readable = [] ∧ after.readable = [] := by
  obtain ⟨rest, pos, fails, stopped⟩ := stream
  let ended : File := { rest, pos, fails, stopped := true }
  cases stopped with
  | true => exact .inr ⟨ended, rfl, rfl, rfl⟩
  | false =>
    cases rest with
    | nil =>
      refine .inr ⟨ended, ?_, rfl, rfl⟩
      cases failed : fails pos with
      | true => simp [fgetc, failed, ended]
      | false => simp [fgetc, failed, ended]
    | cons c rest =>
      cases failed : fails pos with
      | true => exact .inr ⟨ended, by simp [fgetc, failed, ended], by simp [File.readable, readable, failed], rfl⟩
      | false =>
        exact .inl ⟨c, { rest, pos := pos + 1, fails, stopped := false }, by simp [fgetc, failed], by simp [File.readable, readable, failed]⟩

theorem takeLine_append (room : Nat) (stream : File) :
    (takeLine room stream).1 ++ (takeLine room stream).2.readable = stream.readable := by
  induction room generalizing stream with
  | zero => rfl
  | succ room ih =>
    unfold takeLine
    rcases fgetc_cases stream with ⟨c, after, got, whole⟩ | ⟨after, ended, none, still⟩
    · rw [got, whole]
      dsimp only
      split
      case isTrue => rfl
      case isFalse => rw [List.cons_append, ih]
    · rw [ended, none]
      exact still

theorem takeLine_inner (room : Nat) (stream : File) : newline ∉ (takeLine room stream).1.dropLast := by
  induction room generalizing stream with
  | zero => exact List.not_mem_nil
  | succ room ih =>
    unfold takeLine
    cases fgetc stream with
    | mk read after =>
      cases read with
      | none => exact List.not_mem_nil
      | some c =>
        dsimp only
        split
        case isTrue => exact List.not_mem_nil
        case isFalse other =>
          dsimp only
          cases taken : (takeLine room after).1 with
          | nil => exact List.not_mem_nil
          | cons d line =>
            rw [List.dropLast_cons_cons]
            have later := ih after
            rw [taken] at later
            exact fun member => (List.mem_cons.mp member).elim (fun same => other same.symm) later

theorem fgets_piece {size : Nat} {stream after : File} {line : List UInt8}
    (got : fgets size stream = some (line, after)) :
    Piece line ∧ line ++ after.readable = stream.readable := by
  unfold fgets at got
  have whole := takeLine_append (size - 1) stream
  have inner := takeLine_inner (size - 1) stream
  cases taken : takeLine (size - 1) stream with
  | mk first last =>
    rw [taken] at got whole inner
    cases first with
    | nil => cases got
    | cons c first =>
      cases got
      exact ⟨⟨List.cons_ne_nil _ _, inner⟩, whole⟩

theorem fgets_none {size : Nat} {stream : File} (room : 2 ≤ size) (ended : fgets size stream = none) :
    stream.readable = [] := by
  obtain ⟨more, rfl⟩ := Nat.exists_eq_add_of_le' room
  rcases fgetc_cases stream with ⟨c, after, got, _⟩ | ⟨after, _, none, _⟩
  · unfold fgets takeLine at ended
    by_cases last : c = newline
    · simp [got, last] at ended
    · simp [got, last] at ended
  · exact none

theorem linesOf_pieces {size fuel : Nat} {stream : File} : ∀ line ∈ linesOf size fuel stream, Piece line := by
  induction fuel generalizing stream with
  | zero => exact fun _ member => absurd member List.not_mem_nil
  | succ fuel ih =>
    unfold linesOf
    cases got : fgets size stream with
    | none => exact fun _ member => absurd member List.not_mem_nil
    | some read => exact List.forall_mem_cons.mpr ⟨(fgets_piece got).1, ih⟩

/-- The lines that are read make up what can be read of the file. -/
theorem linesOf_flatten {size fuel : Nat} {stream : File} (room : 2 ≤ size) (enough : stream.readable.length < fuel) :
    (linesOf size fuel stream).flatten = stream.readable := by
  induction fuel generalizing stream with
  | zero => exact absurd enough (Nat.not_lt_zero _)
  | succ fuel ih =>
    unfold linesOf
    cases got : fgets size stream with
    | none => exact (fgets_none room got).symm
    | some read =>
      obtain ⟨piece, whole⟩ := fgets_piece got
      have shorter : read.2.readable.length < fuel := by
        have some := List.length_pos_iff.mpr piece.some
        have length := congrArg List.length whole
        rw [List.length_append] at length
        omega
      rw [List.flatten_cons, ih shorter, whole]

theorem lines_flatten {size : Nat} (stream : File) (room : 2 ≤ size) : (lines size stream).flatten = stream.readable :=
  linesOf_flatten room (Nat.lt_succ_of_le stream.readable_begins.length_le)

end Egos.Stdio
