import Egos.Apps.Stdio
import Egos.Library.Program
import Egos.Library.Transition
import Mathlib.Algebra.Order.Ring.Int

/-! apps/ed.c: the line editor. The array `lines` is a function of the index; only the
places from 0 to `nlines` may be touched. -/

namespace Egos.Ed
open Library Strings

abbrev Line := List UInt8

/-- What main does next: it reads a command or, after `i`, `c` and `a`, lines. -/
inductive Mode where
  | command
  /-- `insert(line); curline++` -/
  | inserting
  /-- `curline++; insert(line)` -/
  | appending
  | ended
  deriving DecidableEq

inductive Output where
  | text (message : String)
  /-- A line with its number. -/
  | line (number : Int) (line : Line)
  deriving DecidableEq

structure Editor where
  lines : Int → Line
  nlines : Int
  curline : Int
  modified : Bool
  mode : Mode
  output : List Output

inductive Halt where
  /-- `lines` is accessed at an index that is not in its range. -/
  | outOfBounds (index : Int)
  deriving DecidableEq

abbrev Action := Prog Editor Halt

def say (out : Output) : Action Unit := .modify fun e => { e with output := e.output ++ [out] }

/-- An access to `lines[index]`. -/
def touch (index : Int) : Action Unit := fun e =>
  if 0 ≤ index ∧ index < e.nlines then .done () e else .halted (.outOfBounds index) e

/-- `memmove(&lines[dst], &lines[src], count * sizeof(char *))`, where a negative count is
a huge one. -/
def moveLines (dst src count : Int) : Action Unit :=
  if count = 0 then pure ()
  else do
    touch dst
    touch src
    if count < 0 then .halt (.outOfBounds count)
    else do
      touch (dst + count - 1)
      touch (src + count - 1)
      .modify fun e => { e with lines := fun i => if dst ≤ i ∧ i < dst + count then e.lines (i - dst + src) else e.lines i }

def setLine (index : Int) (line : Line) : Action Unit := do
  touch index
  .modify fun e => { e with lines := Function.update e.lines index line }

/-- The loop of print. -/
def printFrom : Nat → Int → Action Unit
  | 0, _ => pure ()
  | left + 1, line => do
    touch line
    let e ← .get
    say (.line (line + 1) (e.lines line))
    printFrom left (line + 1)

def print (start finish : Int) : Action Unit := do
  let e ← .get
  if e.curline ≤ 0 then say (.text "prior to start of file")
  else if e.curline > e.nlines then say (.text "at end of file")
  else if start ≥ finish then say (.text "no lines to print")
  else
    let finish := if finish > e.nlines then e.nlines else finish
    printFrom (finish - start).toNat start

/-- Only the part before the first zero is copied. -/
def insert (line : Line) : Action Unit := do
  .modify fun e => { e with nlines := e.nlines + 1 }
  let e ← .get
  moveLines e.curline (e.curline - 1) (e.nlines - e.curline)
  setLine (e.curline - 1) (str line 0)

def setCurline (curline : Int → Int) : Action Unit := .modify fun e => { e with curline := curline e.curline }

def setMode (mode : Mode) : Action Unit := .modify fun e => { e with mode }

/-- The line at the current position goes, and the lines behind it move up. -/
def remove : Action Unit := do
  let e ← .get
  touch (e.curline - 1)
  moveLines (e.curline - 1) e.curline (e.nlines - e.curline)
  .modify fun e => { e with nlines := e.nlines - 1 }

/-- The loop of save. -/
def putLines : Nat → Int → Action Unit
  | 0, _ => pure ()
  | left + 1, line => do
    touch line
    putLines left (line + 1)

/-- What is written is left out. `opens` tells whether fopen returns a file. -/
def save (opens : Bool) : Action Unit := do
  let e ← .get
  if !e.modified then say (.text "no changes")
  else if !opens then say (.text "save: can't open file for writing")
  else do
    putLines e.nlines.toNat 0
    .modify fun e => { e with modified := false }

/-- The commands that main tells apart, in its order. -/
inductive Command where
  | print
  | page
  | next
  | all
  | back
  | last
  | delete
  | insert
  | change
  | append
  | write
  | quit
  | abandon
  | number (curline : Int)
  | unknown
  deriving DecidableEq

def parseCommand (line : Line) : Command :=
  let s := str line 0
  if s = text "p\n" then .print
  else if s = text "z\n" then .page
  else if s = text "\n" then .next
  else if s = text "P\n" then .all
  else if s = text "-\n" then .back
  else if s = text "$\n" then .last
  else if s = text "d\n" then .delete
  else if s = text "i\n" then .insert
  else if s = text "c\n" then .change
  else if s = text "a\n" then .append
  else if s = text "w\n" then .write
  else if s = text "q\n" then .quit
  else if s = text "Q\n" then .abandon
  else if isDigitChar (byteAt line 0) then .number (atoi s).toInt
  else .unknown

def perform (opens : Bool) : Command → Action Unit
  | .print => do
    let e ← .get
    Ed.print (e.curline - 1) e.curline
  | .page => do
    let e ← .get
    Ed.print (e.curline - 1) (e.curline + 9)
    setCurline (· + 10)
    .modify fun e => { e with curline := if e.curline > e.nlines + 1 then e.nlines + 1 else e.curline }
  | .next => do
    .modify fun e => { e with curline := if e.curline ≤ e.nlines then e.curline + 1 else e.curline }
    let e ← .get
    Ed.print (e.curline - 1) e.curline
  | .all => do
    .modify fun e => { e with curline := e.nlines }
    let e ← .get
    Ed.print 0 e.nlines
  | .back => do
    setCurline fun curline => if curline > 0 then curline - 1 else curline
    let e ← .get
    Ed.print (e.curline - 1) e.curline
  | .last => do
    .modify fun e => { e with curline := e.nlines }
    let e ← .get
    Ed.print (e.curline - 1) e.curline
  | .delete => do
    let e ← .get
    if e.curline ≤ 0 ∨ e.curline > e.nlines then say (.text "can't delete outside file")
    else do
      remove
      .modify fun e => { e with modified := true }
  | .insert => do
    setCurline fun curline => if curline ≤ 0 then 1 else curline
    setMode .inserting
  | .change => do
    let e ← .get
    if e.curline ≤ 0 ∨ e.curline > e.nlines then say (.text "can't change outside file")
    else do
      remove
      setMode .inserting
  | .append => do
    .modify fun e => { e with curline := if e.curline > e.nlines then e.curline - 1 else e.curline }
    setMode .appending
  | .write => save opens
  | .quit => do
    let e ← .get
    if e.modified then say (.text "save first, or use Q")
    else setMode .ended
  | .abandon => setMode .ended
  | .number curline => do
    setCurline fun _ => curline
    let e ← .get
    Ed.print (e.curline - 1) e.curline
  | .unknown => say (.text "unknown command")

/-- What a call of fgets on the terminal returns: a line, or null at the end of the input.
For the command `w`, also whether the file can be opened. -/
structure Input where
  line : Option Line
  opens : Bool

/-- One turn of the loop that reads commands, or of one that reads lines. -/
def turn (input : Input) : Action Unit := do
  let e ← .get
  match e.mode, input.line with
  | .command, some line => perform input.opens (parseCommand line)
  | .command, none => setMode .ended
  | .inserting, some line => do
    insert line
    setCurline (· + 1)
    .modify fun e => { e with modified := true }
  | .appending, some line => do
    setCurline (· + 1)
    insert line
    .modify fun e => { e with modified := true }
  | .inserting, none | .appending, none => setMode .command
  | .ended, _ => pure ()

def MAX_LINE_SIZE : Nat := 4096

def load : List Line → Action Unit
  | [] => pure ()
  | line :: rest => do
    setCurline (· + 1)
    insert line
    load rest

def empty : Editor := { lines := fun _ => [], nlines := 0, curline := 0, modified := false, mode := .command, output := [] }

/-- The part of main before the loop. The file is there if it can be opened. -/
def start (file : Option Stdio.File) : Action Unit := do
  match file with
  | none => do
    say (.text "can't open")
    .modify fun e => { e with modified := true }
  | some file => load (Stdio.lines MAX_LINE_SIZE file)
  setCurline fun _ => 0

/-- A turn of a loop of main. An access outside of the array ends the editor. -/
inductive Step : Outcome Editor Halt Unit → Input → Outcome Editor Halt Unit → Prop where
  | turn {e input} : e.mode ≠ .ended → Step (.done () e) input (turn input e)

end Egos.Ed
