import Egos.Apps.Strings

/-! apps/shell.c: how a line is taken apart. Words are positions in the buffer that holds
the line, and each of them is ended by a zero in place of the character behind it. -/

namespace Egos.Shell
open Strings

def MAX_ARGS : Nat := 256

/-- `while (isblank(*cmdline)) cmdline++` -/
def skipBlanks (buf : List UInt8) (cmdline : Nat) : Nat := cmdline + ((buf.drop cmdline).takeWhile isblank).length

/-- The condition under which a word goes on. -/
def inWord (c : UInt8) : Bool := c ≠ 0 && c ≠ newline && c ≠ chr '#' && c ≠ chr '&' && !isblank c

/-- `while (inWord) cmdline++` -/
def endOfWord (buf : List UInt8) (cmdline : Nat) : Nat := cmdline + ((buf.drop cmdline).takeWhile inWord).length

/-- What the loop leaves: the buffer, `new_argv` and `background`. -/
inductive Split where
  | words (buf : List UInt8) (newArgv : List Nat) (background : Bool)
  | tooMany
  /-- The loop has not come to an end. -/
  | running

/-- Split command line into tokens. -/
def split : Nat → List UInt8 → Nat → List Nat → Split
  | 0, _, _, _ => .running
  | fuel + 1, buf, cmdline, newArgv =>
    let cmdline := skipBlanks buf cmdline
    let c := byteAt buf cmdline
    if c = 0 ∨ c = newline ∨ c = chr '#' then .words buf newArgv false
    else if c = chr '&' then .words buf newArgv true
    else if newArgv.length = MAX_ARGS then .tooMany
    else
      let newArgv := newArgv ++ [cmdline]
      let cmdline := endOfWord buf cmdline
      let c := byteAt buf cmdline
      if c = 0 then .words buf newArgv false
      else if c = newline ∨ c = chr '#' then .words (buf.set cmdline 0) newArgv false
      else if c = chr '&' then .words (buf.set cmdline 0) newArgv true
      else split fuel (buf.set cmdline 0) (cmdline + 1) newArgv

/-- Macro expansion: `$0` to `$9` are the arguments of the shell, and every other word with
a dollar sign is empty. -/
def expand (argv : List (List UInt8)) (s : List UInt8) : List UInt8 :=
  if byteAt s 0 ≠ chr '$' then s
  else if isdigit (byteAt s 1) ∧ byteAt s 2 = 0 then argv.getD (byteAt s 1 - chr '0').toNat []
  else []

/-- What the shell does with a line. -/
inductive Action where
  | nothing
  | tooManyArguments
  | running
  | exit (status : Int32)
  | wait (pid : UInt32)
  /-- Without an argument, back to the home directory. -/
  | cd (dir : Option (List UInt8))
  | pathExec (argv : List (List UInt8)) (background : Bool)
  deriving DecidableEq

/-- The end of parse: the command is one of the built-in ones, or a program. -/
def execute (background : Bool) : List (List UInt8) → Action
  | [] => .nothing
  | command :: args =>
    if command = text "exit" then .exit (args.head?.elim 0 atoi)
    else if command = text "wait" then .wait (args.head?.elim 0 fun pid => (atoi pid).toUInt32)
    else if command = text "cd" then .cd args.head?
    else .pathExec (command :: args) background

def parse (argv : List (List UInt8)) (line : List UInt8) : Action :=
  match split (line.length + 1) line 0 [] with
  | .words buf newArgv background => execute background (newArgv.map fun word => expand argv (str buf word))
  | .tooMany => .tooManyArguments
  | .running => .running

end Egos.Shell
