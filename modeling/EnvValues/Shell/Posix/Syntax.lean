import EnvValues.Text.Basic

/-!
# The language of a shell

What a shell reads: words, redirections and commands. A word is kept as it is written,
with its quotes, because what a character means depends on where its word stands: the
same word is a pattern in one place and is split into fields in another one.

Texts here are rows of bytes: each character stands for the byte of its code.
-/

namespace EnvValues
namespace Posix

/-- What is done with the value of a parameter. The word that goes with it may be used
instead of the value; with a colon, an empty value counts as none. -/
inductive Use
  | value
  | length
  /-- The word where there is no value. -/
  | otherwise (colon : Bool)
  /-- The same, and the parameter takes the word as its value. -/
  | assign (colon : Bool)
  /-- An error where there is no value. -/
  | require (colon : Bool)
  /-- The word where there is a value. -/
  | instead (colon : Bool)
  /-- The value without what a pattern matches at its beginning or end. -/
  | trim (atEnd longest : Bool)
  /-- Nothing that could be done. -/
  | bad
  deriving DecidableEq, Repr, Inhabited

/-- How a file is opened. -/
inductive Access
  | read
  | readWrite
  /-- Begin it anew. Options may forbid that for a file that is there. -/
  | write
  /-- Begin it anew, whatever the options say. -/
  | overwrite
  | append
  deriving DecidableEq, Repr, Inhabited

mutual

/-- One part of a word. -/
inductive Part
  /-- A character that may have a meaning. -/
  | char (c : Char)
  /-- A character that stands for itself. -/
  | escaped (c : Char)
  /-- A quotation begins or ends. -/
  | mark
  /-- A parameter, and the word that goes with its use. -/
  | parameter (name : Text) (use : Use) (word : List Part)
  /-- What a command writes. -/
  | output (c : Option Command)
  /-- The value of an arithmetic expression. -/
  | arithmetic (expression : List Part)
  /-- The word ends here, whatever stands behind. -/
  | stop

/-- A change of where one descriptor leads. -/
inductive Redirect
  /-- To a file. -/
  | file (descriptor : Nat) (access : Access) (name : List Part)
  /-- To where another one leads; nowhere, if there is none. -/
  | copy (descriptor : Nat) (source : Option Nat)
  /-- The same, with the other one named by a word. -/
  | copyNamed (descriptor : Nat) (source : List Part)
  /-- To a text that stood behind the line of the command, known by its number. -/
  | document (descriptor : Nat) (number : Nat)

/-- A command. Those that can complain know their line. -/
inductive Command
  | simple (line : Nat) (assignments words : List (List Part)) (redirects : List Redirect)
  | pipeline (background : Bool) (stages : List Command)
  | redirected (line : Nat) (body : Command) (redirects : List Redirect)
  | subshell (line : Nat) (body : Command) (redirects : List Redirect)
  /-- A command that is not waited for. -/
  | background (body : Command) (redirects : List Redirect)
  | negation (body : Command)
  | both (a b : Command)
  | either (a b : Command)
  | sequence (a b : Command)
  | conditional (test yes : Command) (no : Option Command)
  /-- Repeat the body while, or until, the test succeeds. -/
  | loop (untilTrue : Bool) (test body : Command)
  | forEach (line : Nat) (name : Text) (words : List (List Part)) (body : Command)
  /-- The command of the first pattern that matches the word. -/
  | select (line : Nat) (word : List Part) (branches : List (List (List Part) × Option Command))
  | define (line : Nat) (name : Text) (body : Command)

end

/-- A word of a command. -/
abbrev Word := List Part

instance : Inhabited Part := ⟨.mark⟩
instance : Inhabited Command := ⟨.simple 0 [] [] []⟩

/-- The branches of a selection: the patterns of each, and its command. -/
abbrev Branch := List Word × Option Command

/-- The text of a word in which nothing is quoted or expanded. -/
def plainText? (w : Word) : Option Text :=
  w.foldr (fun p t =>
    match p, t with
    | .char c, some t => some (c :: t)
    | _, _ => none) (some [])

end Posix
end EnvValues
