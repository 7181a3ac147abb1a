import EnvValues.Shell.Posix.Machine
import EnvValues.Shell.Posix.Pattern

/-!
# Programs

A program is known by the name it was started by, and gets arguments. It reads from and
writes to descriptors, complains in its own name, and gives an exit status.
-/

namespace EnvValues
namespace Posix

/-- A program. -/
abbrev Program := (name : Text) → (args : List Text) → Run Nat

namespace Program

/-- Complain. -/
def complain (name : Text) (t : Text) : Run Unit :=
  Run.writeError (name ++ ": ".toList ++ t ++ ['\n'])

/-- Tell where help is to be had. -/
def suggestHelp (name : Text) : Run Unit :=
  Run.writeError ("Try \'".toList ++ name ++ " --help\' for more information.\n".toList)

/-- Complain about wrong use, and end. -/
def misused (status : Nat) (name : Text) (t : Text) : Run Nat := do
  complain name t
  suggestHelp name
  pure status

/-- Write output; the exit status is `status`, unless writing fails. -/
def write (name : Text) (t : Text) (status : Nat) : Run Nat := do
  if t.isEmpty then pure status
  else
    match ← Run.writeTo 1 t with
    | none => pure status
    | some e => do
      complain name ("write error: ".toList ++ e.message.toList)
      pure 1

/-- What there is to read in a file, or in the input if the name is a dash, not more than
so many bytes if there is a limit. -/
def readFile (path : Text) (limit : Option Nat) : Run (Except SystemError Text) := do
  if path = ['-'] then Run.readFrom 0 limit
  else
    match ← Run.openForReading path with
    | .ok d => Run.readOpened d.target limit
    | .error e => pure (.error e)

/-- The lines of a text, without the newlines they end in. -/
def linesOf (t : Text) : List Text :=
  let ls := Text.pieces '\n' t
  if ls.getLast? = some [] then ls.dropLast else ls

/-- Lines as a text. -/
def textOf (ls : List Text) : Text := ls.flatMap fun l => l ++ ['\n']

/-- An option of a program: its letter, and its argument if it takes one. -/
structure Chosen where
  letter : Char
  argument : Text

/-- What came of reading arguments. -/
inductive Usage
  /-- The options, and the arguments that are none. -/
  | fine (chosen : List Chosen) (operands : List Text)
  /-- A letter is no option. -/
  | unknown (letter : Char)
  /-- An option lacks its argument. -/
  | lacking (letter : Char)

/-- Read the letters of an argument, with the arguments behind it. Gives the options and
the arguments left, or a letter that cannot stand there. -/
def letters (plain taking : Text) (done : List Chosen) (args : List Text) :
    Text → Except (Char × Bool) (List Chosen × List Text)
  | [] => .ok (done, args)
  | c :: r =>
    if taking.contains c then
      match r, args with
      | [], [] => .error (c, true)
      | [], a :: args => .ok (done ++ [⟨c, a⟩], args)
      | r, args => .ok (done ++ [⟨c, r⟩], args)
    else if plain.contains c then letters plain taking (done ++ [⟨c, []⟩]) args r
    else .error (c, false)

/-- Read arguments, in which options and others may be mixed. -/
def usage (plain taking : Text) (done : List Chosen) (operands : List Text) :
    (fuel : Nat) → List Text → Usage
  | 0, _ => .fine done operands
  | fuel + 1, args =>
    match args with
    | [] => .fine done operands
    | ['-', '-'] :: r => .fine done (operands ++ r)
    | ('-' :: c :: t) :: r =>
      match letters plain taking done r (c :: t) with
      | .ok (done, r) => usage plain taking done operands fuel r
      | .error (c, true) => .lacking c
      | .error (c, false) => .unknown c
    | a :: r => usage plain taking done (operands ++ [a]) fuel r

/-- Read arguments and go on with them, or complain about them. -/
def withOptions (plain taking : String) (name : Text) (args : List Text)
    (k : List Chosen → List Text → Run Nat) : Run Nat :=
  match usage plain.toList taking.toList [] [] (args.length + 1) args with
  | .fine chosen operands => k chosen operands
  | .unknown c => misused 1 name ("invalid option -- \'".toList ++ [c, '\''])
  | .lacking c => misused 1 name ("option requires an argument -- \'".toList ++ [c, '\''])

/-- Was the option chosen? -/
def has (c : Char) (chosen : List Chosen) : Bool := chosen.any fun o => o.letter = c

/-- The argument of the last one of the options of a letter. -/
def argument? (c : Char) (chosen : List Chosen) : Option Text :=
  (chosen.reverse.find? fun o => o.letter = c).map Chosen.argument

/-- The text in single quotes. -/
def quoted (t : Text) : Text := '\'' :: t ++ ['\'']

/-- A path without the slashes it ends in. -/
def withoutSlashes (t : Text) : Text :=
  match (t.reverse.dropWhile (· = '/')).reverse with
  | [] => if t.isEmpty then [] else ['/']
  | u => u

/-- Go through files, or through the input if there are none, and complain about those that
cannot be read. Gives what was read, by name, and the exit status. -/
def readAll (complaint : Text → SystemError → Text) (name : Text) (files : List Text) :
    Run (List (Text × Text) × Nat) := do
  let mut found := #[]
  let mut status := 0
  for f in (if files.isEmpty then [['-']] else files) do
    match ← readFile f none with
    | .ok t => found := found.push (f, t)
    | .error e =>
      complain name (complaint f e)
      status := 1
  pure (found.toList, status)

/-- Complain about a file in the plainest way. -/
def plainComplaint (f : Text) (e : SystemError) : Text := f ++ ": ".toList ++ e.message.toList

end Program
end Posix
end EnvValues
