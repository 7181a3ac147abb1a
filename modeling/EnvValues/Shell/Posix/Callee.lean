import EnvValues.Shell.Posix.Lookup
import EnvValues.Shell.Posix.Reader.Command
import EnvValues.Shell.Posix.Redirection

/-!
# What a simple command calls

The first field of a command names what it calls, and that decides how the words behind it
are expanded: the arguments of commands about variables may be assignments. In front of a
name may stand `command`, any number of times, which looks past functions.
-/

namespace EnvValues
namespace Posix

/-- What a simple command calls. -/
structure Callee where
  /-- All fields. -/
  fields : List Text := []
  /-- How many of them stand in front of the name. -/
  before : Nat := 0
  /-- May the name stand for a function? -/
  functions : Bool := true
  /-- The search path that is to be used instead of the shell's own. -/
  path : Option Text := none
  /-- Is an error in the command one of the script? -/
  special : Bool := false
  /-- Are assignments in front of the command its own? -/
  owns : Bool := false
  /-- Does the command take the place of the process? -/
  replaces : Bool := false
  /-- May arguments be assignments? -/
  assigns : Bool := false

namespace Run

/-- Expand words up to the first that gives fields. -/
def firstFields (output : Option Command → Run Text) : List Word → Run (List Text × List Word)
  | [] => pure ([], [])
  | w :: ws => do
    match ← expandFields output w with
    | [] => firstFields output ws
    | fs => pure (fs, ws)

/-- Expand the words that are left, some of which may be assignments. -/
def restFields (output : Option Command → Run Text) (assigns : Bool) (ws : List Word) :
    Run (List Text) := do
  return (← ws.mapM fun w =>
    if assigns && isAssignment w then do return [← expandAssignment output w]
    else expandFields output w).flatten

/-- Is the field an option of `command` that only says where to look? -/
def isPathOption (t : Text) : Bool :=
  match t with
  | '-' :: c :: r => (c :: r).all (· = 'p')
  | _ => false

/-- Fields that were expanded so far, and the words behind them. -/
structure Expanded where
  fields : List Text
  rest : List Word

/-- Make sure that there is a field at a place, if there can be one. -/
def Expanded.upTo (output : Option Command → Run Text) (e : Expanded) (k : Nat) :
    Run Expanded := do
  if k < e.fields.length then pure e
  else
    let (fs, rest) ← firstFields output e.rest
    pure ⟨e.fields ++ fs, rest⟩

/-- The place of the name behind the options of `command`, if they are followed by one, and
whether they ask for the standard search path. -/
def behindOptions (output : Option Command → Run Text) (e : Expanded) (k : Nat) (standard : Bool) :
    (fuel : Nat) → Run (Expanded × Option (Nat × Bool))
  | 0 => pure (e, none)
  | fuel + 1 => do
    let e ← e.upTo output k
    match e.fields[k]? with
    | none => pure (e, none)
    | some t =>
      if t = ['-', '-'] then
        let e ← e.upTo output (k + 1)
        pure (e, if k + 1 < e.fields.length then some (k + 1, standard) else none)
      else if isPathOption t then behindOptions output e (k + 1) true fuel
      else if t.head? = some '-' && t.length > 1 then pure (e, none)
      else pure (e, some (k, standard))

/-- Go on to a name: what is called, and the fields known by then. -/
def calleeAt (output : Option Command → Run Text) (c : Callee) (e : Expanded) :
    (fuel : Nat) → Run (Callee × Expanded)
  | 0 => pure (c, e)
  | fuel + 1 => do
    let name := (e.fields[c.before]?).getD []
    let p ← process
    let isBuiltin := !(c.functions && (p.functions[name]?).isSome) &&
      (isListed specialBuiltins name || isListed otherBuiltins name)
    if !isBuiltin then pure ({ c with owns := true }, e)
    else
      let isFirst := c.before = 0 && c.functions
      let special := if isFirst then isListed specialBuiltins name else c.special
      let c := { c with
        special := special
        owns := if isFirst then !special else true
        replaces := name = "exec".toList
        assigns := isListed assigningBuiltins name }
      if name ≠ "command".toList then pure (c, e)
      else
        let (e, next) ← behindOptions output e (c.before + 1) false
          (e.fields.length + e.rest.length + 1)
        match next with
        | none => pure (c, e)
        | some (k, standard) =>
          let path := if standard then some standardPath else c.path
          calleeAt output { c with before := k, functions := false, path := path } e fuel

/-- How many commands may stand in front of a name. -/
def mostCommands : Nat := Nat.pow 2 40

/-- Find out what words call, and expand them all. -/
def callee (output : Option Command → Run Text) (ws : List Word) : Run Callee := do
  let (fs, rest) ← firstFields output ws
  if fs.isEmpty then pure {}
  else
    let (c, e) ← calleeAt output {} ⟨fs, rest⟩ mostCommands
    let more ← restFields output c.assigns e.rest
    pure { c with fields := e.fields ++ more }

end Run
end Posix
end EnvValues
