import EnvValues.Shell.Posix.Machine

/-!
# Variables of a shell

Every change of a variable goes through `Run.setVariable`, which refuses to change one
that is read-only, and tells those who hang on the value: the place of `getopts`, and the
programs that were found on the search path.

A command may have variables of its own for as long as it runs. What they were before is
kept in a frame, which `Run.closeFrame` takes away again.
-/

namespace EnvValues
namespace Posix

/-- What a variable is made besides getting a value. -/
structure Marks where
  exported : Bool := false
  readOnly : Bool := false
  fixed : Bool := false

/-- The directories in which programs are looked for, unless told otherwise. -/
def standardPath : Text :=
  "/usr/local/sbin:/usr/local/bin:/usr/sbin:/usr/bin:/sbin:/bin".toList

/-- The place of a variable among others: the number of a bin, and within a bin the order
in which they came. -/
def bin (name : Text) : Nat :=
  let first := (name.head?.map Char.toNat).getD 0
  ((first <<< 4) + (name.foldl (fun n c => n + c.toNat) 0)) % 39

namespace Run

/-- The value of a variable. -/
def lookup (name : Text) : Run (Option Text) := do
  return (← process).bindings[name]?.bind Variable.value

/-- Tell those who hang on the value of a variable. -/
def noticeChange (name : Text) (value : Option Text) : Run Unit := do
  if name = "OPTIND".toList then
    let n ← number (value.getD [])
    update fun p => { p with optionIndex := if n = 0 then 1 else n, optionOffset := none }
  if name = "PATH".toList then update fun p => { p with remembered := [] }

/-- Give a variable a value, or take it away, and mark it. -/
def setVariable (name : Text) (value : Option Text) (marks : Marks) (noticed : Bool) :
    Run Unit := do
  let p ← process
  let marks := { marks with exported := marks.exported || p.options.contains 'a' }
  let unmarked := value.isNone && !marks.exported && !marks.readOnly && !marks.fixed
  match p.bindings[name]? with
  | some v =>
    if v.readOnly then fail (name ++ ": is read only".toList)
    if noticed then noticeChange name value
    if unmarked && !v.fixed then
      update fun p => { p with bindings := p.bindings.erase name }
    else
      let v : Variable := { v with
        value := value
        exported := v.exported || marks.exported
        readOnly := marks.readOnly
        fixed := v.fixed || marks.fixed }
      update fun p => { p with bindings := p.bindings.insert name v }
  | none =>
    if !unmarked then
      let v : Variable := ⟨value, marks.exported, marks.readOnly, marks.fixed, p.nextSerial⟩
      update fun p => { p with
        bindings := p.bindings.insert name v, nextSerial := p.nextSerial + 1 }

/-- Refuse what is no name. -/
def checkName (name : Text) : Run Unit := do
  if !Name.isName name then fail (name.takeWhile (· ≠ '=') ++ ": bad variable name".toList)

/-- Give a variable a value. -/
def assign (name value : Text) (marks : Marks) : Run Unit := do
  checkName name
  setVariable name (some value) marks true

/-- Take away a variable. -/
def unset (name : Text) : Run Unit := do
  checkName name
  setVariable name none {} true

/-- The characters that separate fields. -/
def separators : Run Text := return (← lookup "IFS".toList).getD " \t\n".toList

/-- The variables, in the order in which programs get to know them. -/
def variablesInOrder : Run (List (Text × Variable)) := do
  let vs := (← process).bindings.toList
  return vs.mergeSort fun a b =>
    bin a.1 < bin b.1 || (bin a.1 = bin b.1 && a.2.serial ≤ b.2.serial)

/-- The variables that programs get to know, and their values. -/
def environment : Run (List (Text × Text)) := do
  return (← variablesInOrder).filterMap fun (n, v) =>
    if v.exported then v.value.map fun t => (n, t) else none

/-! ## Frames -/

/-- Begin to keep what is changed. -/
def openFrame : Run Unit := update fun p => { p with locals := [] :: p.locals }

/-- Keep something in the innermost frame. -/
def keep (s : Saved) : Run Unit :=
  update fun p => match p.locals with
    | f :: fs => { p with locals := (s :: f) :: fs }
    | [] => p

/-- Let a variable be the innermost command's own, with a new value if there is one. -/
def ownVariable (name : Text) (value : Option Text) (marks : Marks) : Run Unit := do
  let before := (← process).bindings[name]?
  match before with
  | none =>
    checkName name
    setVariable name value { marks with fixed := true } true
  | some v =>
    update fun p => { p with bindings := p.bindings.insert name { v with fixed := true } }
    if value.isSome then setVariable name value marks true
  keep (.variable name before)

/-- Let the options be the innermost command's own. -/
def ownOptions : Run Unit := do
  keep (.options (← process).options)

/-- Restore something. -/
def restore : Saved → Run Unit
  | .options before => update fun p => { p with options := before }
  | .variable name none => do
    update fun p => match p.bindings[name]? with
      | some v =>
        { p with bindings := p.bindings.insert name { v with fixed := false, readOnly := false } }
      | none => p
    setVariable name none {} true
  | .variable name (some v) => do
    noticeChange name v.value
    update fun p => { p with bindings := p.bindings.insert name v }

/-- Restore what the innermost frame keeps. -/
def closeFrame : Run Unit := do
  match (← process).locals with
  | f :: fs =>
    update fun p => { p with locals := fs }
    f.forM restore
  | [] => pure ()

end Run

/-- The variables that every shell has, and what they are at first. -/
def firstVariables : List (String × Option Text) :=
  [("ATTY", none), ("IFS", some " \t\n".toList), ("MAIL", none), ("MAILPATH", none),
   ("PATH", some standardPath), ("PS1", some "# ".toList), ("PS2", some "> ".toList),
   ("PS4", some "+ ".toList), ("OPTIND", some ['1'])]

end Posix
end EnvValues
