import EnvValues.Datum

/-!
# Notices

An expansion that goes on in spite of something says so in a notice. `Notice` lists
the occasions, so that the wording and the severity of each stand in one place.
-/

namespace EnvValues

/-- How bad the occasion of a notice is. -/
inductive Severity
  | info
  | warning
  | error
  deriving DecidableEq, Repr

namespace Severity

/-- The severity as callers name it. -/
def label : Severity → String
  | info => "info"
  | warning => "warning"
  | error => "error"

/-- The level a log files it under. -/
def level : Severity → String
  | info => "INFO"
  | warning => "WARNING"
  | error => "ERROR"

/-- The severity a label names. -/
def ofLabel? (t : Text) : Option Severity :=
  [info, warning, error].find? fun s => s.label.toList = t

/-- The severity a datum names, or why it names none. -/
def ofDatum (d : Datum) : Except Text Severity :=
  match d with
  | .text t =>
    match ofLabel? t with
    | some s => .ok s
    | none => .error (Literal.ofText t ++ " is not a valid Severity".toList)
  | d => .error (d.shown ++ " is not a valid Severity".toList)

theorem ofLabel?_label (s : Severity) : ofLabel? s.label.toList = some s := by
  cases s <;> decide

end Severity

/-- A command that did not succeed. -/
structure CommandError where
  line : Text
  exitCode : Int
  stderr : Text := []
  /-- A wording of its own, if the error has one. -/
  wording : Option Text := none
  deriving DecidableEq, Repr

namespace CommandError

/-- The error of a command line that holds no command. -/
def blank (line : Text) : CommandError :=
  { line := line, exitCode := 1, wording := some "Invalid command for substitution".toList }

/-- The wording of an error: the command line and its exit code and, where there is
more to it than blanks, what the command wrote about it. -/
def message (e : CommandError) : Text :=
  match e.wording with
  | some t => t
  | none =>
    "Command substitution failed: ".toList ++ e.line ++ " (exit code: ".toList ++
      (toString e.exitCode).toList ++ [')'] ++
      match Text.trim e.stderr with
      | [] => []
      | detail => ':' :: ' ' :: detail

end CommandError

/-- What a notice is about. -/
inductive Notice
  /-- A reference, without an operator, to a variable that has no value. -/
  | undefinedVariable (name : Text)
  /-- A command that failed and counts as empty. -/
  | commandFailed (e : CommandError)
  /-- A value too long to be expanded. -/
  | inputTooLong (length : Nat) (limit : Int)
  /-- A pass that was abandoned. -/
  | outputTooLong (limit : Int)
  /-- The passes allowed were made and there is still something to resolve. -/
  | maxIterations
  deriving DecidableEq, Repr

namespace Notice

/-- The severity of a notice. -/
def severity : Notice → Severity
  | commandFailed _ => .error
  | _ => .warning

/-- The wording of an abandoned pass. -/
def outputTooLongMessage (limit : Int) : Text :=
  "Interpolated value exceeded ".toList ++ (toString limit).toList ++
    " characters, stopping".toList

/-- The wording of a notice. -/
def message : Notice → Text
  | undefinedVariable name => "Undefined variable: ".toList ++ name
  | commandFailed e => e.message
  | inputTooLong length limit =>
    "Value too long to interpolate (".toList ++ (toString length).toList ++ " > ".toList ++
      (toString limit).toList ++ " characters)".toList
  | outputTooLong limit => outputTooLongMessage limit
  | maxIterations => "Maximum interpolation iterations reached".toList

end Notice
end EnvValues
