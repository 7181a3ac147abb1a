import EnvValues.Datum

/-!
# Options

`Config` holds what a caller can choose about an expansion. It is read from a record
of options field by field: a field takes the value given under its key, if that value
has the field's type, and keeps its default otherwise. So a key nobody knows and a
value of the wrong type are both as good as absent, and no field looks at another.

The features and the limits may also be given as such, with the same outcome as the
records that spell them out. A config that is read always allows one pass. One that is
assigned later may allow none, since an assignment is taken as it is.
-/

namespace EnvValues

/-- Which kinds of syntax are honoured. -/
structure Features where
  /-- References to variables. -/
  references : Bool := true
  /-- Commands. -/
  commands : Bool := true
  /-- Backslash escapes. -/
  escapes : Bool := true
  /-- The operators `:-` and `-`. -/
  defaults : Bool := true
  /-- The operators `:+` and `+`. -/
  alternates : Bool := true
  deriving DecidableEq, Repr

/-- Ceilings on the work of one expansion. -/
structure Limits where
  /-- Longer values are not expanded. -/
  inputLength : Int := 1000000
  /-- A pass that produces more text is abandoned. -/
  outputLength : Int := 10000000
  /-- Regions nested deeper are text. -/
  nestingDepth : Int := 100
  deriving DecidableEq, Repr

/-- The options of an expansion. -/
structure Config where
  /-- How many passes may be made over a value. -/
  maxIterations : Int := 10
  /-- Does a failing command end the expansion? If not, it counts as empty. -/
  failOnCommandError : Bool := false
  /-- Is a reference to an unset variable worth a notice? -/
  warnOnUndefined : Bool := false
  /-- Do values enter a command line as they are, and not each as one word? -/
  disableSecurity : Bool := false
  /-- Is running out of passes worth a notice? -/
  warnOnMaxIterations : Bool := true
  features : Features := {}
  limits : Limits := {}
  deriving DecidableEq, Repr

/-- Options as a caller gives them: a record, in which the features and the limits may be
records too, or be given as such. -/
structure Options where
  fields : Record := []
  features : Option Features := none
  limits : Option Limits := none

namespace Features

/-- The features a record asks for. -/
def ofRecord (r : Record) : Features where
  references := (r.bool? "variables").getD true
  commands := (r.bool? "commands").getD true
  escapes := (r.bool? "escapes").getD true
  defaults := (r.bool? "defaults").getD true
  alternates := (r.bool? "alternates").getD true

end Features

namespace Limits

/-- The limits a record asks for. -/
def ofRecord (r : Record) : Limits where
  inputLength := (r.int? "max_input_length").getD 1000000
  outputLength := (r.int? "max_output_length").getD 10000000
  nestingDepth := (r.int? "max_nesting_depth").getD 100

/-- Is this much text longer than a value may be? -/
def forbidsInput (l : Limits) (length : Nat) : Bool := l.inputLength < length

/-- Is this much text more than a pass may produce? -/
def forbidsOutput (l : Limits) (length : Nat) : Bool := l.outputLength < length

end Limits

namespace Config

/-- The config a record of options asks for. -/
def ofRecord (r : Record) : Config where
  maxIterations := max 1 ((r.int? "max_iterations").getD 10)
  failOnCommandError := (r.bool? "fail_on_cmd_error").getD false
  warnOnUndefined := (r.bool? "warn_on_undefined").getD false
  disableSecurity := (r.bool? "disable_security").getD false
  warnOnMaxIterations := (r.bool? "warn_on_max_iterations").getD true
  features := .ofRecord ((r.record? "features").getD [])
  limits := .ofRecord ((r.record? "limits").getD [])

/-- The config that options ask for. Features and limits that are given as such stand for
the records in their place. -/
def ofOptions (o : Options) : Config :=
  let c := ofRecord o.fields
  { c with features := o.features.getD c.features, limits := o.limits.getD c.limits }

/-- How many passes may be made: none, where the limit is negative. -/
def budget (c : Config) : Nat := c.maxIterations.toNat

/-- Assign one field, named by its path. A value of another type than the field's, or
a path to no field, assigns nothing. -/
def assign (c : Config) : List String → Datum → Config
  | ["max_iterations"], .int n => { c with maxIterations := n }
  | ["fail_on_cmd_error"], .bool b => { c with failOnCommandError := b }
  | ["warn_on_undefined"], .bool b => { c with warnOnUndefined := b }
  | ["disable_security"], .bool b => { c with disableSecurity := b }
  | ["warn_on_max_iterations"], .bool b => { c with warnOnMaxIterations := b }
  | ["features", "variables"], .bool b => { c with features.references := b }
  | ["features", "commands"], .bool b => { c with features.commands := b }
  | ["features", "escapes"], .bool b => { c with features.escapes := b }
  | ["features", "defaults"], .bool b => { c with features.defaults := b }
  | ["features", "alternates"], .bool b => { c with features.alternates := b }
  | ["limits", "max_input_length"], .int n => { c with limits.inputLength := n }
  | ["limits", "max_output_length"], .int n => { c with limits.outputLength := n }
  | ["limits", "max_nesting_depth"], .int n => { c with limits.nestingDepth := n }
  | _, _ => c

/-- Without options, every field has its default. -/
theorem ofRecord_nil : ofRecord [] = {} := rfl

/-- A record alone asks for what it asks for as options. -/
@[simp] theorem ofOptions_fields (r : Record) : ofOptions { fields := r } = ofRecord r := rfl

/-- A config that is read allows a pass. -/
theorem one_le_maxIterations_ofOptions (o : Options) : 1 ≤ (ofOptions o).maxIterations :=
  Int.le_max_left 1 _

end Config
end EnvValues
