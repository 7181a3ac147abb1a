import EnvValues.Assignment
import EnvValues.Datum

/-!
# Variables

A variable has a value and, for diagnostics only, the text it was written as. Callers
give variables in several shapes: a finished entry, a record with a value, or
anything that can be taken as a text. `Variables.ofGiven` turns all of them into
entries, once, so that what a caller changes later is not seen.
-/

namespace EnvValues

/-- A variable as it is stored. -/
structure Entry where
  /-- The value that references take. -/
  value : Text
  /-- The value as it was written, where that is known. -/
  written : Option Text := none
  deriving DecidableEq, Repr

/-- A variable as a caller gives it. -/
inductive Given
  | entry (e : Entry)
  | datum (d : Datum)
  deriving Repr

namespace Entry

/-- The entry for a datum: a record gives its `value` and its `raw_value`, a missing
value is empty, and anything else is taken as a text. -/
def ofDatum : Datum → Entry
  | .null => { value := [] }
  | .record r =>
    { value := ((Record.datum? r "value").map Datum.asText).getD []
      written := (Record.datum? r "raw_value").map Datum.asText }
  | d => { value := d.asText }

/-- The entry for a variable as it is given: an entry is used as it is. -/
def ofGiven : Given → Entry
  | .entry e => e
  | .datum d => ofDatum d

end Entry

/-- Variables by name. -/
abbrev Variables := Assignment Entry

namespace Variables

/-- The variables a caller gives. -/
def ofGiven (l : List (Text × Given)) : Variables :=
  Assignment.ofList (l.map fun p => (p.1, Entry.ofGiven p.2))

/-- The values alone. -/
def values (v : Variables) : Assignment Text := v.map fun _ e => e.value

@[simp] theorem getElem?_values (v : Variables) (name : Text) :
    (values v)[name]? = v[name]?.map Entry.value := by
  rw [values, Std.ExtTreeMap.getElem?_map]

end Variables
end EnvValues
