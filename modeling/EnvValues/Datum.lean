import EnvValues.Text.Literal

/-!
# Loosely typed data

Options and variables come from outside, as data whose types nobody has checked.
A consumer asks a record for a field of the type it needs and gets nothing when the
field is missing or of another type: **a truth value is not an integer, and a
fraction is not one either, whatever it is worth.**

`Datum.text` is how a datum is turned into text where a text is wanted.
-/

namespace EnvValues

/-- A datum. A fraction is kept as it was written. -/
inductive Datum
  | null
  | bool (b : Bool)
  | int (n : Int)
  | fraction (written : Text)
  | text (t : Text)
  | list (items : List Datum)
  | record (fields : List (String × Datum))
  deriving Repr, Inhabited

/-- The fields of a record. -/
abbrev Record := List (String × Datum)

namespace Record

/-- The truth value in a field. -/
def bool? (r : Record) (key : String) : Option Bool :=
  match r.lookup key with
  | some (.bool b) => some b
  | _ => none

/-- The integer in a field. -/
def int? (r : Record) (key : String) : Option Int :=
  match r.lookup key with
  | some (.int n) => some n
  | _ => none

/-- The fields of the record in a field. -/
def record? (r : Record) (key : String) : Option Record :=
  match r.lookup key with
  | some (.record s) => some s
  | _ => none

/-- The datum in a field, a null counting as no datum. -/
def datum? (r : Record) (key : String) : Option Datum :=
  match r.lookup key with
  | none | some .null => none
  | some d => some d

end Record

namespace Datum

/-- Texts in a row, with a comma and a space between them. -/
def commaSeparated (ts : List Text) : Text := [',', ' '].intercalate ts

mutual

/-- A datum as it is shown inside a list or a record. -/
def shown : Datum → Text
  | null => "None".toList
  | bool true => "True".toList
  | bool false => "False".toList
  | int n => (toString n).toList
  | fraction w => w
  | text t => Literal.ofText t
  | list items => '[' :: (commaSeparated (shownItems items) ++ [']'])
  | record fields => '{' :: (commaSeparated (shownFields fields) ++ ['}'])

/-- The items of a list as they are shown. -/
def shownItems : List Datum → List Text
  | [] => []
  | d :: ds => shown d :: shownItems ds

/-- The fields of a record as they are shown. -/
def shownFields : List (String × Datum) → List Text
  | [] => []
  | (key, d) :: fs => (Literal.ofText key.toList ++ (':' :: ' ' :: shown d)) :: shownFields fs

end

/-- The text a datum gives where a text is wanted: a text gives itself. -/
def asText : Datum → Text
  | text t => t
  | d => shown d

end Datum
end EnvValues
