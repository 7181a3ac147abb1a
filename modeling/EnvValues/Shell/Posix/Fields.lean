import EnvValues.Shell.Posix.Pattern

/-!
# Expanded words

Expanding a word gives items: characters, quotation marks, and marks around what may be
split into fields. **Only what stands between such marks is split**, and only characters
that are not escaped can be special in a pattern.
-/

namespace EnvValues
namespace Posix

/-- What the expansion of a word consists of. -/
inductive Item
  | char (c : Char)
  /-- A character that stands for itself. -/
  | escaped (c : Char)
  /-- A quotation began or ended here, so there is a field even if it is empty. -/
  | mark
  /-- What follows may be split, or is split at null bytes only. -/
  | splitting (atNulls : Bool)
  /-- What follows is not split. -/
  | whole
  deriving DecidableEq, Repr

namespace Item

/-- The character of an item. -/
def char? : Item → Option Char
  | char c | escaped c => some c
  | _ => none

/-- The characters of items. -/
def text (items : List Item) : Text := items.filterMap char?

/-- The characters of a value. Between quotes, those that could mean something are
escaped. -/
def ofValue (quoted : Bool) (t : Text) : List Item :=
  t.map fun c =>
    if quoted && ("!*?[=~:/-]\\".toList.contains c) then escaped c else char c

/-- Items that may be split. -/
def split (atNulls : Bool) (items : List Item) : List Item :=
  splitting atNulls :: items ++ [whole]

/-- The pattern that items write. An escaped character gets a backslash, unless there
is one in front of it. -/
def pattern (items : List Item) : Text :=
  go false items
where
  /-- Write items, behind a backslash or not. -/
  go (behind : Bool) : List Item → Text
    | [] => []
    | .char c :: r => c :: go (c = '\\') r
    | .escaped c :: r => if behind then c :: go false r else '\\' :: c :: go false r
    | _ :: r => go behind r

/-- Could the items be a pattern that stands for other texts? -/
def isSpecial (items : List Item) : Bool :=
  items.any fun i => i = char '*' || i = char '?' || i = char '[' ||
    i = escaped '*' || i = escaped '?' || i = escaped '['

end Item

namespace Fields

/-- The blanks among separators. A null byte counts as one. -/
def isBlankSeparator (c : Char) : Bool := c = ' ' || c = '\t' || c = '\n' || c = '\x00'

/-- Fields found so far, and the one that is being built, all last to first. -/
structure Split where
  fields : List (List Item) := []
  current : List Item := []
  /-- What may turn out to be the end of the last field, and is left out then. -/
  held : Option (List Item) := none
  /-- May the items be split, and if so, only at null bytes? -/
  within : Option Bool := none
  atNulls : Bool := false
  afterNulls : Bool := false
  /-- Did a blank end the last field, so that another separator may follow it? -/
  afterBlank : Bool := false
  /-- How many fields may still be made, if that is limited. -/
  limit : Option Nat := none

namespace Split

/-- Add an item to the field. -/
def put (s : Split) (i : Item) : Split :=
  match s.held with
  | some h => { s with held := some (i :: h) }
  | none => { s with current := i :: s.current }

/-- What was held belongs to the field. -/
def keep (s : Split) : Split :=
  match s.held with
  | some h => { s with held := none, current := h ++ s.current }
  | none => s

/-- The field is complete. -/
def close (s : Split) : Split :=
  { s with fields := s.current.reverse :: s.fields, current := [] }

/-- Go on to a character that may be split off, when no further field may be made. -/
def last (s : Split) (i : Item) (isSeparator isBlank : Bool) : Split :=
  if isBlank then
    match s.held with
    | some _ => s.put i
    | none => { s with held := some [i] }
  else
    let s := if isSeparator && s.afterBlank then s else s.keep
    { s.put i with afterBlank := false }

/-- Go on to a separator. -/
def separator (s : Split) (i : Item) (isBlank : Bool) : Split :=
  let s := if s.afterNulls || s.atNulls then s else { s with afterBlank := isBlank }
  if s.current.isEmpty && s.afterBlank then { s with afterBlank := false }
  else
    match s.limit with
    | some 1 => { s with limit := some 0, held := some [i] }
    | some n => { s.close with limit := some (n - 1) }
    | none => s.close

/-- Go on to a character that may be split off. -/
def next (separators : Text) (s : Split) (i : Item) (c : Char) : Split :=
  let isSeparator := c = '\x00' || (!s.atNulls && separators.contains c)
  let isBlank := isSeparator && isBlankSeparator c
  if s.limit = some 0 then s.last i isSeparator isBlank
  else if s.afterBlank then
    let s := { s with current := [] }
    if isBlank then s
    else if isSeparator then { s with afterBlank := false }
    else { s.put i with afterBlank := false }
  else if isSeparator then s.separator i isBlank
  else { s.put i with afterBlank := false }

/-- Go on to the next item. -/
def step (separators : Text) (s : Split) (i : Item) : Split :=
  match i with
  | .splitting n =>
    { s with within := some n, afterNulls := s.atNulls, atNulls := n, afterBlank := false }
  | .whole => { s with within := none }
  | .mark => s.put i
  | .char c | .escaped c => if s.within.isSome then s.next separators i c else s.put i

end Split

/-- The fields of an expanded word, as many as there may be. -/
def split (separators : Text) (limit : Option Nat) (items : List Item) : List (List Item) :=
  let s := items.foldl (Split.step separators) { limit := limit }
  (if s.atNulls || !s.current.isEmpty then s.close else s).fields.reverse

end Fields
end Posix
end EnvValues
