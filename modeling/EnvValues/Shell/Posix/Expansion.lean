import EnvValues.Shell.Posix.Arithmetic
import EnvValues.Shell.Posix.Fields
import EnvValues.Shell.Posix.Files.Standard
import EnvValues.Shell.Posix.Pathnames
import EnvValues.Shell.Posix.Variables

/-!
# Expanding words

A word is walked part by part, and its expansion is a row of items, last to first. What a
part gives depends on the `Manner`: whether the word stands between quotes, whether its
value is split into fields, whether it is a word inside the braces of a parameter.

Commands inside words are run by a function that is given.
-/

namespace EnvValues
namespace Posix

/-- How a word is expanded. -/
structure Manner where
  /-- Is the expansion split into fields? -/
  splits : Bool := false
  /-- Does the word stand between quotes? -/
  quoted : Bool := false
  /-- Does it stand inside the braces of a parameter? -/
  inner : Bool := false
  /-- Is it an assignment, in which home directories may stand behind colons? -/
  assignment : Bool := false
  deriving DecidableEq, Repr

/-- Where a walk through a word is. -/
structure Walk where
  /-- The items so far, last to first. -/
  items : List Item := []
  /-- Are we between quotes that stand in the word itself? -/
  inQuotes : Bool := false
  /-- Was the part before an unquoted character inside braces? -/
  inRun : Bool := false
  /-- Was there an equals sign in the assignment? -/
  afterEquals : Bool := false
  /-- May a home directory stand here? -/
  atHome : Bool := false
  /-- Parts that were taken together with one before them. -/
  taken : Nat := 0

namespace Walk

/-- Add items. -/
def add (w : Walk) (is : List Item) : Walk :=
  { w with items := is.reverse ++ w.items, inRun := false, atHome := false }

/-- Add items which may be split where they do not stand between quotes. -/
def addValue (w : Walk) (quoted : Bool) (is : List Item) : Walk :=
  w.add (if quoted then is else Item.split false is)

/-- Add a character as it stands in the word. Inside braces it may be split off, together
with the characters around it. -/
def char (w : Walk) (m : Manner) (c : Char) : Walk :=
  if m.inner && !m.quoted && !w.inQuotes then
    match w.inRun, w.items with
    | true, .whole :: r => { w with items := .whole :: .char c :: r, atHome := false }
    | _, is =>
      { w with
        items := .whole :: .char c :: .splitting false :: is, inRun := true, atHome := false }
  else { w with items := .char c :: w.items, inRun := false, atHome := false }

end Walk

namespace Run

/-! ## Home directories -/

/-- The name behind a tilde, and whether it can be one. -/
def tildeName (colon : Bool) : Word → Option Text
  | [] => some []
  | .char c :: r =>
    if c = '/' || (c = ':' && colon) then some [] else (tildeName colon r).map (c :: ·)
  | _ => none

/-- The home directory that a tilde in front of a name stands for. -/
def homeDirectory? (name : Text) : Run (Option Text) :=
  if name.isEmpty then lookup "HOME".toList else pure (Standard.home? name)

/-! ## Parameters -/

/-- The values of all arguments with something between them. -/
def joinedArguments (quoted : Bool) (between : Option Char) : Run (Nat × List Item) := do
  let args := (← process).arguments
  let between := between.toList
  let is := (args.map (Item.ofValue quoted)).intersperse (Item.ofValue quoted between)
  pure ((args.map List.length).foldl (· + ·) 0 + between.length * (args.length - 1), is.flatten)

/-- The letters of the options, last ones first. -/
def optionLetters : Text := "efIimnsxvVECabup".toList

/-- The value of a parameter, and how long it is. -/
def parameterValue (m : Manner) (quoted : Bool) (name : Text) : Run (Option (Nat × List Item)) := do
  let p ← process
  let value (t : Text) : Run (Option (Nat × List Item)) :=
    pure (some (t.length, Item.ofValue quoted t))
  match name with
  | ['$'] => value (Numeral.decimal p.main)
  | ['?'] => value (Numeral.decimal p.status)
  | ['#'] => value (Numeral.decimal p.arguments.length)
  | ['!'] =>
    match p.lastBackground with
    | some n => value (Numeral.decimal n)
    | none => pure none
  | ['-'] => value (optionLetters.reverse.filter p.options.contains)
  | ['@'] | ['*'] =>
    let first := (← separators).head?
    let between := if m.splits then
        if !quoted then first.or (some '\x00')
        else if name = ['@'] then some '\x00'
        else first
      else first
    return some (← joinedArguments quoted between)
  | c :: _ =>
    if c.isDigit then
      match Numeral.digits? 10 name with
      | some (0, _) => value p.program
      | some (n, _) =>
        match p.arguments[n - 1]? with
        | some t => value t
        | none => pure none
      | none => pure none
    else
      match ← lookup name with
      | some t => value t
      | none => pure none
  | [] => pure none

/-- Complain that a parameter has no value. -/
def refuseUnset {α : Type} (name : Text) : Run α :=
  fail (name ++ ": parameter not set".toList)

/-- Evaluate an arithmetic expression. -/
def evaluate (t : Text) : Run Int := do
  let vs := (← process).bindings
  let (r, assigned) := Arithmetic.evaluate
    { value := fun n => vs[n]?.bind Variable.value
      readOnly := fun n => (vs[n]?.map Variable.readOnly).getD false } t
  assigned.forM fun (n, v) => assign n (Numeral.ofInt v) {}
  match r with
  | .ok v => pure v
  | .error e =>
    let about (message : String) : Run Int :=
      fail ("arithmetic expression: ".toList ++ message.toList ++ ": \"".toList ++ t ++ ['"'])
    match e with
    | .expected what => about ("expecting " ++ what)
    | .divisionByZero => about "division by zero"
    | .illegalNumber v => fail ("Illegal number: ".toList ++ v)
    | .readOnly n => fail (n ++ ": is read only".toList)
    | .overflow => throw (.ended (.signalled 8))

/-! ## Words -/

/-- Is this all arguments, with nothing else between the same quotes? -/
def isAllArguments (p : Part) (rest : Word) : Bool :=
  match p, rest with
  | .mark, .parameter ['@'] .value _ :: .mark :: _ => true
  | _, _ => false

/-- The items of all arguments between quotes: a field for each. -/
def allArgumentItems (m : Manner) : Run (List Item) := do
  let (_, is) := (← parameterValue m true ['@']).getD (0, [])
  return if (← process).arguments.isEmpty then is else Item.split true is

/-- The home directory that stands at this part of a word, and how many parts its name
takes behind the tilde. -/
def home? (m : Manner) (w : Walk) (p : Part) (rest : Word) : Run (Option (Text × Nat)) := do
  match p with
  | .char '~' =>
    match if w.atHome then tildeName m.assignment rest else none with
    | some n => return (← homeDirectory? n).map fun t => (t, n.length)
    | none => pure none
  | _ => pure none

mutual

/-- Go on to the next parts of a word. -/
def walkWord (output : Option Command → Run Text) (m : Manner) (w : Walk) : Word → Run Walk
  | [] => pure w
  | p :: rest => do
    if w.taken ≠ 0 then walkWord output m { w with taken := w.taken - 1 } rest
    else if !w.inQuotes && isAllArguments p rest then
      walkWord output m { w.add (← allArgumentItems m) with taken := 2 } rest
    else
      match ← home? m w p rest with
      | some (home, n) =>
        walkWord output m { w.add (Item.ofValue true home) with taken := n } rest
      | none =>
        match p with
        | .stop => pure w
        | p => do walkWord output m (← walkPart output m w p) rest

/-- Go on to one part of a word. -/
def walkPart (output : Option Command → Run Text) (m : Manner) (w : Walk) (p : Part) :
    Run Walk := do
  let quoted := m.quoted || w.inQuotes
  match p with
  | .char c =>
    let w := w.char m c
    if m.assignment && c = '=' && !w.afterEquals then
      pure { w with afterEquals := true, atHome := true }
    else if m.assignment && c = ':' && w.afterEquals then pure { w with atHome := true }
    else pure w
  | .escaped c => pure (w.add [.escaped c])
  | .mark => pure { w.add [.mark] with inQuotes := !w.inQuotes }
  | .stop => pure w
  | .output c => do
    let t ← output c
    let t := ((t.filter (· ≠ '\x00')).reverse.dropWhile (· = '\n')).reverse
    pure (w.addValue quoted (Item.ofValue quoted t))
  | .arithmetic e => do
    let e ← walkWord output {} {} e
    let n ← evaluate (Item.text e.items.reverse)
    pure (w.addValue quoted (Item.ofValue quoted (Numeral.ofInt n)))
  | .parameter name use word => do
    let value ← if use = .bad then fail "Bad substitution".toList
      else parameterValue m quoted name
    -- the flags of the innermost word, which goes on where this one is
    let inside (m : Manner) : Run (List Item) := do
      let v ← walkWord output m { afterEquals := w.afterEquals, atHome := true } word
      pure v.items.reverse
    let region (is : List Item) : Run Walk := do
      if quoted then
        let fields := name = ['@'] && !(← process).arguments.isEmpty
        pure (w.add (if fields then Item.split true is else is))
      else pure (w.addValue false is)
    let present (colon : Bool) : Option (List Item) :=
      match value with
      | some (n, is) => if colon && n = 0 then none else some is
      | none => none
    let refuse : Run Unit := do if ← option 'u' then refuseUnset name
    match use with
    | .bad => pure w
    | .value =>
      match value with
      | some (_, is) => region is
      | none => do
        refuse
        pure { w with inRun := false, atHome := false }
    | .length =>
      if value.isNone then refuse
      region (Item.ofValue quoted (Numeral.decimal ((value.map Prod.fst).getD 0)))
    | .otherwise colon =>
      match present colon with
      | some is => region is
      | none => do
        let is ← inside { m with inner := true, quoted := quoted }
        pure (w.add is)
    | .instead colon =>
      match present colon with
      | none => region []
      | some _ => do
        let is ← inside { m with inner := true, quoted := quoted }
        pure (w.add is)
    | .assign colon =>
      match present colon with
      | some is => region is
      | none => do
        let is ← inside {}
        assign name (Item.text is) {}
        match ← parameterValue m quoted name with
        | some (_, is) => region is
        | none => pure w
    | .require colon =>
      match present colon with
      | some is => region is
      | none =>
        if word.isEmpty then
          let tail := if colon then " or null" else ""
          fail (name ++ ": parameter not set".toList ++ tail.toList)
        else do
          let is ← inside {}
          fail (name ++ ": ".toList ++ Item.text is)
    | .trim atEnd longest =>
      match value with
      | none => do
        refuse
        pure { w with inRun := false, atHome := false }
      | some (_, is) => do
        let pattern ← inside {}
        let p := Pattern.ofText (Item.pattern pattern)
        let is := match p.cut? atEnd longest (Item.text is) with
          | some n => if atEnd then is.take n else is.drop n
          | none => is
        region is

end

/-- The items of a word. -/
def expand (output : Option Command → Run Text) (m : Manner) (w : Word) : Run (List Item) := do
  let v ← walkWord output m { atHome := !m.quoted } w
  pure v.items.reverse

/-- The text of a word that is not split. -/
def expandText (output : Option Command → Run Text) (w : Word) : Run Text := do
  return Item.text (← expand output {} w)

/-- The text of an assignment. -/
def expandAssignment (output : Option Command → Run Text) (w : Word) : Run Text := do
  let v ← walkWord output { assignment := true } {} w
  pure (Item.text v.items.reverse)

/-- The text of a word as if it stood between quotes. -/
def expandDocument (output : Option Command → Run Text) (w : Word) : Run Text := do
  return Item.text (← expand output { quoted := true } w)

/-- The pattern that a word writes. -/
def expandPattern (output : Option Command → Run Text) (w : Word) : Run Pattern := do
  return Pattern.ofText (Item.pattern (← expand output {} w))

/-- The fields of a word, with names of files in place of patterns. -/
def expandFields (output : Option Command → Run Text) (w : Word) : Run (List Text) := do
  let items ← expand output { splits := true } w
  let seps ← separators
  let m ← get
  let plain := m.process.options.contains 'f'
  return (Fields.split seps none items).flatMap fun field =>
    let found := if plain || !Item.isSpecial field then []
      else m.system.files.matching m.process.directory (Item.pattern field)
    if found.isEmpty then [Item.text field] else found

end Run
end Posix
end EnvValues
