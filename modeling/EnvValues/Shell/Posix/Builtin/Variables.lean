import EnvValues.Shell.Posix.Builtin.Basic
import EnvValues.Shell.Posix.Fields

/-!
# Commands about variables, options and arguments

`set`, `export`, `readonly`, `local`, `unset`, `shift`, `getopts` and `read`. Each takes
its arguments and gives its exit status.
-/

namespace EnvValues
namespace Posix

/-- The options of a shell: their names and letters. Some have no letter to be set by. -/
def optionNames : List (String × Char) :=
  [("errexit", 'e'), ("noglob", 'f'), ("ignoreeof", 'I'), ("interactive", 'i'), ("monitor", 'm'),
   ("noexec", 'n'), ("stdin", 's'), ("xtrace", 'x'), ("verbose", 'v'), ("vi", 'V'),
   ("emacs", 'E'), ("noclobber", 'C'), ("allexport", 'a'), ("notify", 'b'), ("nounset", 'u'),
   ("privileged", 'p'), ("nolog", '\x01'), ("debug", '\x02')]

namespace Run

/-- Turn an option on or off. -/
def switchOption (c : Char) (on : Bool) : Run Unit :=
  update fun p => { p with options :=
    if on then c :: p.options.filter (· ≠ c) else p.options.filter (· ≠ c) }

/-- Turn an option on or off that is named by its letter. -/
def switchLetter (c : Char) (on : Bool) : Run Unit := do
  if c < ' ' || !optionNames.any fun o => o.2 = c then fail ("Illegal option -".toList ++ [c])
  switchOption c on
  if on && c = 'V' then switchOption 'E' false
  if on && c = 'E' then switchOption 'V' false

/-- Turn an option on or off that is named by its name. -/
def switchName (name : Text) (on : Bool) : Run Unit := do
  match optionNames.lookup (String.ofList name) with
  | some c => switchOption c on
  | none => fail ("Illegal option -o ".toList ++ name)

/-- List the options, in words or as commands that set them. -/
def listOptions (inWords : Bool) : Run Unit := do
  let on := (← process).options
  if inWords then printLine "Current option settings".toList
  optionNames.forM fun (name, c) =>
    if inWords then
      printLine (padded 16 name.toList ++ (if on.contains c then "on" else "off").toList)
    else printLine ((if on.contains c then "set -o " else "set +o ").toList ++ name.toList)

/-- Take the options among the letters of an argument. -/
def takeLetters (on : Bool) (args : List Text) : Text → Run (List Text)
  | [] => pure args
  | c :: r => do
    if c = 'o' then
      match args with
      | [] => listOptions on
      | a :: _ => switchName a on
      takeLetters on (args.drop 1) r
    else
      switchLetter c on
      takeLetters on args r

/-- Take options, and give the arguments behind them. Arguments are to be replaced if there
are some, or if the options ended in `--`. -/
def takeOptions : (fuel : Nat) → List Text → Run (Option (List Text))
  | 0, _ => pure none
  | fuel + 1, args => do
    match args with
    | [] => pure none
    | ['-'] :: r =>
      switchOption 'x' false
      switchOption 'v' false
      pure (if r.isEmpty then none else some r)
    | ['-', '-'] :: r => pure (some r)
    | ('-' :: letters) :: r => do takeOptions fuel (← takeLetters true r letters)
    | ('+' :: letters) :: r => do takeOptions fuel (← takeLetters false r letters)
    | args => pure (some args)

/-- Replace the arguments of the shell. -/
def setArguments (args : List Text) : Run Unit :=
  update fun p => { p with arguments := args, optionIndex := 1, optionOffset := none }

/-- List variables as commands that set them, in the order of their names. -/
def listVariables (lead : Text) (p : Variable → Bool) : Run Nat := do
  let lead := if lead.isEmpty then [] else lead ++ [' ']
  (← process).bindings.toList.forM fun (n, v) =>
    if p v then
      let value := match v.value with
        | some t => '=' :: quotedText t
        | none => []
      printLine (lead ++ n ++ value)
    else pure ()
  pure 0

/-- Set options and arguments; without any, list the variables. -/
def set (args : List Text) : Run Nat := do
  if args.isEmpty then listVariables [] fun v => v.value.isSome
  else
    match ← takeOptions (args.length + 1) args with
    | some args => setArguments args
    | none => pure ()
    pure 0

/-- An argument that may hold a name and a value. -/
def splitAssignment (a : Text) : Text × Option Text :=
  let name := a.takeWhile (· ≠ '=')
  (name, if name.length < a.length then some (a.drop (name.length + 1)) else none)

/-- Mark variables, with values where some are given; without any, list those that are
marked. -/
def mark (command : String) (marks : Marks) (isMarked : Variable → Bool) (args : List Text) :
    Run Nat := do
  let (fs, args) ← takeFlags "p" args
  if !fs.isEmpty || args.isEmpty then listVariables command.toList isMarked
  else
    args.forM fun a => do
      match splitAssignment a, (← process).bindings[a]? with
      | (_, none), some v =>
        let v := { v with
          exported := v.exported || marks.exported, readOnly := v.readOnly || marks.readOnly }
        update fun p => { p with bindings := p.bindings.insert a v }
      | (name, value), _ =>
        checkName name
        setVariable name value marks true
    pure 0

/-- Let programs get to know variables. -/
def export_ : List Text → Run Nat := mark "export" { exported := true } Variable.exported

/-- Let variables never change again. -/
def readonly : List Text → Run Nat := mark "readonly" { readOnly := true } Variable.readOnly

/-- Give the innermost command variables of its own. -/
def local_ (args : List Text) : Run Nat := do
  if (← process).locals.isEmpty then fail "not in a function".toList
  args.forM fun a => do
    if a = ['-'] then ownOptions
    else
      let (name, value) := splitAssignment a
      ownVariable name value {}
  pure 0

/-- Take away variables or functions. -/
def unset_ (args : List Text) : Run Nat := do
  let (fs, names) ← takeFlags "vf" args
  let ofFunctions := fs.getLast?.any fun f => f.1 = 'f'
  names.forM fun n =>
    if ofFunctions then update fun p => { p with functions := p.functions.erase n }
    else unset n
  pure 0

/-- Drop arguments of the shell. -/
def shift (args : List Text) : Run Nat := do
  let n ← match args with
    | [] => pure 1
    | a :: _ => number a
  let own := (← process).arguments
  if own.length < n then fail "can't shift that many".toList
  setArguments (own.drop n)
  pure 0

/-! ## Options of scripts -/

/-- What was found where options are looked for. -/
structure Found where
  /-- The letter, or a question mark or colon in its place. -/
  letter : Char
  /-- The argument; nothing if there should not be any. -/
  argument : Option Text
  /-- The letters that are left of the argument. -/
  rest : Option Text
  /-- How many arguments were used. -/
  used : Nat
  complaint : Option Text := none

/-- Does a letter take an argument, if it is one of those that are accepted? -/
def takesArgument? (c : Char) : (accepted : Text) → Option Bool
  | [] => none
  | [a] => if a = c then some false else none
  | a :: ':' :: r => if a = c then some true else takesArgument? c r
  | a :: b :: r => if a = c then some false else takesArgument? c (b :: r)

/-- Take a letter, in front of others, of an argument that counts as used. -/
def findOption (accepted : Text) (used : Nat) (following : Option Text) (c : Char) (r : Text) :
    Found :=
  let refused (letter : Char) (complaint : Text) : Found :=
    if accepted.head? = some ':' then ⟨letter, some [c], some r, used, none⟩
    else ⟨'?', none, some r, used, some complaint⟩
  match takesArgument? c accepted, r, following with
  | none, _, _ => refused '?' ("Illegal option -".toList ++ [c])
  | some false, _, _ => ⟨c, some [], some r, used, none⟩
  | some true, [], some a => ⟨c, some a, none, used + 1, none⟩
  | some true, [], none => refused ':' ("No arg for -".toList ++ c :: " option".toList)
  | some true, r, _ => ⟨c, some r, none, used, none⟩

/-- Look for the next option among arguments, given how many of them were used and what is
left of the letters of the last one. Without an option, it gives how many are used up. -/
def nextOption (accepted : Text) (among : List Text) (used : Nat) (left : Text) : Nat ⊕ Found :=
  match left, among[used]? with
  | c :: r, following => .inr (findOption accepted used following c r)
  | [], some ['-', '-'] => .inl (used + 1)
  | [], some ('-' :: c :: r) => .inr (findOption accepted (used + 1) among[used + 1]? c r)
  | [], _ => .inl used

/-- Look for the next option among arguments. -/
def getopts (args : List Text) : Run Nat := do
  match ← noFlags args with
  | accepted :: name :: rest => do
    let p ← process
    let among := if rest.isEmpty then p.arguments else rest
    let past := p.optionIndex > among.length + 1
    let used := if past then 0 else p.optionIndex - 1
    let left : Text := match if past || used = 0 then none else p.optionOffset with
      | some o => ((among[used - 1]?).getD []).drop o
      | none => []
    let finish (letter : Char) (used : Nat) (offset : Option Nat) : Run Unit := do
      setVariable "OPTIND".toList (some (Numeral.decimal (used + 1))) {} false
      update fun p => { p with optionIndex := used + 1, optionOffset := offset }
      assign name [letter] {}
    match nextOption accepted among used left with
    | .inl used =>
      finish '?' used none
      pure 1
    | .inr f =>
      match f.complaint with
      | some t => writeError (t ++ ['\n'])
      | none => pure ()
      match f.argument with
      | some a => assign "OPTARG".toList a {}
      | none => unset "OPTARG".toList
      let length := ((among[f.used - 1]?).getD []).length
      finish f.letter f.used (f.rest.map fun r => length - r.length)
      pure 0
  | _ => fail "Usage: getopts optstring var [arg...]".toList

/-! ## Reading lines -/

/-- Where a line is read: a region that may be split began here (kept last to first), or
the next character stands for itself. -/
structure Line where
  items : List Item := [.splitting false]
  escaped : Bool := false

/-- Go on to a character of a line. Nothing if the line ends there. -/
def Line.next (raw : Bool) (l : Line) (c : Char) : Option Line :=
  if c = '\x00' then some l
  else if l.escaped then
    let items := if c = '\n' then l.items else .char c :: l.items
    some { items := .splitting false :: items, escaped := false }
  else if !raw && c = '\\' then some { items := .whole :: l.items, escaped := true }
  else if c = '\n' then none
  else some { l with items := .char c :: l.items }

/-- Read a line from the input, byte by byte, and say whether it was ended. -/
def readLine (raw : Bool) (l : Line) : (fuel : Nat) → Run (Line × Bool)
  | 0 => pure (l, false)
  | fuel + 1 => do
    match ← readFrom 0 (some 1) with
    | .ok [c] =>
      match l.next raw c with
      | some l => readLine raw l fuel
      | none => pure (l, true)
    | _ => pure (l, false)

/-- How long a line may be. -/
def longestLine : Nat := Nat.pow 2 40

/-- Read a line into variables. -/
def read (args : List Text) : Run Nat := do
  let (fs, names) ← takeFlags "p:r" args
  if names.isEmpty then fail "arg count".toList
  let (l, ended) ← readLine (fs.any fun f => f.1 = 'r') {} longestLine
  let fields := Fields.split (← separators) (some names.length) (.whole :: l.items).reverse
  let values := fields.map Item.text ++ List.replicate (names.length - fields.length) []
  (names.zip values).forM fun (n, v) => assign n v {}
  pure (if ended then 0 else 1)

end Run
end Posix
end EnvValues
