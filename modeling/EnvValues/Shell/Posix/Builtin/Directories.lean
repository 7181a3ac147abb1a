import EnvValues.Shell.Posix.Builtin.Basic
import EnvValues.Shell.Posix.Lookup

/-!
# Commands about directories and rights

`cd`, `pwd` and `umask`. The directory is known by the path it was reached by, in which
two dots lead back to where one came from, unless links are to be resolved.
-/

namespace EnvValues
namespace Posix
namespace Run

/-- Are links to be resolved? The last option counts. -/
def isPhysical (fs : List Flag) : Bool := fs.getLast?.any fun f => f.1 = 'P'

/-- The path of a directory as it is written, seen from another one. Two slashes in front
stay two. -/
def logicalPath (from_ target : Text) : Text :=
  match target with
  | '/' :: '/' :: c :: r => if c = '/' then Path.tidy target else '/' :: Path.tidy (c :: r)
  | '/' :: _ => Path.tidy target
  | _ =>
    let t := Path.tidy (from_ ++ '/' :: target)
    if ['/', '/'].isPrefixOf from_ then '/' :: t else t

/-- Change the directory, if that is possible. -/
def enter (target : Text) (physical : Bool) : Run Bool := do
  let m ← get
  let here := m.process.directory
  let target := if physical then target else logicalPath here target
  match m.system.files.find here target true with
  | .ok (p, f) =>
    if f.kind = .directory then
      setVariable "OLDPWD".toList (some here) { exported := true } true
      let there := if physical then p else target
      update fun p => { p with directory := there }
      setVariable "PWD".toList (some there) { exported := true } true
      pure true
    else pure false
  | .error _ => pure false

/-- Is a directory looked for from here only, whatever directories there are to look in? -/
def startsHere (t : Text) : Bool :=
  match t with
  | '/' :: _ | ['.'] | '.' :: '/' :: _ | ['.', '.'] | '.' :: '.' :: '/' :: _ => true
  | _ => false

/-- The first of some directories in which there is another one of this name, and whether
it is to be told. -/
def searchDirectory (name : Text) : List Text → Run (Option (Text × Bool))
  | [] => pure none
  | d :: ds => do
    let m ← get
    let path := inDirectory d name
    if m.system.files.isDirectory m.process.directory path then pure (some (path, !d.isEmpty))
    else searchDirectory name ds

/-- Change the directory. -/
def cd (args : List Text) : Run Nat := do
  let (fs, args) ← takeFlags "LP" args
  let physical := isPhysical fs
  let (dest, told) ← match args with
    | [] => do pure ((← lookup "HOME".toList).getD [], false)
    | ['-'] :: _ => do pure ((← lookup "OLDPWD".toList).getD [], true)
    | a :: _ => pure (a, false)
  let found? ← if startsHere dest then pure none
    else
      match ← lookup "CDPATH".toList with
      | some path => searchDirectory (if dest.isEmpty then ['.'] else dest) (Text.pieces ':' path)
      | none => pure none
  let (target, told) := match found? with
    | some (path, found) => (path, told || found)
    | none => (if dest.isEmpty then ['.'] else dest, told)
  if ← enter target physical then
    if told then printLine (← process).directory
    pure 0
  else fail ("can't cd to ".toList ++ dest)

/-- Print the directory. -/
def pwd (args : List Text) : Run Nat := do
  let (fs, _) ← takeFlags "LP" args
  let m ← get
  let here := m.process.directory
  if isPhysical fs then
    match m.system.files.find here here true with
    | .ok (p, _) => printLine p
    | .error _ => printLine here
  else printLine here
  pure 0

/-! ## Rights -/

/-- The bits of rights that letters stand for: those that are read, written and run. -/
def rightsOf (current : Nat) (who : Nat) (letters : Text) : Option Nat :=
  letters.foldl (fun n c =>
    let copied (shift : Nat) : Nat := ((current >>> shift) &&& 7) * 0o111
    match n, c with
    | some n, 'r' => some (n ||| (0o444 &&& who))
    | some n, 'w' => some (n ||| (0o222 &&& who))
    | some n, 'x' => some (n ||| (0o111 &&& who))
    | some n, 'X' => some (if current &&& 0o111 = 0 then n else n ||| (0o111 &&& who))
    | some n, 's' | some n, 't' => some n
    | some n, 'u' => some (n ||| (copied 6 &&& who))
    | some n, 'g' => some (n ||| (copied 3 &&& who))
    | some n, 'o' => some (n ||| (copied 0 &&& who))
    | _, _ => none) (some 0)

/-- The rights after the changes of one clause, such as `u+rw`. -/
def clause (current : Nat) (t : Text) : Option Nat :=
  let isOperator (c : Char) : Bool := c = '+' || c = '-' || c = '='
  let who := t.takeWhile fun c => !isOperator c
  let whom : Option Nat := who.foldl (fun n c =>
    match n, c with
    | some n, 'u' => some (n ||| 0o700)
    | some n, 'g' => some (n ||| 0o070)
    | some n, 'o' => some (n ||| 0o007)
    | some n, 'a' => some (n ||| 0o777)
    | _, _ => none) (some 0)
  let whom := whom.map fun n => if n = 0 then 0o777 else n
  match whom with
  | none => none
  | some whom => actions whom (t.length + 1) current (t.drop who.length)
where
  /-- Go on to the actions behind an operator. -/
  actions (whom : Nat) : (fuel : Nat) → (current : Nat) → Text → Option Nat
    | 0, current, _ => some current
    | _, current, [] => some current
    | fuel + 1, current, c :: r =>
      let letters := r.takeWhile fun c => !(c = '+' || c = '-' || c = '=')
      match rightsOf current whom letters with
      | none => none
      | some bits =>
        let next := match c with
          | '+' => current ||| bits
          | '-' => current - (current &&& bits)
          | _ => (current - (current &&& whom)) ||| bits
        actions whom fuel next (r.drop letters.length)

/-- The rights after changes that commas separate. -/
def changedRights (current : Nat) (t : Text) : Option Nat :=
  (Text.pieces ',' t).foldl (fun n c => n.bind fun n => clause n c) (some current)

/-- Rights, in letters. -/
def rightsText (rights : Nat) : Text :=
  let letters (shift : Nat) : Text :=
    let n := rights >>> shift
    (if n &&& 4 ≠ 0 then ['r'] else []) ++ (if n &&& 2 ≠ 0 then ['w'] else []) ++
      (if n &&& 1 ≠ 0 then ['x'] else [])
  "u=".toList ++ letters 6 ++ ",g=".toList ++ letters 3 ++ ",o=".toList ++ letters 0

/-- Print or set which rights new files do not get. -/
def umask (args : List Text) : Run Nat := do
  let (fs, args) ← takeFlags "S" args
  let mask := (← process).mask
  match args with
  | [] =>
    if fs.isEmpty then
      let ds := Nat.toDigits 8 mask
      printLine (List.replicate (4 - ds.length) '0' ++ ds)
    else printLine (rightsText (0o777 - mask))
  | a :: _ =>
    let new ← if a.head?.any Char.isDigit then
        if a.all fun c => '0' ≤ c && c ≤ '7' then
          pure ((Numeral.digits? 8 a).map Prod.fst |>.getD 0)
        else fail ("Illegal number: ".toList ++ a)
      else
        match changedRights (0o777 - mask) a with
        | some rights => pure (0o777 - rights)
        | none => fail ("Illegal mode: ".toList ++ a)
    update fun p => { p with mask := new &&& 0o777 }
  pure 0

end Run
end Posix
end EnvValues
