import EnvValues.Shell.Posix.Condition
import EnvValues.Shell.Posix.Format
import EnvValues.Shell.Posix.Program.Basic

/-!
# Programs that write something

Programs that read nothing and write what their arguments or the environment tell them
to: `echo`, `printf`, `test`, `printenv`, `pwd`, `basename`, `dirname`, `seq`,
`expr` and the like.
-/

namespace EnvValues
namespace Posix
namespace Program

/-- Do nothing, with success. -/
def succeed : Program := fun _ _ => pure 0

/-- Do nothing, without success. -/
def failing : Program := fun _ _ => pure 1

/-! ## Texts -/

/-- Replace escapes as far as the text is not ended by one of them. Two digits behind `x`
write a byte. -/
def escaped : (fuel : Nat) → (done : Text) → Text → Text × Bool
  | 0, done, _ => (done.reverse, false)
  | _, done, [] => (done.reverse, false)
  | fuel + 1, done, '\\' :: 'x' :: r =>
    let ds := (r.take 2).takeWhile fun c => (Numeral.digit? 16 c).isSome
    match Numeral.digits? 16 ds with
    | some (n, _) => escaped fuel (Char.ofNat n :: done) (r.drop ds.length)
    | none => escaped fuel ('x' :: '\\' :: done) r
  | fuel + 1, done, '\\' :: c :: r =>
    let (t, stops) := Format.echo ['\\', c]
    if stops then (done.reverse, true)
    else if c.isDigit then
      let digits := (r.take (if c = '0' then 3 else 2)).takeWhile fun c => '0' ≤ c && c ≤ '7'
      let (t, _) := Format.echo ('\\' :: c :: digits)
      escaped fuel (t.reverse ++ done) (r.drop digits.length)
    else escaped fuel (t.reverse ++ done) r
  | fuel + 1, done, c :: r => escaped fuel (c :: done) r

/-- Write the arguments. Letters in front say whether escapes are replaced, and whether a
newline follows. -/
def echo : Program := fun name args =>
  let isOption (a : Text) : Bool :=
    match a with
    | '-' :: c :: r => (c :: r).all fun c => c = 'n' || c = 'e' || c = 'E'
    | _ => false
  let options := args.takeWhile isOption
  let t := [' '].intercalate (args.drop options.length)
  let letters := options.flatten
  let escapes := (letters.reverse.find? fun c => c = 'e' || c = 'E') = some 'e'
  let (t, stopped) := if escapes then escaped (t.length + 1) [] t else (t, false)
  write name (if letters.contains 'n' || stopped then t else t ++ ['\n']) 0

/-- Write a format with its arguments. -/
def printf : Program := fun name args =>
  match args with
  | [] => misused 1 name "missing operand".toList
  | format :: rest => do
    let o := Format.printf format rest
    let about (t : Text) : Text :=
      let subject := t.takeWhile (· ≠ ':')
      let problem := String.ofList (t.drop subject.length)
      match problem with
      | ": expected numeric value" => quoted subject ++ ": expected a numeric value".toList
      | ": not completely converted" => quoted subject ++ ": value not completely converted".toList
      | ": invalid directive" => subject ++ ": invalid conversion specification".toList
      | _ => quoted subject ++ problem.toList
    o.complaints.reverse.forM fun t => complain name (about t)
    write name o.text.reverse (if o.complaints.isEmpty then 0 else 1)

/-- Tell by the exit status whether a condition holds. -/
def test : Program := fun name args => do
  let bracket := Path.base name = ['[']
  if bracket && args.getLast? ≠ some [']'] then
    complain name "missing \']\'".toList
    pure 2
  else
    match ← Run.attempt (Condition.holds (if bracket then args.dropLast else args)) with
    | .ok true => pure 0
    | .ok false => pure 1
    | .error _ => pure 2

/-- Write the value of variables of the environment, or all of them. -/
def printenv (vs : List (Text × Text)) : Program := fun name args =>
  withOptions "0" "" name args fun _ names => do
    if names.isEmpty then write name (textOf (vs.map fun (n, v) => n ++ '=' :: v)) 0
    else
      let values := names.map fun n => vs.lookup n
      write name (textOf (values.filterMap id)) (if values.all Option.isSome then 0 else 1)

/-- Write who runs the program. -/
def whoami : Program := fun name _ => write name "root\n".toList 0

/-- Write the number of who runs the program. -/
def id_ : Program := fun name args =>
  withOptions "ugrnG" "" name args fun chosen _ => do
    let t := if has 'n' chosen then "root\n"
      else if has 'u' chosen || has 'g' chosen || has 'G' chosen then "0\n"
      else "uid=0(root) gid=0(root) groups=0(root)\n"
    write name t.toList 0

/-- Write the name of the system. -/
def uname : Program := fun name args =>
  withOptions "s" "" name args fun _ _ => write name "Linux\n".toList 0

/-! ## Paths -/

/-- Write the directory, with its links resolved. -/
def pwd : Program := fun name args =>
  withOptions "LP" "" name args fun chosen _ => do
    let m ← get
    let here := m.process.directory
    if has 'L' chosen then write name (here ++ ['\n']) 0
    else
      match m.system.files.find here here true with
      | .ok (p, _) => write name (p ++ ['\n']) 0
      | .error _ => write name (here ++ ['\n']) 0

/-- The last step of a path. -/
def lastStep (t : Text) : Text :=
  let t := withoutSlashes t
  if t = ['/'] then t else (t.reverse.takeWhile (· ≠ '/')).reverse

/-- A text without an ending, if something is left of it. -/
def withoutEnding (ending t : Text) : Text :=
  if ending.length < t.length && ending.isSuffixOf t then t.take (t.length - ending.length) else t

/-- Write the last step of paths. -/
def basename : Program := fun name args =>
  withOptions "az" "s" name args fun chosen operands => do
    match argument? 's' chosen, has 'a' chosen, operands with
    | _, _, [] => misused 1 name "missing operand".toList
    | some ending, _, ps =>
      write name (textOf (ps.map fun p => withoutEnding ending (lastStep p))) 0
    | none, true, ps => write name (textOf (ps.map lastStep)) 0
    | none, false, [p] => write name (lastStep p ++ ['\n']) 0
    | none, false, [p, ending] => write name (withoutEnding ending (lastStep p) ++ ['\n']) 0
    | none, false, _ :: _ :: p :: _ => misused 1 name ("extra operand ".toList ++ quoted p)

/-- The path without its last step. -/
def parentPath (t : Text) : Text :=
  let t := withoutSlashes t
  if t = ['/'] then t
  else
    match (t.reverse.dropWhile (· ≠ '/')).reverse with
    | [] => ['.']
    | u => withoutSlashes u

/-- Write paths without their last steps. -/
def dirname : Program := fun name args =>
  withOptions "z" "" name args fun _ operands => do
    if operands.isEmpty then misused 1 name "missing operand".toList
    else write name (textOf (operands.map parentPath)) 0

/-! ## Numbers -/

/-- An integer that an argument writes. -/
def integer? (t : Text) : Option Int :=
  match t with
  | '-' :: r => match Numeral.digits? 10 r with
    | some (n, []) => some (-(n : Int))
    | _ => none
  | r => match Numeral.digits? 10 (if r.head? = some '+' then r.drop 1 else r) with
    | some (n, []) => some n
    | _ => none

/-- Write the numbers of a range. -/
def seq : Program := fun name args =>
  let options := args.takeWhile fun a => match a with
    | '-' :: c :: _ => !c.isDigit && c ≠ '.'
    | _ => false
  let options :=
    if options.getLast? = some ['-', 's'] then args.take (options.length + 1) else options
  withOptions "w" "s" name options fun chosen _ => do
    let operands := args.drop options.length
    let wrong (a : Text) : Run Nat :=
      misused 1 name ("invalid floating point argument: ".toList ++ quoted a)
    match operands.find? fun a => (integer? a).isNone, operands.filterMap integer? with
    | some a, _ => wrong a
    | none, [] => misused 1 name "missing operand".toList
    | none, _ :: _ :: _ :: _ :: _ =>
      misused 1 name ("extra operand ".toList ++ quoted ((operands[3]?).getD []))
    | none, ns =>
      let (first, step, last) : Int × Int × Int := match ns with
        | [a, b] => (a, 1, b)
        | [a, s, b] => (a, s, b)
        | ns => (1, 1, ns.headD 0)
      if step = 0 then misused 1 name ("invalid Zero increment value: ".toList ++ quoted ['0'])
      else
        let count := ((last - first) / step + 1).toNat
        let ts := (List.range count).map fun (k : Nat) => Numeral.ofInt (first + step * (k : Int))
        let width := if has 'w' chosen then (ts.map List.length).foldl max 0 else 0
        let ts := ts.map fun t =>
          let fill := List.replicate (width - t.length) '0'
          match t with
          | '-' :: r => '-' :: fill ++ r
          | t => fill ++ t
        let separator := (argument? 's' chosen).getD ['\n']
        write name (if ts.isEmpty then [] else separator.intercalate ts ++ ['\n']) 0

/-- Why an expression has no value. -/
inductive Fault
  | missing (t : Text)
  | unexpected (t : Text)
  | notInteger
  | divisionByZero

/-- The operators of expressions, by how loosely they bind. -/
def expressionLevels : List (List String) :=
  [["|"], ["&"], ["=", "==", "!=", "<", "<=", ">", ">="], ["+", "-"], ["*", "/", "%"]]

/-- Is the value nothing or zero? -/
def isNull (t : Text) : Bool := t.isEmpty || integer? t = some 0

/-- The value of an operation. -/
def operate (op : String) (a b : Text) : Except Fault Text :=
  let truth (v : Bool) : Except Fault Text := .ok (if v then ['1'] else ['0'])
  let byOrder (p : Ordering → Bool) : Except Fault Text :=
    match integer? a, integer? b with
    | some m, some n => truth (p (compare m n))
    | _, _ => truth (p (compare a b))
  let number (f : Int → Int → Except Fault Int) : Except Fault Text :=
    match integer? a, integer? b with
    | some m, some n => (f m n).map Numeral.ofInt
    | _, _ => .error .notInteger
  let divide (f : Int → Int → Int) (m n : Int) : Except Fault Int :=
    if n = 0 then .error .divisionByZero else .ok (f m n)
  match op with
  | "|" => .ok (if !isNull a then a else if !isNull b then b else ['0'])
  | "&" => .ok (if isNull a || isNull b then ['0'] else a)
  | "=" | "==" => byOrder (· = .eq)
  | "!=" => byOrder (· ≠ .eq)
  | "<" => byOrder (· = .lt)
  | "<=" => byOrder (· ≠ .gt)
  | ">" => byOrder (· = .gt)
  | ">=" => byOrder (· ≠ .lt)
  | "+" => number fun m n => .ok (m + n)
  | "-" => number fun m n => .ok (m - n)
  | "*" => number fun m n => .ok (m * n)
  | "/" => number (divide Int.tdiv)
  | _ => number (divide Int.tmod)

/-- The value of an expression that the arguments begin with, and the arguments left. The
text is the argument in front of them. -/
def expression : (fuel : Nat) → (levels : List (List String)) → (before : Text) → List Text →
    Except Fault (Text × Text × List Text)
  | 0, _, _, args => .error (.unexpected (args.headD []))
  | fuel + 1, [], before, args =>
    match args with
    | [] => .error (.missing before)
    | ['('] :: r => do
      match ← expression fuel expressionLevels ['('] r with
      | (v, _, [')'] :: r) => .ok (v, [')'], r)
      | (_, before, []) => .error (.missing before)
      | (_, _, a :: _) => .error (.unexpected a)
    | ['l', 'e', 'n', 'g', 't', 'h'] :: a :: r => .ok (Numeral.decimal a.length, a, r)
    | a :: r => .ok (a, a, r)
  | fuel + 1, ops :: levels, before, args => do
    let (v, before, args) ← expression fuel levels before args
    more fuel ops levels v before args
where
  /-- Go on behind an operand. -/
  more : (fuel : Nat) → List String → List (List String) → Text → Text → List Text →
      Except Fault (Text × Text × List Text)
    | 0, _, _, v, before, args => .ok (v, before, args)
    | fuel + 1, ops, levels, v, before, args =>
      match args with
      | op :: r =>
        if ops.any fun o => o.toList = op then do
          let (w, before, r) ← expression fuel levels op r
          more fuel ops levels (← operate (String.ofList op) v w) before r
        else .ok (v, before, args)
      | [] => .ok (v, before, [])

/-- Write the value of an expression. -/
def expr : Program := fun name args => do
  if args.isEmpty then misused 2 name "missing operand".toList
  else
    match expression (16 * args.length + 16) expressionLevels [] args with
    | .ok (v, _, []) => write name (v ++ ['\n']) (if isNull v then 1 else 0)
    | .ok (_, _, a :: _) | .error (.unexpected a) =>
      complain name ("syntax error: unexpected argument ".toList ++ quoted a)
      pure 2
    | .error (.missing t) =>
      complain name ("syntax error: missing argument after ".toList ++ quoted t)
      pure 2
    | .error .notInteger =>
      complain name "non-integer argument".toList
      pure 2
    | .error .divisionByZero =>
      complain name "division by zero".toList
      pure 2

end Program
end Posix
end EnvValues
