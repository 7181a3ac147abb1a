import EnvValues.Shell.Posix.Floating

/-!
# Formatted output

`echo` and `printf` understand backslash escapes, and `printf` replaces the directives
of a format by its arguments, beginning the format again for as long as arguments are
left. An argument that is missing counts as empty or zero; one that should be a number
and is not is complained about and counts as the number it begins with.
-/

namespace EnvValues
namespace Posix
namespace Format

/-- The character that a letter behind a backslash stands for. -/
def letter? : Char → Option Char
  | 'a' => some '\x07'
  | 'b' => some '\x08'
  | 'e' => some '\x1b'
  | 'f' => some '\x0c'
  | 'n' => some '\n'
  | 'r' => some '\r'
  | 't' => some '\t'
  | 'v' => some '\x0b'
  | '\\' => some '\\'
  | _ => none

/-- The byte that up to `width` octal digits write, and the text after them. -/
def octal (width : Nat) (t : Text) : Char × Text :=
  let ds := (t.take width).takeWhile fun c => '0' ≤ c && c ≤ '7'
  let n := ds.foldl (fun n c => n * 8 + (c.toNat - '0'.toNat)) 0
  (Char.ofNat (n % 256), t.drop ds.length)

/-- Replace escapes as `echo` does, behind a text that was done before (kept last to
first): the text, and whether output is to stop after it. -/
def echoed : (fuel : Nat) → (done : Text) → Text → Text × Bool
  | 0, done, _ => (done.reverse, false)
  | _, done, [] => (done.reverse, false)
  | fuel + 1, done, '\\' :: c :: r =>
    if c = 'c' then (done.reverse, true)
    else if c = '0' then
      let (d, r) := octal 3 r
      echoed fuel (d :: done) r
    else if '1' ≤ c && c ≤ '7' then
      let (d, r) := octal 3 (c :: r)
      echoed fuel (d :: done) r
    else
      match letter? c with
      | some d => echoed fuel (d :: done) r
      | none => echoed fuel ('\\' :: done) (c :: r)
  | fuel + 1, done, c :: r => echoed fuel (c :: done) r

/-- The text with the escapes of `echo` replaced, and whether output is to stop. -/
def echo (t : Text) : Text × Bool := echoed (t.length + 1) [] t

/-- A width or a precision: a number, or an argument that gives it. -/
inductive Measure
  | given (n : Nat)
  | argument
  deriving DecidableEq, Repr

/-- A directive of a format. -/
structure Directive where
  flags : Text
  width : Option Measure
  precision : Option Measure
  conversion : Char
  /-- What is written instead of the argument, where nobody can tell what was meant. -/
  unreadable : Option Text := none

/-- One piece of a format. -/
inductive Piece
  | text (c : Char)
  | directive (d : Directive)
  /-- Something that directs nothing, and the complaint about it. -/
  | invalid (complaint : Text)

/-- A number or an asterisk. An asterisk behind digits cannot be told from them, and is
nothing that could be meant. -/
def measure (t : Text) : Option Measure × Text :=
  match t with
  | '*' :: r => (some .argument, r)
  | t =>
    let skipped := t.takeWhile fun c => c = '*' || c.isDigit
    ((Numeral.digits? 10 skipped).map fun p => .given p.1, t.drop skipped.length)

/-- How a directive is written, with the size of its integers. -/
def sized (t : Text) (conversion : Char) : Text :=
  let size : Text := if "diouxX".toList.contains conversion then ['l'] else []
  '%' :: t ++ size ++ [if conversion = 'b' then 's' else conversion]

/-- The directive behind a percent sign. -/
def directive (t : Text) : Piece × Text :=
  let flags := t.takeWhile fun c => "-+ #0".toList.contains c
  let (width, r) := measure (t.drop flags.length)
  let (precision, r) := match r with
    | '.' :: r =>
      let (p, r) := measure r
      (p.or (some (.given 0)), r)
    | r => (none, r)
  match r with
  | c :: u =>
    let lead := t.take (t.length - r.length)
    let expected := [width, precision].count (some .argument)
    let unreadable := if lead.count '*' = expected then none else some (sized lead c)
    if "diouxXcsbaAeEfFgG".toList.contains c then
      (.directive ⟨flags, width, precision, c, unreadable⟩, u)
    else (.invalid ('%' :: (t.take (t.length - u.length) ++ ": invalid directive".toList)), u)
  | [] => (.invalid "missing format character".toList, [])

/-- The pieces of a format. -/
def pieces : (fuel : Nat) → Text → List Piece
  | 0, _ => []
  | _, [] => []
  | fuel + 1, '%' :: '%' :: r => .text '%' :: pieces fuel r
  | fuel + 1, '%' :: r =>
    let (p, r) := directive r
    p :: pieces fuel r
  | fuel + 1, '\\' :: c :: r =>
    if '0' ≤ c && c ≤ '7' then
      let (d, r) := octal 3 (c :: r)
      .text d :: pieces fuel r
    else
      match letter? c with
      | some d => .text d :: pieces fuel r
      | none => .text '\\' :: pieces fuel (c :: r)
  | fuel + 1, c :: r => .text c :: pieces fuel r

/-- A directive of which every number is known. -/
structure Layout where
  flags : Text
  width : Nat := 0
  precision : Option Nat := none
  conversion : Char

/-- Fill up a text to the width. -/
def Layout.pad (l : Layout) (t : Text) : Text :=
  let fill := List.replicate (l.width - t.length) ' '
  if l.flags.contains '-' then t ++ fill else fill ++ t

/-- A number filled up to the width, with zeros behind its sign if that is allowed. -/
def Layout.number (l : Layout) (zeros : Bool) (sign digits : Text) : Text :=
  let n := if zeros && l.flags.contains '0' && !l.flags.contains '-' then
      l.width - (sign.length + digits.length)
    else 0
  l.pad (sign ++ List.replicate n '0' ++ digits)

/-- The sign of a number that has one. -/
def Layout.sign (l : Layout) (negative : Bool) : Text :=
  if negative then ['-']
  else if l.flags.contains '+' then ['+']
  else if l.flags.contains ' ' then [' ']
  else []

/-- A signed integer. -/
def Layout.signed (l : Layout) (n : Int) : Text :=
  let ds := if n = 0 && l.precision = some 0 then [] else Numeral.decimal n.natAbs
  let ds := List.replicate (l.precision.getD 0 - ds.length) '0' ++ ds
  l.number l.precision.isNone (l.sign (n < 0)) ds

/-- An unsigned integer. -/
def Layout.unsigned (l : Layout) (n : Nat) : Text :=
  let ds : Text := match l.conversion with
    | 'u' => Numeral.decimal n
    | 'o' => Nat.toDigits 8 n
    | 'x' => Nat.toDigits 16 n
    | _ => (Nat.toDigits 16 n).map Char.toUpper
  let alternate := l.flags.contains '#'
  let ds := if n = 0 && l.precision = some 0 then [] else ds
  let ds := List.replicate (l.precision.getD 0 - ds.length) '0' ++ ds
  let ds := if alternate && l.conversion = 'o' && ds.head? ≠ some '0' then '0' :: ds else ds
  let lead : Text :=
    if alternate && n ≠ 0 && (l.conversion = 'x' || l.conversion = 'X') then ['0', l.conversion]
    else []
  l.number l.precision.isNone lead ds

/-- A floating point number. -/
def Layout.floating (l : Layout) (f : Floating) : Text :=
  let t := f.written l.conversion l.precision (l.flags.contains '#')
  let sign := l.sign f.negative
  match f.magnitude, t with
  | .finite _ _, '0' :: x :: r =>
    if x = 'x' || x = 'X' then l.number true (sign ++ ['0', x]) r else l.number true sign t
  | .finite _ _, t => l.number true sign t
  | _, t => l.number false sign t

/-- Formatted output so far. -/
structure Output where
  /-- The text, last to first. -/
  text : Text := []
  complaints : List Text := []
  arguments : List Text
  /-- Did the format take an argument? -/
  took : Bool := false
  stopped : Bool := false
  /-- Was it a mistake in the format that stopped it? -/
  failed : Bool := false

namespace Output

/-- Take an argument, if one is left. -/
def take (o : Output) : Option Text × Output :=
  match o.arguments with
  | [] => (none, { o with took := true })
  | a :: r => (some a, { o with arguments := r, took := true })

/-- Complain about an argument. -/
def complain (o : Output) (a : Text) (message : String) : Output :=
  { o with complaints := (a ++ message.toList) :: o.complaints }

/-- The number of an argument that begins with a quote: its first character. -/
def quotedNumber? : Text → Option Nat
  | '\'' :: r | '"' :: r => some ((r.head?.map Char.toNat).getD 0)
  | _ => none

/-- Complain if a number is not all of its argument, or is out of range. -/
def check (o : Output) (a : Text) (outOfRange : Bool) (rest : Text) : Output :=
  if !rest.isEmpty then o.complain a ": not completely converted"
  else if outOfRange then o.complain a ": Numerical result out of range"
  else o

/-- Complain about an argument that is no number. An empty one will do. -/
def refuse (o : Output) (a : Text) : Output :=
  if a.isEmpty then o else o.complain a ": expected numeric value"

/-- Take an integer between bounds. -/
def takeInteger (o : Output) (bound : Int → Int) : Int × Output :=
  match o.take with
  | (none, o) => (0, o)
  | (some a, o) =>
    match quotedNumber? a with
    | some n => (n, o)
    | none =>
      match Numeral.integer? true a with
      | none => (0, o.refuse a)
      | some (n, rest) => (bound n, o.check a (bound n ≠ n) rest)

/-- The nearest number that an unsigned machine word holds, but for its sign. -/
def clampUnsigned (n : Int) : Int :=
  if n.natAbs < Nat.pow 2 64 then n else (Nat.pow 2 64 : Int) - 1

/-- Take a floating point number. -/
def takeFloating (o : Output) : Floating × Output :=
  match o.take with
  | (none, o) => ({}, o)
  | (some a, o) =>
    match quotedNumber? a with
    | some n => (⟨false, .finite n 0⟩, o)
    | none =>
      match Floating.read? a with
      | none => ({}, o.refuse a)
      | some (f, outOfRange, rest) => (f, o.check a outOfRange rest)

/-- Take a width or precision, which may itself be an argument. -/
def takeMeasure (o : Output) : Option Measure → Option Int × Output
  | none => (none, o)
  | some (.given n) => (some n, o)
  | some .argument =>
    let (n, o) := o.takeInteger Numeral.clamp
    (some (n.bmod (Nat.pow 2 32)), o)

/-- Write a text. -/
def write (o : Output) (t : Text) : Output := { o with text := t.reverse ++ o.text }

/-- Write what a directive asks for. -/
def readable (o : Output) (d : Directive) : Output :=
  let (width, o) := o.takeMeasure d.width
  let (precision, o) := o.takeMeasure d.precision
  let width := width.getD 0
  let l : Layout :=
    { flags := if width < 0 then '-' :: d.flags else d.flags
      width := width.natAbs
      precision := precision.bind fun p => if p < 0 then none else some p.toNat
      conversion := d.conversion }
  let cut (t : Text) : Text := (l.precision.map fun p => t.take p).getD t
  match d.conversion with
  | 's' =>
    let (a, o) := o.take
    o.write (l.pad (cut (a.getD [])))
  | 'c' =>
    let (a, o) := o.take
    o.write (l.pad [((a.getD []).head?).getD '\x00'])
  | 'b' =>
    let (a, o) := o.take
    let (a, stop) := echo (a.getD [])
    { (o.write (l.pad (cut a))) with stopped := stop }
  | 'd' | 'i' =>
    let (n, o) := o.takeInteger Numeral.clamp
    o.write (l.signed n)
  | 'u' | 'o' | 'x' | 'X' =>
    let (n, o) := o.takeInteger clampUnsigned
    o.write (l.unsigned (n % (Nat.pow 2 64 : Int)).toNat)
  | _ =>
    let (f, o) := o.takeFloating
    o.write (l.floating f)

/-- Write what a directive asks for, or the directive itself, if it asks for nothing. -/
def directive (o : Output) (d : Directive) : Output :=
  let o' := o.readable d
  match d.unreadable with
  | none => o'
  | some t => { o' with text := t.reverse ++ o.text }

/-- Write one piece of a format. -/
def piece (o : Output) (p : Piece) : Output :=
  if o.stopped then o
  else match p with
  | .text c => o.write [c]
  | .invalid complaint =>
    { o with stopped := true, failed := true, complaints := complaint :: o.complaints }
  | .directive d => o.directive d

end Output

/-- Write a format again and again, until the arguments are used up. -/
def passes (ps : List Piece) : (fuel : Nat) → Output → Output
  | 0, o => o
  | fuel + 1, o =>
    let o := ps.foldl Output.piece { o with took := false }
    if o.stopped || !o.took || o.arguments.isEmpty then o else passes ps fuel o

/-- Write a format with its arguments. -/
def printf (format : Text) (arguments : List Text) : Output :=
  passes (pieces (format.length + 1) format) (arguments.length + 1) { arguments := arguments }

end Format
end Posix
end EnvValues
