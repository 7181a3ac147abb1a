import EnvValues.Shell.Posix.Numeral

/-!
# Floating point numbers

The binary numbers of 64 bits, as `m · 2 ^ e` with exact integers: reading the number
nearest to a numeral, and writing one with a given number of digits. **Both compute in
fractions and round once**, a half to the even neighbour.
-/

namespace EnvValues
namespace Posix

/-- The size of a number. -/
inductive Magnitude
  /-- `m · 2 ^ e`. -/
  | finite (m : Nat) (e : Int)
  | infinite
  | nan
  deriving DecidableEq, Repr

/-- A floating point number. -/
structure Floating where
  negative : Bool := false
  magnitude : Magnitude := .finite 0 0
  deriving DecidableEq, Repr

namespace Floating

/-- The nearest integer to a fraction; of two, the even one. -/
def roundDiv (num den : Nat) : Nat :=
  let q := num / den
  let r := num % den
  if 2 * r < den then q
  else if 2 * r > den then q + 1
  else if q % 2 = 0 then q else q + 1

/-- The fraction `num / den` times `base ^ e`, as a numerator and a denominator. -/
def scale (base : Nat) (num den : Nat) (e : Int) : Nat × Nat :=
  match e with
  | .ofNat n => (num * Nat.pow base n, den)
  | .negSucc n => (num, den * Nat.pow base (n + 1))

/-- The exponent `e` for which `num / den` is between `2 ^ e` and `2 ^ (e + 1)`. -/
def binaryExponent (num den : Nat) : Int :=
  let e : Int := (num.log2 : Int) - (den.log2 : Int)
  let (n, d) := scale 2 num den (-e)
  if n < d then e - 1 else e

/-- A number, and whether it is too large or too small to be told exactly. -/
abbrev Ranged := Magnitude × Bool

/-- The number nearest to a fraction. -/
def nearest (num den : Nat) : Ranged :=
  if num = 0 then (.finite 0 0, false)
  else
    let e := max (binaryExponent num den - 52) (-1074)
    let (n, d) := scale 2 num den (-e)
    let m := roundDiv n d
    let (m, e) := if m = Nat.pow 2 53 then (Nat.pow 2 52, e + 1) else (m, e)
    if e > 971 then (.infinite, true)
    else (.finite m e, m < Nat.pow 2 52 && n % d ≠ 0)

/-- The digits of a numeral with a point: their value, how many stand behind the point,
and the text behind them; nothing if there are no digits. -/
def pointed (base : Nat) (t : Text) : Option (Nat × Nat × Text) :=
  let (a, r) := (Numeral.digits? base t).getD (0, t)
  match r with
  | '.' :: u =>
    match Numeral.digits? base u with
    | some (b, v) =>
      let n := u.length - v.length
      some (a * Nat.pow base n + b, n, v)
    | none => if r.length < t.length then some (a, 0, u) else none
  | r => if r.length < t.length then some (a, 0, r) else none

/-- An exponent behind one of the letters, and the text behind it. -/
def exponent (letters : Text) (t : Text) : Int × Text :=
  match t with
  | c :: r =>
    if letters.contains c then
      match r with
      | '-' :: u =>
        match Numeral.digits? 10 u with
        | some (n, v) => (-(n : Int), v)
        | none => (0, t)
      | '+' :: u =>
        match Numeral.digits? 10 u with
        | some (n, v) => (n, v)
        | none => (0, t)
      | u =>
        match Numeral.digits? 10 u with
        | some (n, v) => (n, v)
        | none => (0, t)
    else (0, t)
  | [] => (0, t)

/-- Does the text begin with a word, in letters of either case? -/
def beginsWith (w : String) (t : Text) : Bool := w.toList.isPrefixOf (t.map Char.toLower)

/-- The number at the beginning of a text without a sign, and the text behind it. -/
def magnitude? (t : Text) : Option (Ranged × Text) :=
  let decimal : Option (Ranged × Text) :=
    (pointed 10 t).map fun (n, places, r) =>
      let (e, r) := exponent ['e', 'E'] r
      let e := max (-100000) (min 100000 (e - places))
      let (num, den) := scale 10 n 1 e
      (nearest num den, r)
  if beginsWith "infinity" t then some ((.infinite, false), t.drop 8)
  else if beginsWith "inf" t then some ((.infinite, false), t.drop 3)
  else if beginsWith "nan" t then some ((.nan, false), t.drop 3)
  else if beginsWith "0x" t then
    match pointed 16 (t.drop 2) with
    | some (n, places, r) =>
      let (e, r) := exponent ['p', 'P'] r
      let e := max (-100000) (min 100000 (e - 4 * places))
      let (num, den) := scale 2 n 1 e
      some (nearest num den, r)
    | none => decimal
  else decimal

/-- The number at the beginning of a text, whether it is out of range, and the text
behind it. -/
def read? (t : Text) : Option (Floating × Bool × Text) :=
  let signed (negative : Bool) (t : Text) : Option (Floating × Bool × Text) :=
    (magnitude? t).map fun ((m, outOfRange), r) => (⟨negative, m⟩, outOfRange, r)
  match t.dropWhile Numeral.isSpace with
  | '-' :: r => signed true r
  | '+' :: r => signed false r
  | r => signed false r

/-- The decimal digits of a number, at least so many. -/
def digits (least n : Nat) : Text :=
  let ds := Numeral.decimal n
  List.replicate (least - ds.length) '0' ++ ds

/-- A number of so many decimal places. -/
def fixed (places : Nat) (point : Bool) (m : Nat) (e : Int) : Text :=
  let (num, den) := scale 2 (m * Nat.pow 10 places) 1 e
  let ds := digits (places + 1) (roundDiv num den)
  let n := ds.length - places
  ds.take n ++ (if places > 0 || point then ['.'] else []) ++ ds.drop n

/-- The exponent `x` for which `num / den` is between `10 ^ x` and `10 ^ (x + 1)`, near
a first guess. -/
def decimalExponent (num den : Nat) : (steps : Nat) → (guess : Int) → Int
  | 0, x => x
  | steps + 1, x =>
    let (n, d) := scale 10 num den (-x)
    if n < d then decimalExponent num den steps (x - 1)
    else if n ≥ 10 * d then decimalExponent num den steps (x + 1)
    else x

/-- The digits of a number with so many places behind the first one, and its exponent. -/
def significant (places m : Nat) (e : Int) : Nat × Int :=
  if m = 0 then (0, 0)
  else
    let (num, den) := scale 2 m 1 e
    let x := decimalExponent num den 700 ((binaryExponent num den * 3) / 10)
    let (n, d) := scale 10 num den (places - x)
    let ds := roundDiv n d
    if ds = Nat.pow 10 (places + 1) then (Nat.pow 10 places, x + 1) else (ds, x)

/-- An exponent, with a sign and at least so many digits. -/
def writtenExponent (least : Nat) (x : Int) : Text :=
  (if x < 0 then '-' else '+') :: digits least x.natAbs

/-- Digits with the point behind the first one. -/
def withPoint (point : Bool) (ds : Text) : Text :=
  match ds with
  | [] => []
  | [d] => if point then [d, '.'] else [d]
  | d :: ds => d :: '.' :: ds

/-- A number with so many places behind its first digit, and an exponent. -/
def scientific (places : Nat) (point : Bool) (m : Nat) (e : Int) : Text :=
  let (ds, x) := significant places m e
  withPoint point (digits (places + 1) ds) ++ 'e' :: writtenExponent 2 x

/-- The text without zeros behind its point. -/
def trimZeros (t : Text) : Text :=
  if t.contains '.' then
    match t.reverse.dropWhile (· = '0') with
    | '.' :: r => r.reverse
    | r => r.reverse
  else t

/-- A number with so many digits, in the shorter of both ways. -/
def general (precision : Nat) (keepZeros : Bool) (m : Nat) (e : Int) : Text :=
  let p := max precision 1
  let (ds, x) := significant (p - 1) m e
  let trim (t : Text) : Text := if keepZeros then t else trimZeros t
  if -4 ≤ x && x < p then trim (fixed (p - 1 - x).toNat keepZeros m e)
  else trim (withPoint keepZeros (digits p ds)) ++ 'e' :: writtenExponent 2 x

/-- A number in hexadecimal, with so many places if a number of places is given. -/
def hexadecimal (places : Option Nat) (point : Bool) (m : Nat) (e : Int) : Text :=
  -- normal numbers have one as their first digit, the others zero
  let (first, x) : Nat × Int :=
    if m = 0 then (0, 0) else if m < Nat.pow 2 52 then (0, -1022) else (1, e + 52)
  let fraction := if m = 0 then 0 else m - first * Nat.pow 2 52
  let (first, ds) : Nat × Text := match places with
    | none =>
      let ds := Nat.toDigits 16 fraction
      let ds := List.replicate (13 - ds.length) '0' ++ ds
      (first, (ds.reverse.dropWhile (· = '0')).reverse)
    | some p =>
      let whole := first * Nat.pow 2 52 + fraction
      let n := if p ≥ 13 then whole * Nat.pow 16 (p - 13) else roundDiv whole (Nat.pow 16 (13 - p))
      let ds := Nat.toDigits 16 (n % Nat.pow 16 p)
      (n / Nat.pow 16 p, if p = 0 then [] else List.replicate (p - ds.length) '0' ++ ds)
  "0x".toList ++ Numeral.decimal first ++
    (if point || !ds.isEmpty then ['.'] else []) ++ ds ++ 'p' :: writtenExponent 1 x

/-- A number without its sign, as a conversion letter and a precision say. -/
def written (letter : Char) (precision : Option Nat) (alternate : Bool) (f : Floating) : Text :=
  let t : Text := match f.magnitude with
    | .infinite => "inf".toList
    | .nan => "nan".toList
    | .finite m e =>
      match letter.toLower with
      | 'f' => fixed (precision.getD 6) alternate m e
      | 'e' => scientific (precision.getD 6) alternate m e
      | 'g' => general (precision.getD 6) alternate m e
      | _ => hexadecimal precision alternate m e
  if letter.isUpper then t.map Char.toUpper else t

end Floating
end Posix
end EnvValues
