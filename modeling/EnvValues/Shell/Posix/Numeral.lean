import EnvValues.Text.Basic

/-!
# Numerals

Integers as shells read them: blanks, a sign, and digits. Where the base is open, `0`
in front makes them octal and `0x` hexadecimal. **A number that no machine word holds
counts as the nearest one that does.**
-/

namespace EnvValues
namespace Posix
namespace Numeral

/-- The bounds of a machine word. -/
def least : Int := -(Nat.pow 2 63 : Int)
def greatest : Int := (Nat.pow 2 63 : Int) - 1

/-- The nearest number that a machine word holds. -/
def clamp (n : Int) : Int := max least (min greatest n)

/-- A number as a machine word holds it. -/
def wrap (n : Int) : Int := n.bmod (Nat.pow 2 64)

/-- The value of a digit. -/
def digit? (base : Nat) (c : Char) : Option Nat :=
  let v := if c.isDigit then c.toNat - '0'.toNat
    else if 'a' ≤ c && c ≤ 'z' then c.toNat - 'a'.toNat + 10
    else if 'A' ≤ c && c ≤ 'Z' then c.toNat - 'A'.toNat + 10
    else base
  if v < base then some v else none

/-- The number that the digits at the beginning of a text write, if there are any, and
the text after them. -/
def digits? (base : Nat) (t : Text) : Option (Nat × Text) :=
  match t.takeWhile fun c => (digit? base c).isSome with
  | [] => none
  | ds => some (ds.foldl (fun n c => n * base + (digit? base c).getD 0) 0, t.drop ds.length)

/-- The number at the beginning of a text, without a sign. -/
def natural? (anyBase : Bool) (t : Text) : Option (Nat × Text) :=
  if anyBase then
    match t with
    | '0' :: 'x' :: r => (digits? 16 r).or (some (0, 'x' :: r))
    | '0' :: 'X' :: r => (digits? 16 r).or (some (0, 'X' :: r))
    | '0' :: r => digits? 8 ('0' :: r)
    | t => digits? 10 t
  else digits? 10 t

/-- The blanks of numerals. -/
def isSpace (c : Char) : Bool := c = ' ' || ('\t' ≤ c && c ≤ '\r')

/-- The number at the beginning of a text, with a sign if it has one, and the text
after it. -/
def integer? (anyBase : Bool) (t : Text) : Option (Int × Text) :=
  match t.dropWhile isSpace with
  | '-' :: r => (natural? anyBase r).map fun p => (-(p.1 : Int), p.2)
  | '+' :: r => (natural? anyBase r).map fun p => ((p.1 : Int), p.2)
  | r => (natural? anyBase r).map fun p => ((p.1 : Int), p.2)

/-- The number that a whole text writes, blanks around it included. -/
def whole? (anyBase : Bool) (t : Text) : Option Int :=
  match integer? anyBase t with
  | some (n, r) => if r.all isSpace && clamp n = n then some n else none
  | none => none

/-- The number of a value in arithmetic: nothing but blanks is zero. -/
def value? (t : Text) : Option Int :=
  if t.all isSpace then some 0 else whole? true t

/-- The decimal text of a number. -/
def decimal (n : Nat) : Text := (toString n).toList

/-- The decimal text of an integer. -/
def ofInt (n : Int) : Text := (toString n).toList

end Numeral
end Posix
end EnvValues
