import EnvValues.Text.Basic

/-!
# Texts shown inside a message

A message that names a text shows it between single quotes, or between double quotes
when the text holds single ones and no double ones. The quote and the backslash are
shown behind a backslash; the three common control characters by their letters; any
other character without a printed form by its code in hexadecimal, with as many
digits as its size asks for.
-/

namespace EnvValues
namespace Literal

/-- `n` in lower-case hexadecimal, in at least `width` digits. -/
def hex (width n : Nat) : Text :=
  let digits := Nat.toDigits 16 n
  List.replicate (width - digits.length) '0' ++ digits

/-- Code points without a printed form, below the first letters beyond ASCII: the
control characters, the no-break space and the soft hyphen. -/
def isControl (n : Nat) : Bool := n < 0x20 || (0x7F ≤ n && n ≤ 0xA0) || n == 0xAD

/-- Ranges of further code points without a printed form: separators, marks of
direction and layout, private use, and what is no character. -/
def unprintedRanges : List (Nat × Nat) :=
  [(0x0600, 0x0605), (0x061C, 0x061C), (0x06DD, 0x06DD), (0x070F, 0x070F), (0x0890, 0x0891),
   (0x08E2, 0x08E2), (0x1680, 0x1680), (0x180E, 0x180E), (0x2000, 0x200F), (0x2028, 0x202F),
   (0x205F, 0x206F), (0x3000, 0x3000), (0xD800, 0xF8FF), (0xFDD0, 0xFDEF), (0xFEFF, 0xFEFF),
   (0xFFF0, 0xFFFB), (0xFFFE, 0xFFFF), (0x110BD, 0x110BD), (0x110CD, 0x110CD),
   (0x13430, 0x1343F), (0x1BCA0, 0x1BCA3), (0x1D173, 0x1D17A), (0xE0000, 0xE00FF),
   (0xE01F0, 0x10FFFF)]

/-- Does the character have a printed form? -/
def isPrinted (c : Char) : Bool :=
  !isControl c.toNat && !unprintedRanges.any fun r => r.1 ≤ c.toNat && c.toNat ≤ r.2

/-- A character as it is shown between quotes `q`. -/
def showChar (q c : Char) : Text :=
  if c = q ∨ c = '\\' then ['\\', c]
  else if c = '\n' then "\\n".toList
  else if c = '\r' then "\\r".toList
  else if c = '\t' then "\\t".toList
  else if isPrinted c then [c]
  else if c.toNat < 0x100 then "\\x".toList ++ hex 2 c.toNat
  else if c.toNat < 0x10000 then "\\u".toList ++ hex 4 c.toNat
  else "\\U".toList ++ hex 8 c.toNat

/-- The quote a text is shown between. -/
def quoteFor (t : Text) : Char := if t.contains '\'' && !t.contains '"' then '"' else '\''

/-- The text as a message shows it. -/
def ofText (t : Text) : Text :=
  let q := quoteFor t
  q :: (t.flatMap (showChar q) ++ [q])

end Literal
end EnvValues
