import EnvValues.Text.Basic

/-!
# Bytes as text

Commands read and write bytes. A text becomes bytes by UTF-8, and bytes become text by
UTF-8 again, except that not every row of bytes is the UTF-8 of a text. What is not is
replaced, **one replacement character for each maximal part**: the longest row of bytes
that could still have become a character.

Decoding is one loop, in which `Pending` is a character of which some bytes have been
read and some are missing.
-/

namespace EnvValues
namespace Utf8

/-- The text as bytes. -/
def encode (t : Text) : List UInt8 := t.flatMap String.utf8EncodeChar

/-- The character that stands for bytes that are no text. -/
def replacement : Char := '\uFFFD'

/-- A character whose first bytes have been read. -/
structure Pending where
  /-- The bits read so far. -/
  bits : Nat
  /-- How many bytes will be missing after the next one. -/
  missing : Nat
  /-- The least next byte that continues the character. -/
  low : Nat
  /-- The greatest one. -/
  high : Nat

/-- The character that a first byte begins, if it begins a longer one. The bounds on
the second byte leave out overlong forms, surrogates and what is beyond Unicode. -/
def Pending.ofFirst? (b : Nat) : Option Pending :=
  if 0xC2 ≤ b ∧ b ≤ 0xDF then some ⟨b - 0xC0, 0, 0x80, 0xBF⟩
  else if b = 0xE0 then some ⟨0, 1, 0xA0, 0xBF⟩
  else if b = 0xED then some ⟨0xD, 1, 0x80, 0x9F⟩
  else if 0xE1 ≤ b ∧ b ≤ 0xEF then some ⟨b - 0xE0, 1, 0x80, 0xBF⟩
  else if b = 0xF0 then some ⟨0, 2, 0x90, 0xBF⟩
  else if 0xF1 ≤ b ∧ b ≤ 0xF3 then some ⟨b - 0xF0, 2, 0x80, 0xBF⟩
  else if b = 0xF4 then some ⟨4, 2, 0x80, 0x8F⟩
  else none

/-- Read the first byte of a character: the characters so far (last to first) and the
character that is pending. -/
def first (done : Text) (b : Nat) : Text × Option Pending :=
  if b < 0x80 then (Char.ofNat b :: done, none)
  else match Pending.ofFirst? b with
    | some p => (done, some p)
    | none => (replacement :: done, none)

/-- Read a further byte of a character, or find that it is none. -/
def Pending.next (p : Pending) (done : Text) (b : Nat) : Text × Option Pending :=
  if p.low ≤ b ∧ b ≤ p.high then
    let bits := p.bits * 64 + (b - 0x80)
    match p.missing with
    | 0 => (Char.ofNat bits :: done, none)
    | m + 1 => (done, some ⟨bits, m, 0x80, 0xBF⟩)
  else first (replacement :: done) b

/-- Decode the bytes behind what was decoded before (kept last to first). -/
def decodeOnto (done : Text) : Option Pending → List UInt8 → Text
  | none, [] => done.reverse
  | some _, [] => (replacement :: done).reverse
  | pending, b :: r =>
    let (done', pending') := match pending with
      | none => first done b.toNat
      | some p => p.next done b.toNat
    decodeOnto done' pending' r

/-- The text that bytes stand for. -/
def decode (bs : List UInt8) : Text := decodeOnto [] none bs

end Utf8
end EnvValues
