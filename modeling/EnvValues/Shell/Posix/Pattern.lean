import EnvValues.Text.Basic

/-!
# Patterns

A pattern matches texts: `*` any row of characters, `?` any one of them, and brackets
one out of a set. A backslash takes its meaning from the character behind it. A bracket
that is never closed is a character like any other.

`Pattern.ofText` reads a pattern once, and `covers` matches it against a whole text.
-/

namespace EnvValues
namespace Posix

/-- One member of a set of characters. -/
inductive Member
  | range (low high : Char)
  | class (p : Char → Bool)

/-- One element of a pattern. -/
inductive Glob
  | char (c : Char)
  | any
  | anything
  /-- A character in the set, or one that is not in it. -/
  | oneOf (negated : Bool) (set : List Member)

/-- A pattern. -/
abbrev Pattern := List Glob

namespace Pattern

/-- The place of a byte in the order of ranges: the upper half comes first. -/
def rank (c : Char) : Nat := if c.toNat < 128 then c.toNat + 128 else c.toNat - 128

/-- Is the character printed with ink? -/
def isGraphic (c : Char) : Bool := '!' ≤ c && c ≤ '~'

/-- The classes of characters that have a name. -/
def classes : List (String × (Char → Bool)) :=
  [("alnum", Char.isAlphanum),
   ("cntrl", fun c => c.toNat < 32 || c.toNat = 127),
   ("lower", Char.isLower),
   ("space", fun c => c = ' ' || '\t' ≤ c && c ≤ '\r'),
   ("alpha", Char.isAlpha),
   ("digit", Char.isDigit),
   ("print", fun c => c = ' ' || isGraphic c),
   ("upper", Char.isUpper),
   ("blank", fun c => c = ' ' || c = '\t'),
   ("graph", isGraphic),
   ("punct", fun c => isGraphic c && !c.isAlphanum),
   ("xdigit", fun c => c.isDigit || ('a' ≤ c && c ≤ 'f') || ('A' ≤ c && c ≤ 'F'))]

/-- The class whose name stands behind an opening bracket, and the text behind it. -/
def class? (t : Text) : Option ((Char → Bool) × Text) :=
  classes.findSome? fun (name, p) =>
    let written := (":" ++ name ++ ":]").toList
    if written.isPrefixOf t then some (p, t.drop written.length) else none

/-- Is the character in the set? -/
def Member.holds (c : Char) : Member → Bool
  | .range low high => rank low ≤ rank c && rank c ≤ rank high
  | .class p => p c

/-- The set that begins a text, and the text behind its closing bracket. The first
character is in the set, whatever it is. -/
def set (first : Bool) (done : List Member) : (fuel : Nat) → Text → Option (List Member × Text)
  | 0, _ => none
  | _, [] => none
  | fuel + 1, c :: t =>
    if c = ']' && !first then some (done.reverse, t)
    else
      match if c = '[' then class? t else none with
      | some (p, t) => set false (.class p :: done) fuel t
      | none =>
        let (c, t) := match c, t with
          | '\\', d :: t => (d, t)
          | c, t => (c, t)
        match t with
        | '-' :: d :: u =>
          if d = ']' then set false (.range c c :: done) fuel t
          else
            match d, u with
            | '\\', e :: u => set false (.range c e :: done) fuel u
            | d, u => set false (.range c d :: done) fuel u
        | t => set false (.range c c :: done) fuel t

/-- Read a pattern. -/
def read : (fuel : Nat) → Text → Pattern
  | 0, _ => []
  | _, [] => []
  | fuel + 1, c :: t =>
    match c, t with
    | '\\', d :: t => .char d :: read fuel t
    | '?', t => .any :: read fuel t
    | '*', t => .anything :: read fuel t
    | '[', t =>
      let (negated, u) := match t with
        | '!' :: u => (true, u)
        | u => (false, u)
      match set true [] (u.length + 1) u with
      | some (s, v) => .oneOf negated s :: read fuel v
      | none => .char '[' :: read fuel t
    | c, t => .char c :: read fuel t

/-- The pattern that a text writes. -/
def ofText (t : Text) : Pattern := read (t.length + 1) t

/-- Does some end of the text satisfy `p`? -/
def someEnd (p : Text → Bool) : Text → Bool
  | [] => p []
  | c :: t => p (c :: t) || someEnd p t

/-- Does the pattern match the whole text? -/
def covers : Pattern → Text → Bool
  | [], t => t.isEmpty
  | .anything :: ps, t => someEnd (covers ps) t
  | .char c :: ps, d :: t => c = d && covers ps t
  | .any :: ps, _ :: t => covers ps t
  | .oneOf negated s :: ps, d :: t => (s.any (Member.holds d) != negated) && covers ps t
  | _, [] => false

/-- The text up to the first null byte. -/
def upToNull (t : Text) : Text := t.takeWhile (· ≠ '\x00')

/-- Where to cut a text so that the pattern matches what is cut off its beginning or
end. The parts of a text that null bytes separate are matched one at a time. -/
def cut? (p : Pattern) (atEnd longest : Bool) (t : Text) : Option Nat :=
  let matchesAt (k : Nat) : Bool := covers p (upToNull (if atEnd then t.drop k else t.take k))
  if atEnd = longest then (List.range ((upToNull t).length + 1)).find? matchesAt
  else (List.range (t.length + 1)).reverse.find? matchesAt

end Pattern
end Posix
end EnvValues
