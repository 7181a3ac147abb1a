import EnvValues.Name
import EnvValues.Shell.Posix.Numeral

/-!
# Arithmetic of a shell

Expressions over 64-bit integers, with the operators of C. A name stands for the number
in the variable of that name, and assignments change the variable.

An operand that cannot matter is read but not evaluated: it assigns nothing, and a
division by zero in it does no harm.
-/

namespace EnvValues
namespace Posix
namespace Arithmetic

/-- Why an expression has no value. -/
inductive Failure
  | expected (what : String)
  | divisionByZero
  | illegalNumber (t : Text)
  | readOnly (name : Text)
  /-- A quotient that no machine word holds ends the process. -/
  | overflow

/-- An operator between two operands: how it is written, how loosely it binds, and its
value. -/
structure Binary where
  written : String
  looseness : Nat
  value : Int → Int → Except Failure Int

/-- One or zero. -/
def truth (b : Bool) : Int := if b then 1 else 0

/-- A division, which has no value where the divisor is zero. -/
def divide (f : Int → Int → Int) (a b : Int) : Except Failure Int :=
  if b = 0 then .error .divisionByZero
  else if a = Numeral.least && b = -1 then .error .overflow
  else .ok (f a b)

/-- An operator on the bits of machine words. -/
def bitwise (f : BitVec 64 → BitVec 64 → BitVec 64) (a b : Int) : Except Failure Int :=
  .ok (f (BitVec.ofInt 64 a) (BitVec.ofInt 64 b)).toInt

/-- The operators between two operands. -/
def operators : List Binary :=
  [⟨"*", 0, fun a b => .ok (Numeral.wrap (a * b))⟩,
   ⟨"/", 0, divide Int.tdiv⟩,
   ⟨"%", 0, divide Int.tmod⟩,
   ⟨"+", 1, fun a b => .ok (Numeral.wrap (a + b))⟩,
   ⟨"-", 1, fun a b => .ok (Numeral.wrap (a - b))⟩,
   ⟨"<<", 2, bitwise fun a b => a <<< (b.toNat % 64)⟩,
   ⟨">>", 2, bitwise fun a b => a.sshiftRight (b.toNat % 64)⟩,
   ⟨"<=", 3, fun a b => .ok (truth (a ≤ b))⟩,
   ⟨">=", 3, fun a b => .ok (truth (a ≥ b))⟩,
   ⟨"<", 3, fun a b => .ok (truth (a < b))⟩,
   ⟨">", 3, fun a b => .ok (truth (a > b))⟩,
   ⟨"==", 4, fun a b => .ok (truth (a = b))⟩,
   ⟨"!=", 4, fun a b => .ok (truth (a ≠ b))⟩,
   ⟨"&", 5, bitwise fun a b => a &&& b⟩,
   ⟨"^", 6, bitwise fun a b => a ^^^ b⟩,
   ⟨"|", 7, bitwise fun a b => a ||| b⟩]

/-- The operators that may stand in front of an equals sign that assigns. -/
def assigning : List String := ["*", "/", "%", "+", "-", "<<", ">>", "&", "^", "|"]

/-- What expressions are made of. -/
inductive Lexeme
  | number (n : Int)
  | name (t : Text)
  | binary (o : Binary)
  | assign (o : Option Binary)
  /-- Any other sign. -/
  | sign (t : String)
  /-- What is in no expression. -/
  | bad

/-- The signs and operators that a text may begin with, longer ones before those they
begin with. -/
def signs : List (String × Lexeme) :=
  (operators.filterMap fun o =>
    if assigning.contains o.written then some (o.written ++ "=", .assign (some o)) else none) ++
  ["||", "&&"].map (fun s => (s, .sign s)) ++
  (operators.filter fun o => o.written.length = 2).map (fun o => (o.written, .binary o)) ++
  [("=", .assign none)] ++
  (operators.filter fun o => o.written.length = 1).map (fun o => (o.written, .binary o)) ++
  ["(", ")", "?", ":", "!", "~"].map fun s => (s, .sign s)

/-- The lexemes of a text. -/
def lexemes : (fuel : Nat) → Text → List Lexeme
  | 0, _ => []
  | _, [] => []
  | fuel + 1, c :: t =>
    if c = ' ' || c = '\t' || c = '\n' then lexemes fuel t
    else if c.isDigit then
      match Numeral.natural? true (c :: t) with
      | some (n, r) => .number (Numeral.clamp n) :: lexemes fuel r
      | none => [.bad]
    else
      match Name.leading? (c :: t) with
      | some (n, r) => .name n :: lexemes fuel r
      | none =>
        match signs.find? fun s => s.1.toList.isPrefixOf (c :: t) with
        | some (s, l) => l :: lexemes fuel ((c :: t).drop s.length)
        | none => [.bad]

/-- What is read and changed while an expression is evaluated. -/
structure State where
  rest : List Lexeme
  /-- The assignments made so far, last to first. -/
  assigned : List (Text × Int) := []

/-- The variables that an expression sees. -/
structure Scope where
  value : Text → Option Text
  readOnly : Text → Bool

/-- A step of the evaluation. -/
abbrev Eval := ExceptT Failure (StateM State)

namespace Eval

/-- The value of a variable. -/
def named (scope : Scope) (name : Text) : Eval Int := do
  match (← get).assigned.lookup name with
  | some n => pure n
  | none =>
    let v := (scope.value name).getD []
    match Numeral.value? v with
    | some n => pure n
    | none => throw (.illegalNumber v)

/-- Give a variable a value. -/
def assign (scope : Scope) (name : Text) (n : Int) : Eval Int := do
  if scope.readOnly name then throw (.readOnly name)
  modify fun s => { s with assigned := (name, n) :: s.assigned }
  pure n

/-- The next lexeme. -/
def peek : Eval (Option Lexeme) := return (← get).rest.head?

/-- Step over the next lexeme. -/
def advance : Eval Unit := modify fun s => { s with rest := s.rest.drop 1 }

/-- Step over the sign, if it is the next lexeme. -/
def accept (t : String) : Eval Bool := do
  match ← peek with
  | some (.sign u) =>
    if u = t then
      advance
      pure true
    else pure false
  | _ => pure false

/-- What is to be evaluated. -/
inductive Goal
  | assignment
  | choice
  | disjunction
  | conjunction
  | operation
  /-- An operation behind its left operand, of operators that bind tighter than this. -/
  | behind (left : Int) (looseness : Nat)
  | operand

/-- The value of what comes next. What is `idle` is only read. -/
def nextValue (scope : Scope) (idle : Bool) : (fuel : Nat) → Goal → Eval Int
  | 0, _ => throw (.expected "primary")
  | fuel + 1, g => do
    match g with
    | .assignment =>
      match (← get).rest with
      | .name n :: .assign o :: r =>
        modify fun s => { s with rest := r }
        let v ← nextValue scope idle fuel .assignment
        if idle then pure v
        else match o with
          | none => assign scope n v
          | some o => do
            let w ← o.value (← named scope n) v
            assign scope n w
      | _ => nextValue scope idle fuel .choice
    | .choice =>
      let a ← nextValue scope idle fuel .disjunction
      if ← accept "?" then
        let b ← nextValue scope (idle || a = 0) fuel .assignment
        if !(← accept ":") then throw (.expected "':'")
        let c ← nextValue scope (idle || a ≠ 0) fuel .choice
        pure (if a ≠ 0 then b else c)
      else pure a
    | .disjunction =>
      let a ← nextValue scope idle fuel .conjunction
      if ← accept "||" then
        let b ← nextValue scope (idle || a ≠ 0) fuel .disjunction
        pure (truth (a ≠ 0 || b ≠ 0))
      else pure a
    | .conjunction =>
      let a ← nextValue scope idle fuel .operation
      if ← accept "&&" then
        let b ← nextValue scope (idle || a = 0) fuel .conjunction
        pure (truth (a ≠ 0 && b ≠ 0))
      else pure a
    | .operation =>
      let a ← nextValue scope idle fuel .operand
      nextValue scope idle fuel (.behind a 8)
    | .behind a looseness =>
      match ← peek with
      | some (.binary o) =>
        if o.looseness < looseness then
          advance
          let b ← nextValue scope idle fuel .operand
          let b ← nextValue scope idle fuel (.behind b o.looseness)
          let v ← if idle then pure b else o.value a b
          nextValue scope idle fuel (.behind v looseness)
        else pure a
      | _ => pure a
    | .operand =>
      match ← peek with
      | some (.number n) =>
        advance
        pure n
      | some (.name n) =>
        advance
        if idle then pure 0 else named scope n
      | some (.sign "(") =>
        advance
        let v ← nextValue scope idle fuel .assignment
        if ← accept ")" then pure v else throw (.expected "')'")
      | some (.sign "!") =>
        advance
        let v ← nextValue scope idle fuel .operand
        pure (truth (v = 0))
      | some (.sign "~") =>
        advance
        let v ← nextValue scope idle fuel .operand
        pure (-v - 1)
      | some (.binary o) =>
        if o.written = "+" then
          advance
          nextValue scope idle fuel .operand
        else if o.written = "-" then
          advance
          let v ← nextValue scope idle fuel .operand
          pure (Numeral.wrap (-v))
        else throw (.expected "primary")
      | _ => throw (.expected "primary")

end Eval

/-- Evaluate an expression: its value, and the assignments it makes, first to last. -/
def evaluate (scope : Scope) (t : Text) : Except Failure Int × List (Text × Int) :=
  let ls := lexemes (t.length + 1) t
  let whole : Eval Int := do
    let v ← Eval.nextValue scope false (16 * ls.length + 16) .assignment
    if (← Eval.peek).isSome then throw (.expected "EOF")
    pure v
  let (r, s) := whole.run.run { rest := ls }
  (r, s.assigned.reverse)

end Arithmetic
end Posix
end EnvValues
