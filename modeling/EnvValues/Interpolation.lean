import EnvValues.Expansion
import EnvValues.Text.Escape
import EnvValues.Text.OuterQuotes

/-!
# Expanding a value

A value is expanded **in passes**. A pass reads the whole text, expands what it finds
and puts the text together again, so that what one pass brings in is read by the next.
The passes end when nothing is left to resolve, when a pass changes nothing, when
their budget is spent, or when one of them halts; a pass that halts leaves the text it
began with.

Before the passes come the outer quotes: a text between single quotes is not expanded
at all, and one between double quotes is expanded without them. After the passes come
the escapes.
-/

namespace EnvValues

/-- How the passes over a value ended. -/
inductive Ending
  /-- There is nothing left to resolve, or the last pass changed nothing. -/
  | settled
  /-- The budget is spent and there is still something to resolve. -/
  | exhausted
  /-- A pass halted. -/
  | halted (h : Halt)
  deriving DecidableEq, Repr

/-- The passes made over a value. -/
structure Passes where
  ending : Ending
  /-- The text after the last pass that was completed. -/
  value : Text
  /-- The number of passes completed. -/
  iterations : Nat
  trace : Trace

/-- What expanding a value gives. -/
structure Result where
  value : Text
  /-- The failure of a command that ended the expansion. -/
  failure : Option CommandError := none
  /-- The number of passes completed. -/
  iterations : Nat := 0
  /-- Was the budget spent with something left to resolve? -/
  exhausted : Bool := false
  deriving DecidableEq, Repr

namespace Result

/-- Did no failure end the expansion? -/
def ok (r : Result) : Bool := r.failure.isNone

/-- The value, or the failure that ended the expansion. -/
def unwrap (r : Result) : Except CommandError Text :=
  match r.failure with
  | some e => .error e
  | none => .ok r.value

end Result

namespace Context

/-- One pass over nodes that were read. -/
def pass (ctx : Context) (ns : List Node) (s : Trace) : Except Halt Text × Trace :=
  (ctx.expandAll .value ns).after { s with written := 0 }

/-- Make up to `budget` passes more, after `done` of them. -/
def passes (ctx : Context) : (budget : Nat) → Text → (done : Nat) → Trace → Passes
  | 0, v, done, s =>
    ⟨if Node.hasExpansions (ctx.nodes v) then .exhausted else .settled, v, done, s⟩
  | budget + 1, v, done, s =>
    let ns := ctx.nodes v
    if Node.hasExpansions ns then
      match ctx.pass ns s with
      | (.error h, s') => ⟨.halted h, v, done, s'⟩
      | (.ok u, s') =>
        if u = v then ⟨.settled, v, done + 1, s'⟩ else ctx.passes budget u (done + 1) s'
    else ⟨.settled, v, done, s⟩

/-- The result of passes, and the notices that go with it. Only the text of a finished
expansion is decoded. -/
def conclude (ctx : Context) (p : Passes) : Except Refusal Result × Trace :=
  let decoded := Escape.decodeIf ctx.config.features.escapes p.value
  match p.ending with
  | .settled => (.ok { value := decoded, iterations := p.iterations }, p.trace)
  | .exhausted =>
    (.ok { value := decoded, iterations := p.iterations, exhausted := true },
      if ctx.config.warnOnMaxIterations then
        { p.trace with notices := p.trace.notices.push .maxIterations }
      else p.trace)
  | .halted (.commandFailed e) =>
    (.ok { value := p.value, failure := some e, iterations := p.iterations }, p.trace)
  | .halted (.outputTooLong limit) =>
    (.ok { value := decoded, iterations := p.iterations },
      { p.trace with notices := p.trace.notices.push (.outputTooLong limit) })
  | .halted (.refused r) => (.error r, p.trace)

/-- Expand a value that is not between single quotes. -/
def interpolateInner (ctx : Context) (inner : Text) (s : Trace) : Except Refusal Result × Trace :=
  if ctx.config.limits.forbidsInput inner.length then
    (.ok { value := inner },
      { s with notices :=
          s.notices.push (.inputTooLong inner.length ctx.config.limits.inputLength) })
  else ctx.conclude (ctx.passes ctx.config.budget inner 0 s)

/-- Expand a value. -/
def interpolate (ctx : Context) (t : Text) (s : Trace) : Except Refusal Result × Trace :=
  match OuterQuotes.split t with
  | (some .single, inner) =>
    (.ok { value := Escape.decodeIf ctx.config.features.escapes inner }, s)
  | (_, inner) => ctx.interpolateInner inner s

/-- Expand a datum, taken as a text. A null is empty, whatever the options. -/
def interpolateDatum (ctx : Context) (d : Datum) (s : Trace) : Except Refusal Result × Trace :=
  match d with
  | .null => (.ok { value := [] }, s)
  | d => ctx.interpolate d.asText s

end Context
end EnvValues
