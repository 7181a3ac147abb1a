import EnvValues.Config
import EnvValues.Node.Parser
import EnvValues.Notice
import EnvValues.Shell.Basic
import EnvValues.Variables

/-!
# What an expansion reads, and what it does

A `Context` is everything an expansion reads: variables, the environment behind them,
options, and a shell. It never changes while a value is expanded.

A `Trace` is everything an expansion does besides giving a text: how much text it
wrote in this pass, which notices it raised, and which calls it made. An `Expansion`
carries the trace along and may halt, and **the trace survives a halt**: what was
noticed and called before it stays noticed and called.
-/

namespace EnvValues

/-- Everything an expansion reads. -/
structure Context where
  bindings : Variables
  /-- Where a name is looked up that no variable has. -/
  environment : Environment
  config : Config
  shell : Shell

/-- Everything an expansion has done. -/
structure Trace where
  /-- The characters produced in the current pass. -/
  written : Nat := 0
  notices : Array Notice := #[]
  calls : Array Call := #[]

/-- Why an expansion stops before it gives a text. -/
inductive Halt
  /-- A command failed, and failures count. -/
  | commandFailed (e : CommandError)
  /-- The pass produced more text than this. -/
  | outputTooLong (limit : Int)
  /-- The shell could not be asked at all. -/
  | refused (r : Refusal)
  deriving DecidableEq, Repr

/-- A step that leaves a trace and may halt. -/
abbrev Expansion := ExceptT Halt (StateM Trace)

namespace Expansion

/-- A step that is decided by the trace so far. -/
def ofTrace {α : Type} (f : Trace → Except Halt α × Trace) : Expansion α := ExceptT.mk f

/-- What a step does to a trace. -/
def after {α : Type} (x : Expansion α) (s : Trace) : Except Halt α × Trace := x.run.run s

@[simp] theorem after_ofTrace {α : Type} (f : Trace → Except Halt α × Trace) (s : Trace) :
    (ofTrace f).after s = f s := rfl

@[simp] theorem after_pure {α : Type} (a : α) (s : Trace) :
    (pure a : Expansion α).after s = (.ok a, s) := rfl

@[simp] theorem after_throw {α : Type} (h : Halt) (s : Trace) :
    (throw h : Expansion α).after s = (.error h, s) := rfl

/-- One step and then another: a halt of the first one is the end. -/
theorem after_bind {α β : Type} (x : Expansion α) (f : α → Expansion β) (s : Trace) :
    (x >>= f).after s = match x.after s with
      | (.ok a, s') => (f a).after s'
      | (.error h, s') => (.error h, s') := by
  change (ExceptT.bindCont f (x.after s).1 : StateM Trace _) (x.after s).2 = _
  generalize x.after s = r
  obtain ⟨a | a, s'⟩ := r <;> rfl

/-- Raise a notice. -/
def notify (n : Notice) : Expansion Unit :=
  ofTrace fun s => (.ok (), { s with notices := s.notices.push n })

end Expansion

namespace Context

/-- The value of a name, or nothing where it is unset. -/
def lookup (ctx : Context) (name : Text) : Option Text :=
  match ctx.bindings[name]? with
  | some e => some e.value
  | none => ctx.environment[name]?

/-- The environment that commands run in. -/
def commandEnvironment (ctx : Context) : Environment :=
  ctx.environment.overlay ctx.bindings.values

/-- **A reference and a command see the same value of a name.** -/
theorem getElem?_commandEnvironment (ctx : Context) (name : Text) :
    ctx.commandEnvironment[name]? = ctx.lookup name := by
  rw [commandEnvironment, Assignment.getElem?_overlay, Variables.getElem?_values, lookup]
  cases ctx.bindings[name]? <;> rfl

/-- Is an operator honoured? One that is not leaves a plain reference. -/
def honours (ctx : Context) (op : Operator) : Bool :=
  match op.form with
  | .otherwise => ctx.config.features.defaults
  | .instead => ctx.config.features.alternates

/-- Every operator is honoured where both forms of them are enabled. -/
theorem honours_of_enabled {ctx : Context} (hdefaults : ctx.config.features.defaults = true)
    (halternates : ctx.config.features.alternates = true) (op : Operator) :
    ctx.honours op = true := by
  rw [honours]
  cases op.form with
  | otherwise => exact hdefaults
  | instead => exact halternates

/-- How values are read as nodes. -/
def nodes (ctx : Context) (t : Text) : List Node :=
  Node.parse ctx.config.features true ctx.config.limits.nestingDepth t

end Context
end EnvValues
