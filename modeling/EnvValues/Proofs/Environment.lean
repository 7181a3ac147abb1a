import EnvValues.Proofs.Mirror
import EnvValues.Shell.Scripted

/-!
# One environment

References look a name up in two steps, first among the variables and then in the environment
behind them. Commands run in one environment, into which both were put. A name has the same
value in both (`getElem?_commandEnvironment`), and nothing else of variables and environment
gets into a run: **two contexts in which commands run in the same environment expand every
text alike** (`interpolate_eq_of_commandEnvironment_eq`).

So a run without variables, in the environment of the commands, is the same run. How the
variables were written down is no part of it: neither their order, nor the text that an entry
keeps for diagnostics.

On the way to the shell nothing is changed again. Every call of a run carries that environment,
and it has a command line that is not blank (`allProper_history`).
-/

namespace EnvValues

/-- A variable as commands see it: its name and its value. -/
def Given.assigned (p : Text × Given) : Text × Text := (p.1, (Entry.ofGiven p.2).value)

/-- Where no name is given twice, the values are the ones that were given. -/
theorem Variables.getElem?_values_ofGiven {l : List (Text × Given)} (h : (l.map Prod.fst).Nodup)
    {name v : Text} :
    (Variables.ofGiven l).values[name]? = some v ↔ (name, v) ∈ l.map Given.assigned := by
  have hnames : ((l.map fun p => (p.1, Entry.ofGiven p.2)).map Prod.fst).Nodup := by
    rwa [List.map_map]
  rw [getElem?_values, Option.map_eq_some_iff]
  simp only [ofGiven, Assignment.getElem?_ofList_eq_some hnames, List.mem_map, Given.assigned,
    Prod.mk.injEq]
  constructor
  · rintro ⟨e, ⟨p, hp, rfl, rfl⟩, rfl⟩
    exact ⟨p, hp, rfl, rfl⟩
  · rintro ⟨p, hp, rfl, rfl⟩
    exact ⟨_, ⟨p, hp, rfl, rfl⟩, rfl⟩

/-- Variables have the same values in whatever order they are given, and whatever text is kept
besides a value. -/
theorem Variables.values_ofGiven_perm {l l' : List (Text × Given)} (h : (l.map Prod.fst).Nodup)
    (hperm : (l.map Given.assigned).Perm (l'.map Given.assigned)) :
    (Variables.ofGiven l').values = (Variables.ofGiven l).values := by
  have hnames : (l.map Prod.fst).Perm (l'.map Prod.fst) := by
    have hfst := hperm.map Prod.fst
    rwa [List.map_map, List.map_map] at hfst
  refine Std.ExtTreeMap.ext_getElem? fun name => Option.ext fun v => ?_
  rw [getElem?_values_ofGiven (hnames.nodup_iff.1 h), getElem?_values_ofGiven h, hperm.mem_iff]

namespace Context
variable {ctx ctx' : Context} {s : Trace}

/-! ## What a run sees -/

theorem steady_self : Steady fun s s' => s' = s where
  written h := h ▸ rfl
  count _ h := h ▸ rfl
  notice _ h := h ▸ rfl

/-- Calls in the same environment, to the same shell, do the same. -/
theorem call_congr (hshell : ctx'.shell = ctx.shell)
    (henv : ctx'.commandEnvironment = ctx.commandEnvironment) (line : Text) :
    ctx'.call line = ctx.call line := by
  rw [call, call, hshell, henv]

/-- Of variables and environment, a run sees the environment of the commands. -/
theorem mirrored_of_commandEnvironment_eq (hconfig : ctx'.config = ctx.config)
    (hshell : ctx'.shell = ctx.shell)
    (henv : ctx'.commandEnvironment = ctx.commandEnvironment) :
    Mirrored (fun s s' => s' = s) ctx ctx' where
  steady := steady_self
  config := hconfig
  lookup _ name := by
    rw [← getElem?_commandEnvironment, ← getElem?_commandEnvironment, henv]
  quote _ _ t := by rw [hshell]
  call _ line := by
    rintro s s' rfl
    rw [call_congr hshell henv]
    exact ⟨rfl, rfl⟩

/-- **Contexts in which commands run in the same environment expand every text alike.** -/
theorem interpolate_eq_of_commandEnvironment_eq (hconfig : ctx'.config = ctx.config)
    (hshell : ctx'.shell = ctx.shell)
    (henv : ctx'.commandEnvironment = ctx.commandEnvironment) (t : Text) (s : Trace) :
    ctx'.interpolate t s = ctx.interpolate t s := by
  obtain ⟨hresult, htrace⟩ :=
    (mirrored_of_commandEnvironment_eq hconfig hshell henv).interpolate t (rfl : s = s)
  exact Prod.ext hresult htrace

/-- The environment of the commands stays the same when it takes the place of all. -/
theorem commandEnvironment_of_empty (ctx : Context) (e : Environment) :
    { ctx with bindings := ∅, environment := e }.commandEnvironment = e := by
  refine Std.ExtTreeMap.ext_getElem? fun name => ?_
  rw [getElem?_commandEnvironment, lookup]
  simp only [Std.ExtTreeMap.getElem?_empty]

/-! ## What the shell sees -/

/-- A call of a context: in its environment, with something to run. -/
structure Proper (ctx : Context) (c : Call) : Prop where
  environment : c.environment = ctx.commandEnvironment
  not_blank : Text.isBlank c.line = false

/-- All calls among some events are calls of a context. -/
def AllProper (ctx : Context) (es : List Event) : Prop := ∀ c ∈ Event.calls es, ctx.Proper c

theorem AllProper.append {es fs : List Event} (h : ctx.AllProper es) (h' : ctx.AllProper fs) :
    ctx.AllProper (es ++ fs) := by
  intro c hc
  rw [Event.calls_append, List.mem_append] at hc
  exact hc.elim (h c) (h' c)

/-- Where no call is made, there is nothing to show. -/
theorem AllProper.of_calls_eq_nil {es : List Event} (h : Event.calls es = []) :
    ctx.AllProper es := by
  intro c hc
  rw [h] at hc
  cases hc

theorem AllProper.bind {α : Type} {x : Expansion α} {es : Account} {f : α → Account}
    (hx : ∀ s, ctx.AllProper (es s)) (hf : ∀ a s, ctx.AllProper (f a s)) (s : Trace) :
    ctx.AllProper (Account.bind x es f s) := by
  cases h : x.after s with
  | mk r s' =>
      cases r with
      | error e =>
          rw [Account.bind_of_error h]
          exact hx s
      | ok a =>
          rw [Account.bind_of_ok h]
          exact (hx s).append (hf a s')

theorem allProper_failAccount (e : CommandError) (s : Trace) :
    ctx.AllProper (ctx.failAccount e s) := by
  refine .of_calls_eq_nil ?_
  unfold failAccount
  split <;> rfl

theorem allProper_warnAccount (name : Text) (s : Trace) :
    ctx.AllProper (ctx.warnAccount name s) := by
  refine .of_calls_eq_nil ?_
  unfold warnAccount
  split <;> rfl

/-- A line of blanks does not get to the shell. -/
theorem allProper_lineAccount (line : Text) (s : Trace) :
    ctx.AllProper (ctx.lineAccount line s) := by
  unfold lineAccount
  cases hblank : Text.isBlank line with
  | true => exact allProper_failAccount _ s
  | false =>
      refine AllProper.bind (fun s c hc => ?_) (fun o s => ?_) s
      · obtain rfl := List.mem_singleton.1 hc
        exact ⟨rfl, hblank⟩
      · split
        · exact .of_calls_eq_nil rfl
        · exact allProper_failAccount _ s

theorem steps_allProper (ctx : Context) :
    Steps ctx ctx fun _ es _ => ∀ s, ctx.AllProper (es s) where
  lookup _ := rfl
  honours _ := rfl
  placed _ _ := rfl
  pure _ _ := .of_calls_eq_nil rfl
  bind hx hf := AllProper.bind hx hf
  emit _ _ := .of_calls_eq_nil rfl
  warn := allProper_warnAccount
  line := allProper_lineAccount

/-- In a pass, every call carries the environment of the commands. -/
theorem allProper_passAccount (v : Text) (s : Trace) : ctx.AllProper (ctx.passAccount v s) :=
  (steps_allProper ctx).expandAll .value (ctx.nodes v) _

/-- And so it is in one pass after another. -/
theorem allProper_passesHistory (budget : Nat) (v : Text) (s : Trace) :
    ctx.AllProper (ctx.passesHistory budget v s) := by
  have hread : ∀ v, ctx.AllProper [.read v] := fun v => .of_calls_eq_nil rfl
  have hpassed : ctx.AllProper [.passed] := .of_calls_eq_nil rfl
  induction budget, v, s using ctx.passes_induction with
  | settled budget v s hp =>
      rw [passesHistory_of_not_pending hp]
      exact hread v
  | exhausted v s hp => exact hread v
  | halted budget v s h s' hp hpass =>
      rw [passesHistory_of_error hp hpass]
      exact (hread v).append (allProper_passAccount v s)
  | unchanged budget v s s' hp hpass =>
      rw [passesHistory_of_unchanged hp hpass]
      exact (hread v).append ((allProper_passAccount v s).append hpassed)
  | changed budget v s u s' hp hpass hu ih =>
      rw [passesHistory_of_changed hp hpass hu]
      exact (hread v).append ((allProper_passAccount v s).append (hpassed.append ih))

/-- **Every call of a run carries the environment of the commands**, and a command line that
is not blank. -/
theorem allProper_history (ctx : Context) (t : Text) (s : Trace) :
    ctx.AllProper (ctx.history t s) := by
  rw [history]
  split
  · exact .of_calls_eq_nil rfl
  · unfold innerHistory
    split
    · exact .of_calls_eq_nil rfl
    · exact (allProper_passesHistory _ _ s).append (.of_calls_eq_nil (Event.calls_map _))

/-! ## Whole runs -/

/-- **References and commands see one and the same environment**: the one behind the
variables, overlaid with their values. A name has the value that it has there. A run without
variables, in that environment, is the same run; so is one whose variables stand in another
order and keep other texts besides their values. And every call, of every pass, carries that
environment and a command line that is not blank. -/
theorem interpolate_in_one_environment (ctx : Context) (t : Text) (s : Trace) :
    let seen := ctx.environment.overlay ctx.bindings.values
    ctx.commandEnvironment = seen
    ∧ (∀ name, ctx.lookup name = ctx.commandEnvironment[name]?)
    ∧ { ctx with bindings := ∅, environment := seen }.interpolate t s = ctx.interpolate t s
    ∧ (∀ l l' : List (Text × Given), (l.map Prod.fst).Nodup →
        (l.map Given.assigned).Perm (l'.map Given.assigned) →
        { ctx with bindings := .ofGiven l' }.interpolate t s
          = { ctx with bindings := .ofGiven l }.interpolate t s)
    ∧ ∃ calls : List Call, (ctx.interpolate t s).2.calls = s.calls ++ calls.toArray
      ∧ ∀ c ∈ calls, c.environment = seen ∧ Text.isBlank c.line = false := by
  have halone : { ctx with bindings := ∅, environment := ctx.commandEnvironment }.commandEnvironment
      = ctx.commandEnvironment := ctx.commandEnvironment_of_empty _
  refine ⟨rfl, fun name => (ctx.getElem?_commandEnvironment name).symm,
    interpolate_eq_of_commandEnvironment_eq (by rfl) (by rfl) halone t s,
    fun l l' hnodup hperm => ?_, _, (ctx.extends_interpolate t s).calls, fun c hc => ?_⟩
  · have hsame : { ctx with bindings := .ofGiven l' }.commandEnvironment
        = { ctx with bindings := .ofGiven l }.commandEnvironment := by
      rw [commandEnvironment, commandEnvironment, Variables.values_ofGiven_perm hnodup hperm]
    exact interpolate_eq_of_commandEnvironment_eq (by rfl) (by rfl) hsame t s
  · have hproper := ctx.allProper_history t s c hc
    exact ⟨hproper.environment, hproper.not_blank⟩

/-- The variable `A` of the environment is hidden by another one. -/
def shadowing : Context where
  bindings := .ofGiven [("A".toList, .entry { value := "1".toList })]
  environment := Assignment.ofList [("A".toList, "0".toList), ("B".toList, "b".toList)]
  config := {}
  shell := Script.shell { echo := true }

/-- Two variables, and the same two the other way round, one of them with the text it was
written as. The command is given their values, and is run where they hold. -/
theorem interpolate_shadowing :
    let l : List (Text × Given) := [("A".toList, .entry { value := "1".toList }),
      ("C".toList, .entry { value := "c".toList, written := some "'c'".toList })]
    let l' : List (Text × Given) := [("C".toList, .entry { value := "c".toList }),
      ("A".toList, .entry { value := "1".toList })]
    (l.map Prod.fst).Nodup ∧ (l.map Given.assigned).Perm (l'.map Given.assigned)
    ∧ { shadowing with bindings := .ofGiven l' }.interpolate "$(say ${A}${B}${C})".toList {}
      = { shadowing with bindings := .ofGiven l }.interpolate "$(say ${A}${B}${C})".toList {}
    ∧ ({ shadowing with bindings := .ofGiven l }.interpolate "$(say ${A}${B}${C})".toList
        {}).1.toOption = some { value := "say 1bc".toList, iterations := 1 } := by
  intro l l'
  have hnodup : (l.map Prod.fst).Nodup := by decide
  have hperm : (l.map Given.assigned).Perm (l'.map Given.assigned) := by decide
  obtain ⟨-, -, -, hsame, -⟩ :=
    interpolate_in_one_environment shadowing "$(say ${A}${B}${C})".toList {}
  exact ⟨hnodup, hperm, hsame l l' hnodup hperm, by decide +kernel⟩

end Context
end EnvValues
