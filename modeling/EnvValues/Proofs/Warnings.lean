import EnvValues.Proofs.Mirror
import EnvValues.Proofs.Unselected

/-!
# Warnings

Two kinds of notices may be switched off: that a variable is unset, and that the budget is spent.
Nothing reads a notice while a value is expanded, so **a warning that is off takes its own notices
away and changes nothing else** (`interpolate_with_warnings`). A run with both warnings and a run
with some of them leave traces of which one is thinned out (`Thinned`): the same counts and calls,
and the notices that are on.

A variable is noticed where a reference to it is evaluated. `visits` follows the evaluation and
lists the references in order, those that an operator picks a fallback for before the fallback, and
none behind a halt. The notices of a run are then told by its visits: **one for each visit without
an operator that finds no value**, in their order (`undefinedNames_history`).
-/

namespace EnvValues

namespace Notice

/-- The name that a notice says is unset. -/
def undefined? : Notice → Option Text
  | undefinedVariable name => some name
  | _ => none

/-- Is a notice raised with these warnings on or off? -/
def isOn (undefined iterations : Bool) : Notice → Bool
  | undefinedVariable _ => undefined
  | maxIterations => iterations
  | _ => true

end Notice

/-- The names that are noticed to be unset, in order. -/
def Event.undefinedNames (es : List Event) : List Text := (notices es).filterMap Notice.undefined?

namespace Event

theorem undefinedNames_append (es fs : List Event) :
    undefinedNames (es ++ fs) = undefinedNames es ++ undefinedNames fs := by
  rw [undefinedNames, notices_append, List.filterMap_append, undefinedNames, undefinedNames]

theorem undefinedNames_of_notices_eq_nil {es : List Event} (h : notices es = []) :
    undefinedNames es = [] := by
  rw [undefinedNames, h, List.filterMap_nil]

/-- Neither of these has to do with a variable. -/
theorem undefinedNames_read_cons (t : Text) (es : List Event) :
    undefinedNames (.read t :: es) = undefinedNames es := by
  simp [undefinedNames]

theorem undefinedNames_passed_cons (es : List Event) :
    undefinedNames (.passed :: es) = undefinedNames es := by
  simp [undefinedNames]

end Event

/-- A reference that is evaluated. -/
structure Visit where
  name : Text
  operator : Option Operator
  deriving DecidableEq, Repr

namespace Context

/-! ## The references that are evaluated -/

mutual

/-- The references that are evaluated where a node is expanded, from a trace on. -/
def visits (ctx : Context) : Node → Trace → List Visit
  | .lit _, _ => []
  | .ref name _ none _, _ => [⟨name, none⟩]
  | .ref name _ (some op) none, _ => [⟨name, some op⟩]
  | .ref name _ (some op) (some f), s =>
    ⟨name, some op⟩ :: if ctx.picks name op then visitsAll ctx .value f s else []
  | .command line _, s => visitsAll ctx .line line s
  | .group ns, s => visitsAll ctx .value ns s
  | .nothing, _ => []

/-- The references that are evaluated where nodes are expanded in order. -/
def visitsAll (ctx : Context) (p : Place) : List Node → Trace → List Visit
  | [], _ => []
  | n :: ns, s => visits ctx n s ++ match (ctx.expand p n).after s with
    | (.ok _, s') => visitsAll ctx p ns s'
    | (.error _, _) => []

end

/-- The references that are evaluated in up to so many passes. -/
def passesVisits (ctx : Context) : (budget : Nat) → Text → Trace → List Visit
  | 0, _, _ => []
  | budget + 1, v, s =>
    if Node.hasExpansions (ctx.nodes v) then
      ctx.visitsAll .value (ctx.nodes v) { s with written := 0 } ++ match ctx.passOver v s with
        | (.error _, _) => []
        | (.ok u, s') => if u = v then [] else passesVisits ctx budget u s'
    else []

/-- The references that are evaluated where a value is expanded, over all passes, the one that is
abandoned included. -/
def visited (ctx : Context) (t : Text) (s : Trace) : List Visit :=
  if (OuterQuotes.split t).1 = some .single then []
  else if ctx.config.limits.forbidsInput (OuterQuotes.split t).2.length then []
  else ctx.passesVisits ctx.config.budget (OuterQuotes.split t).2 s

/-- No variable has the name, and neither has the environment. -/
def Unset (ctx : Context) (name : Text) : Prop :=
  ctx.bindings[name]? = none ∧ ctx.environment[name]? = none

instance (ctx : Context) (name : Text) : Decidable (ctx.Unset name) :=
  inferInstanceAs (Decidable (_ ∧ _))

/-- The names of the visits that carry no operator and find no value. -/
def unsetNames (ctx : Context) (vs : List Visit) : List Text :=
  (vs.filter fun v => v.operator = none ∧ ctx.Unset v.name).map Visit.name

section
variable {ctx : Context}

theorem unset_iff {name : Text} : ctx.Unset name ↔ ctx.lookup name = none := by
  rw [Unset, lookup]
  cases ctx.bindings[name]? <;> simp

@[simp] theorem unsetNames_nil : ctx.unsetNames [] = [] := rfl

theorem unsetNames_append (vs ws : List Visit) :
    ctx.unsetNames (vs ++ ws) = ctx.unsetNames vs ++ ctx.unsetNames ws := by
  simp [unsetNames]

/-- A visit with an operator does not count, whatever it finds. -/
@[simp] theorem unsetNames_operator_cons (name : Text) (op : Operator) (vs : List Visit) :
    ctx.unsetNames (⟨name, some op⟩ :: vs) = ctx.unsetNames vs := by
  simp [unsetNames]

/-! ## What is noticed of them -/

/-- A visit without an operator is noticed if it finds no value. -/
theorem undefinedNames_refAccount (hwarn : ctx.config.warnOnUndefined = true) (name : Text)
    (s : Trace) : Event.undefinedNames (ctx.refAccount name s) = ctx.unsetNames [⟨name, none⟩] := by
  rw [refAccount]
  cases hl : ctx.lookup name with
  | some v =>
      have hset : ¬ ctx.Unset name := by
        rw [unset_iff, hl]
        nofun
      simp [unsetNames, hset, Account.nothing, Event.undefinedNames]
  | none =>
      have hunset : ctx.Unset name := unset_iff.2 hl
      simp [unsetNames, hunset, warnAccount, hwarn, Event.undefinedNames, Notice.undefined?]

/-- Running a command line notices no variable. -/
theorem undefinedNames_lineAccount (ctx : Context) (line : Text) (s : Trace) :
    Event.undefinedNames (ctx.lineAccount line s) = [] := by
  have hfail : ∀ e s, Event.undefinedNames (ctx.failAccount e s) = [] := by
    intro e s
    unfold failAccount
    split <;> rfl
  unfold lineAccount
  split
  · exact hfail _ s
  · cases hr : (ctx.call line).after s with
    | mk r s' =>
        cases r with
        | error h =>
            rw [Account.bind_of_error hr]
            rfl
        | ok o =>
            rw [Account.bind_of_ok hr, Event.undefinedNames_append,
              Event.undefinedNames_of_notices_eq_nil rfl, List.nil_append]
            split
            · rfl
            · exact hfail _ s'

mutual

/-- What is noticed in the expansion of a node is told by the references that are evaluated. -/
theorem undefinedNames_account (hwarn : ctx.config.warnOnUndefined = true) :
    ∀ (n : Node) (s : Trace),
      Event.undefinedNames (ctx.account n s) = ctx.unsetNames (ctx.visits n s)
  | .lit t, s => by rw [account, visits]; rfl
  | .ref name raw none f, s => by
      rw [account, visits]
      exact undefinedNames_refAccount hwarn name s
  | .ref name raw (some op) none, s => by
      rw [account, visits, unsetNames_operator_cons]
      rfl
  | .ref name raw (some op) (some f), s => by
      rw [account, visits, unsetNames_operator_cons]
      cases hpick : ctx.picks name op with
      | false =>
          rw [choiceAccount_of_not_picks hpick]
          rfl
      | true =>
          rw [picks] at hpick
          rw [choiceAccount, hpick]
          exact undefinedNames_accountAll hwarn .value f s
  | .command line raw, s => by
      rw [account, visits, ← undefinedNames_accountAll hwarn .line line s]
      cases hr : (ctx.expandAll .line line).after s with
      | mk r s' =>
          cases r with
          | error h => rw [Account.bind_of_error hr]
          | ok t =>
              rw [Account.bind_of_ok hr, Event.undefinedNames_append, undefinedNames_lineAccount,
                List.append_nil]
  | .group ns, s => by
      rw [account, visits]
      exact undefinedNames_accountAll hwarn .value ns s
  | .nothing, s => by rw [account, visits]; rfl

/-- **What is noticed in the expansion of nodes is told by the references that are evaluated.** -/
theorem undefinedNames_accountAll (hwarn : ctx.config.warnOnUndefined = true) (p : Place) :
    ∀ (ns : List Node) (s : Trace),
      Event.undefinedNames (ctx.accountAll p ns s) = ctx.unsetNames (ctx.visitsAll p ns s)
  | [], s => by rw [accountAll, visitsAll]; rfl
  | n :: ns, s => by
      rw [accountAll, visitsAll, unsetNames_append, ← undefinedNames_account hwarn n s]
      cases hr : (ctx.expand p n).after s with
      | mk r s' =>
          cases r with
          | error h => rw [Account.bind_of_error hr, unsetNames_nil, List.append_nil]
          | ok t =>
              rw [Account.bind_of_ok hr, Event.undefinedNames_append,
                undefinedNames_accountAll hwarn p ns s']

end

/-- What is noticed in the passes is told by the references that are evaluated in them. -/
theorem undefinedNames_passesHistory (hwarn : ctx.config.warnOnUndefined = true) (budget : Nat)
    (v : Text) (s : Trace) :
    Event.undefinedNames (ctx.passesHistory budget v s)
      = ctx.unsetNames (ctx.passesVisits budget v s) := by
  have hpass : ∀ v s, Event.undefinedNames (ctx.passAccount v s)
      = ctx.unsetNames (ctx.visitsAll .value (ctx.nodes v) { s with written := 0 }) :=
    fun v s => undefinedNames_accountAll hwarn .value (ctx.nodes v) { s with written := 0 }
  induction budget, v, s using ctx.passes_induction with
  | settled budget v s hp =>
      rw [passesHistory_of_not_pending hp]
      rw [Pending] at hp
      cases budget with
      | zero => rfl
      | succ budget => rw [passesVisits, if_neg hp]; rfl
  | exhausted v s hp => rfl
  | halted budget v s h s' hp hrun =>
      rw [passesHistory_of_error hp hrun, Event.undefinedNames_read_cons, hpass]
      rw [Pending] at hp
      simp only [passesVisits, if_pos hp, hrun, List.append_nil]
  | unchanged budget v s s' hp hrun =>
      rw [passesHistory_of_unchanged hp hrun, Event.undefinedNames_read_cons,
        Event.undefinedNames_append, Event.undefinedNames_passed_cons, hpass]
      rw [Pending] at hp
      simp only [passesVisits, if_pos hp, hrun, if_true, List.append_nil]
      exact List.append_nil _
  | changed budget v s u s' hp hrun hu ih =>
      rw [passesHistory_of_changed hp hrun hu, Event.undefinedNames_read_cons,
        Event.undefinedNames_append, Event.undefinedNames_passed_cons, hpass, ih]
      rw [Pending] at hp
      simp only [passesVisits, if_pos hp, hrun, if_neg hu, unsetNames_append]

/-- **A run notices each visit without an operator that finds no value**, in order, and no other
visit. -/
theorem undefinedNames_history (hwarn : ctx.config.warnOnUndefined = true) (t : Text) (s : Trace) :
    Event.undefinedNames (ctx.history t s) = ctx.unsetNames (ctx.visited t s) := by
  have hend : ∀ ending, Event.undefinedNames ((ctx.endNotices ending).map .notice) = [] := by
    intro ending
    rw [Event.undefinedNames, Event.notices_map]
    unfold endNotices
    split
    · split <;> rfl
    · rfl
    · rfl
  unfold history visited
  split
  · rfl
  · unfold innerHistory
    split
    · rfl
    · rw [Event.undefinedNames_append, undefinedNames_passesHistory hwarn, hend, List.append_nil]

end

/-! ## Notices that are off -/

/-- The context with each of the two warnings on or off. -/
def withWarnings (ctx : Context) (undefined iterations : Bool) : Context :=
  { ctx with config.warnOnUndefined := undefined, config.warnOnMaxIterations := iterations }

end Context

/-- From the same notices on, two traces did the same, but of the notices of the first one only
some were raised in the second. -/
structure Trace.Thinned (keeps : Notice → Bool) (base : Array Notice) (s s' : Trace) : Prop where
  written : s'.written = s.written
  calls : s'.calls = s.calls
  notices : ∃ ns : List Notice,
    s.notices = base ++ ns.toArray ∧ s'.notices = base ++ (ns.filter keeps).toArray

section
variable {keeps : Notice → Bool} {base : Array Notice} {s s' : Trace}

theorem Trace.Thinned.refl (keeps : Notice → Bool) (s : Trace) : Thinned keeps s.notices s s :=
  ⟨rfl, rfl, [], by simp, by simp⟩

theorem Trace.Thinned.count (h : Thinned keeps base s s') (k : Nat) :
    Thinned keeps base { s with written := k } { s' with written := k } :=
  ⟨rfl, h.calls, h.notices⟩

theorem Trace.Thinned.call (h : Thinned keeps base s s') (c : Call) :
    Thinned keeps base { s with calls := s.calls.push c } { s' with calls := s'.calls.push c } :=
  ⟨h.written, by rw [h.calls], h.notices⟩

/-- A notice that is not kept is raised in the first trace only. -/
theorem Trace.Thinned.notice (h : Thinned keeps base s s') (n : Notice) :
    Thinned keeps base { s with notices := s.notices.push n }
      (if keeps n then { s' with notices := s'.notices.push n } else s') := by
  obtain ⟨ns, hs, hs'⟩ := h.notices
  cases hn : keeps n with
  | true =>
      rw [if_pos rfl]
      exact ⟨h.written, h.calls, ns ++ [n], by simp [hs], by simp [hs', hn]⟩
  | false =>
      rw [if_neg Bool.false_ne_true]
      exact ⟨h.written, h.calls, ns ++ [n], by simp [hs], by simp [hs', hn]⟩

end

namespace Context

section
variable {keeps : Notice → Bool} {base : Array Notice}

theorem thinned_emit (ctx : Context) (t : Text) :
    Mirrors (Trace.Thinned keeps base) (ctx.emit t) (ctx.emit t) := by
  intro s s' hT
  rw [emit, Expansion.after_ofTrace, Expansion.after_ofTrace]
  dsimp only
  rw [hT.written]
  split
  · exact ⟨rfl, hT.count _⟩
  · exact ⟨rfl, hT.count _⟩

/-- That a command failed is noticed in both. -/
theorem thinned_failCommand (hkeeps : ∀ e, keeps (.commandFailed e) = true) (ctx : Context)
    (e : CommandError) :
    Mirrors (Trace.Thinned keeps base) (ctx.failCommand e) (ctx.failCommand e) := by
  intro s s' hT
  have hnotice := hT.notice (.commandFailed e)
  rw [if_pos (hkeeps e)] at hnotice
  unfold failCommand
  split
  · exact ⟨rfl, hT⟩
  · exact ⟨rfl, hnotice⟩

theorem thinned_call (ctx : Context) (line : Text) :
    Mirrors (Trace.Thinned keeps base) (ctx.call line) (ctx.call line) := by
  intro s s' hT
  have hcall := hT.call ⟨line, ctx.commandEnvironment⟩
  rw [hT.calls] at hcall
  rw [call, Expansion.after_ofTrace, Expansion.after_ofTrace]
  dsimp only
  rw [hT.calls]
  split
  · exact ⟨rfl, hcall⟩
  · exact ⟨rfl, hcall⟩

end

section
variable (ctx : Context) (undefined iterations : Bool) (base : Array Notice)

/-- An unset variable is noticed in the second run if that is on. -/
theorem thinned_warn (name : Text) :
    Mirrors (Trace.Thinned (Notice.isOn undefined iterations) base)
      ((ctx.withWarnings true true).warn name)
      ((ctx.withWarnings undefined iterations).warn name) := by
  intro s s' hT
  have hnotice := hT.notice (.undefinedVariable name)
  cases undefined with
  | true => exact ⟨rfl, hnotice⟩
  | false => exact ⟨rfl, hnotice⟩

/-- **With some of the warnings, every step is thinned out.** -/
theorem steps_withWarnings :
    Steps (ctx.withWarnings true true) (ctx.withWarnings undefined iterations)
      fun x _ y => Mirrors (Trace.Thinned (Notice.isOn undefined iterations) base) x y where
  lookup _ := rfl
  honours _ := rfl
  placed _ _ := rfl
  pure := Mirrors.pure
  bind := Mirrors.bind
  emit := thinned_emit ctx
  warn := thinned_warn ctx undefined iterations base
  line := @Steps.runLine (ctx.withWarnings true true) (ctx.withWarnings undefined iterations)
    (fun x _ y => Mirrors (Trace.Thinned (Notice.isOn undefined iterations) base) x y) Mirrors.bind
    (thinned_emit ctx) (thinned_failCommand (fun _ => rfl) ctx) (thinned_call ctx)

theorem passOver_withWarnings (v : Text) (s s' : Trace)
    (hT : Trace.Thinned (Notice.isOn undefined iterations) base s s') :
    ((ctx.withWarnings undefined iterations).passOver v s').1
        = ((ctx.withWarnings true true).passOver v s).1
      ∧ Trace.Thinned (Notice.isOn undefined iterations) base
        ((ctx.withWarnings true true).passOver v s).2
        ((ctx.withWarnings undefined iterations).passOver v s').2 :=
  (ctx.steps_withWarnings undefined iterations base).expandAll .value (ctx.nodes v) _ _ (hT.count 0)

/-- Passes that end alike have the same result, and end with the same notices but for the one that
the budget is spent. -/
theorem conclude_withWarnings {p p' : Passes}
    (hp : EndsAlike (Trace.Thinned (Notice.isOn undefined iterations) base) p p') :
    ((ctx.withWarnings undefined iterations).conclude p').1
        = ((ctx.withWarnings true true).conclude p).1
      ∧ Trace.Thinned (Notice.isOn undefined iterations) base
        ((ctx.withWarnings true true).conclude p).2
        ((ctx.withWarnings undefined iterations).conclude p').2 := by
  obtain ⟨ending, v, count, s⟩ := p
  obtain ⟨ending', v', count', s'⟩ := p'
  obtain ⟨rfl, rfl, rfl, hT⟩ := hp
  cases ending' with
  | settled => exact ⟨rfl, hT⟩
  | exhausted =>
      have hnotice := hT.notice .maxIterations
      cases iterations with
      | true => exact ⟨rfl, hnotice⟩
      | false => exact ⟨rfl, hnotice⟩
  | halted halt =>
      cases halt with
      | commandFailed e => exact ⟨rfl, hT⟩
      | outputTooLong limit => exact ⟨rfl, hT.notice (.outputTooLong limit)⟩
      | refused r => exact ⟨rfl, hT⟩

theorem thinned_interpolate (t : Text) (s : Trace) :
    ((ctx.withWarnings undefined iterations).interpolate t s).1
        = ((ctx.withWarnings true true).interpolate t s).1
      ∧ Trace.Thinned (Notice.isOn undefined iterations) s.notices
        ((ctx.withWarnings true true).interpolate t s).2
        ((ctx.withWarnings undefined iterations).interpolate t s).2 := by
  have hstart := Trace.Thinned.refl (Notice.isOn undefined iterations) s
  rw [interpolate_eq, interpolate_eq]
  split
  · exact ⟨rfl, hstart⟩
  · generalize (OuterQuotes.split t).2 = inner
    have hlimits : ∀ u i, (ctx.withWarnings u i).config.limits = ctx.config.limits := fun _ _ => rfl
    rw [interpolateInner, interpolateInner, hlimits, hlimits]
    split
    · exact ⟨rfl, hstart.notice (.inputTooLong inner.length ctx.config.limits.inputLength)⟩
    · refine ctx.conclude_withWarnings undefined iterations s.notices ?_
      exact @passes_alike _ (ctx.withWarnings true true) (ctx.withWarnings undefined iterations)
        (fun _ => Iff.rfl) (ctx.passOver_withWarnings undefined iterations s.notices)
        ctx.config.budget inner s 0 s hstart

end

/-- **Warnings are complete, and they do not disturb what they warn of.** Whatever the warnings that
are on, a run gives the same result and makes the same calls as with both of them, and of the
notices raised with both it raises the ones that are on, in the same order. With the warning of
unset variables on, the variables it says are unset are, in order, the names of the references
evaluated in the run that carry no operator and find a value in neither the variables nor the
environment. -/
theorem interpolate_with_warnings (ctx : Context) (t : Text) (s : Trace) :
    ∃ ns : List Notice,
      ((ctx.withWarnings true true).interpolate t s).2.notices = s.notices ++ ns.toArray
      ∧ (∀ undefined iterations,
        ((ctx.withWarnings undefined iterations).interpolate t s).1
            = ((ctx.withWarnings true true).interpolate t s).1
        ∧ ((ctx.withWarnings undefined iterations).interpolate t s).2.calls
            = ((ctx.withWarnings true true).interpolate t s).2.calls
        ∧ ((ctx.withWarnings undefined iterations).interpolate t s).2.notices
            = s.notices ++ (ns.filter (Notice.isOn undefined iterations)).toArray)
      ∧ ∀ iterations,
        (ns.filter (Notice.isOn true iterations)).filterMap Notice.undefined?
          = (((ctx.withWarnings true iterations).visited t s).filter fun v =>
              v.operator = none ∧ ctx.bindings[v.name]? = none
                ∧ ctx.environment[v.name]? = none).map Visit.name := by
  let ns := Event.notices ((ctx.withWarnings true true).history t s)
  have hloud : ((ctx.withWarnings true true).interpolate t s).2.notices = s.notices ++ ns.toArray :=
    ((ctx.withWarnings true true).extends_interpolate t s).notices
  have hquiet : ∀ undefined iterations,
      ((ctx.withWarnings undefined iterations).interpolate t s).2.notices
        = s.notices ++ (ns.filter (Notice.isOn undefined iterations)).toArray := by
    intro undefined iterations
    obtain ⟨ns', hns', hfilter⟩ := (ctx.thinned_interpolate undefined iterations t s).2.notices
    rw [hloud, Array.append_right_inj] at hns'
    rw [hfilter, ← List.toArray_inj hns']
  refine ⟨ns, hloud, fun undefined iterations => ?_, fun iterations => ?_⟩
  · obtain ⟨hresult, hT⟩ := ctx.thinned_interpolate undefined iterations t s
    exact ⟨hresult, hT.calls, hquiet undefined iterations⟩
  · have htold := ((ctx.withWarnings true iterations).extends_interpolate t s).notices
    rw [hquiet, Array.append_right_inj] at htold
    rw [List.toArray_inj htold]
    exact undefinedNames_history rfl t s

/-- No variable has a value, and that is noticed. -/
def watchful : Context where
  bindings := ∅
  environment := ∅
  config := { warnOnUndefined := true }
  shell := Script.shell { echo := true }

/-- The fallback of `B` is evaluated, and so is the line of the command. A reference with an
operator is not noticed. -/
example :
    watchful.visited "${A}${B:-${C}}$(say ${D} ${E+$F})".toList {}
      = [⟨['A'], none⟩, ⟨['B'], some ⟨.otherwise, true⟩⟩, ⟨['C'], none⟩, ⟨['D'], none⟩,
        ⟨['E'], some ⟨.instead, false⟩⟩]
    ∧ (watchful.interpolate "${A}${B:-${C}}$(say ${D} ${E+$F})".toList {}).2.notices
      = #[.undefinedVariable ['A'], .undefinedVariable ['C'], .undefinedVariable ['D']] := by
  decide +kernel

end Context
end EnvValues
