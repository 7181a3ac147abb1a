import EnvValues.Proofs.History
import EnvValues.Session

/-!
# Runs in which failures count

Where failures count, the first command that fails ends the run. Where they do not, it
leaves a notice and the run goes on. Until then the two runs do the same: **a strict run is
a lenient run that is cut off at its first failure** (`strict_cuts_lenient`).

The two go in lock step, node by node (`steps_lockstep`), pass by pass (`passes_lockstep`).
What the strict run leaves at the cut is what the lenient run had done there: its texts,
its passes, its notices and its calls up to then, and nothing after.
-/

namespace EnvValues

/-- No notice among the events is an error. -/
def Event.NoError (es : List Event) : Prop := ∀ n ∈ Event.notices es, n.severity ≠ .error

namespace Event

theorem NoError.of_notices_eq_nil {es : List Event} (h : notices es = []) : NoError es := by
  intro n hn
  rw [h] at hn
  exact absurd hn List.not_mem_nil

theorem noError_append {es fs : List Event} : NoError (es ++ fs) ↔ NoError es ∧ NoError fs := by
  simp only [NoError, notices_append, List.mem_append, or_imp, forall_and]

theorem noError_cons {e : Event} {es : List Event} :
    NoError (e :: es) ↔ NoError [e] ∧ NoError es := @noError_append [e] es

end Event

namespace Context

/-- The context with failures that do not count. -/
def lenient (ctx : Context) : Context := { ctx with config.failOnCommandError := false }

/-- The context with failures that count. -/
def strict (ctx : Context) : Context := { ctx with config.failOnCommandError := true }

/-- After the calls made before, these events lead up to a command that fails with this error:
it is a line of blanks, or the last event is its call. -/
inductive Fails (ctx : Context) (made : Array Call) : List Event → CommandError → Prop where
  | blank {es : List Event} {line : Text} :
      Text.isBlank line = true → Fails ctx made es (.blank line)
  | exit {es : List Event} {line : Text} {o : Output} :
      Text.isBlank line = false →
      ctx.shell.answer (made ++ (Event.calls es).toArray) ⟨line, ctx.commandEnvironment⟩ = .ok o →
      o.exitCode ≠ 0 →
      Fails ctx made (es ++ [.call ⟨line, ctx.commandEnvironment⟩])
        { line := line, exitCode := o.exitCode, stderr := o.stderr }

/-- What comes before leads up to the failure as well. -/
theorem Fails.behind {ctx : Context} {s s₁ : Trace} {es earlier : List Event} {e : CommandError}
    (h : ctx.Fails s₁.calls earlier e) (hs : s.Extends es s₁) :
    ctx.Fails s.calls (es ++ earlier) e := by
  cases h with
  | blank hblank => exact .blank hblank
  | exit hblank hanswer ho =>
      rw [hs.calls] at hanswer
      rw [← List.append_assoc]
      exact .exit hblank (by simpa using hanswer) ho

/-- In these events, the first command that fails does so with this error. A run up to there
leaves this trace. -/
structure FirstFailure (ctx : Context) (s : Trace) (es earlier : List Event) (e : CommandError)
    (s' : Trace) : Prop where
  split : ∃ later, es = earlier ++ .notice (.commandFailed e) :: later
  noError : Event.NoError earlier
  extends_cut : s.Extends earlier s'
  fails : ctx.Fails s.calls earlier e

section
variable {ctx : Context} {s s' s₁ : Trace} {es fs earlier : List Event} {e : CommandError}

/-- What comes later does not matter. -/
theorem FirstFailure.append (h : ctx.FirstFailure s es earlier e s') (fs : List Event) :
    ctx.FirstFailure s (es ++ fs) earlier e s' := by
  obtain ⟨later, rfl⟩ := h.split
  exact { h with split := ⟨later ++ fs, by simp⟩ }

/-- What comes before has no failure in it. -/
theorem FirstFailure.behind (h : ctx.FirstFailure s₁ fs earlier e s') (hs : s.Extends es s₁)
    (hes : Event.NoError es) : ctx.FirstFailure s (es ++ fs) (es ++ earlier) e s' := by
  obtain ⟨later, rfl⟩ := h.split
  exact
    { split := ⟨later, by simp⟩
      noError := Event.noError_append.2 ⟨hes, h.noError⟩
      extends_cut := hs.append h.extends_cut
      fails := h.fails.behind hs }

end

/-! ## Lock step -/

/-- Two steps that do the same, unless a command fails in the first one. There the second
one halts. -/
structure Lockstep (ctx : Context) {α : Type} (x : Expansion α) (es : Account) (y : Expansion α) :
    Prop where
  tells : Tells x es
  cut : ∀ s, (Event.NoError (es s) ∧ y.after s = x.after s)
    ∨ ∃ earlier e s', ctx.FirstFailure s (es s) earlier e s'
      ∧ y.after s = (.error (.commandFailed e), s')

section
variable {ctx : Context}

/-- A step that is the same in both runs, and raises no error. -/
theorem Lockstep.same {α : Type} {x : Expansion α} {es : Account} (h : Tells x es)
    (hes : ∀ s, Event.NoError (es s)) : ctx.Lockstep x es x :=
  ⟨h, fun s => Or.inl ⟨hes s, rfl⟩⟩

theorem Lockstep.bind {α β : Type} {x y : Expansion α} {es : Account} {f g : α → Expansion β}
    {fs : α → Account} (hx : ctx.Lockstep x es y) (hf : ∀ a, ctx.Lockstep (f a) (fs a) (g a)) :
    ctx.Lockstep (x >>= f) (.bind x es fs) (y >>= g) := by
  refine ⟨hx.tells.bind fun a => (hf a).tells, fun s => ?_⟩
  have htells := hx.tells.extends_after s
  cases hr : x.after s with
  | mk r s₁ =>
      rw [hr] at htells
      obtain ⟨hes, hy⟩ | ⟨earlier, e, s', hfirst, hy⟩ := hx.cut s
      · rw [hr] at hy
        cases r with
        | error h =>
            refine Or.inl ⟨?_, ?_⟩
            · rwa [Account.bind_of_error hr]
            · rw [Expansion.after_bind_of_error hr, Expansion.after_bind_of_error hy]
        | ok a =>
            rw [Account.bind_of_ok hr, Expansion.after_bind_of_ok hr, Expansion.after_bind_of_ok hy]
            obtain ⟨hfs, hg⟩ | ⟨earlier, e, s', hfirst, hg⟩ := (hf a).cut s₁
            · exact Or.inl ⟨Event.noError_append.2 ⟨hes, hfs⟩, hg⟩
            · exact Or.inr ⟨es s ++ earlier, e, s', hfirst.behind htells hes, hg⟩
      · -- the second one has halted, whatever the first one goes on to do
        refine Or.inr ⟨earlier, e, s', ?_, Expansion.after_bind_of_error hy⟩
        cases r with
        | error h => rwa [Account.bind_of_error hr]
        | ok a =>
            rw [Account.bind_of_ok hr]
            exact hfirst.append _

theorem noError_warnAccount (ctx : Context) (name : Text) (s : Trace) :
    Event.NoError (ctx.warnAccount name s) := by
  unfold warnAccount
  split
  · intro n hn
    obtain rfl : n = .undefinedVariable name := by simpa using hn
    exact nofun
  · exact .of_notices_eq_nil rfl

theorem noError_callAccount (ctx : Context) (line : Text) (s : Trace) :
    Event.NoError (ctx.callAccount line s) := .of_notices_eq_nil rfl

/-- A call that is answered leads up to a failure, if the exit code says so. -/
theorem fails_of_call {line : Text} {o : Output} {s s₁ : Trace} (hblank : Text.isBlank line = false)
    (h : (ctx.call line).after s = (.ok o, s₁)) (ho : o.exitCode ≠ 0) :
    ctx.Fails s.calls (ctx.callAccount line s)
      { line := line, exitCode := o.exitCode, stderr := o.stderr } := by
  rw [call, Expansion.after_ofTrace] at h
  dsimp only at h
  split at h
  · next o' hanswer =>
      cases h
      rw [callAccount, ← List.nil_append [_]]
      exact .exit hblank (by simpa using hanswer) ho
  · cases h

/-- A command line that fails cuts the strict run, behind its call if there is one. -/
theorem lockstep_line (ctx : Context) (line : Text) :
    ctx.Lockstep (ctx.lenient.runLine line) (ctx.lenient.lineAccount line)
      (ctx.strict.runLine line) := by
  refine ⟨ctx.lenient.steps_tells.line line, fun s => ?_⟩
  unfold runLine lineAccount
  cases hblank : Text.isBlank line with
  | true =>
      have hfirst : ctx.FirstFailure s (ctx.lenient.failAccount (.blank line) s) []
          (.blank line) s :=
        { split := ⟨[], rfl⟩
          noError := .of_notices_eq_nil rfl
          extends_cut := .silent s rfl rfl
          fails := .blank hblank }
      exact Or.inr ⟨_, _, s, hfirst, rfl⟩
  | false =>
      simp only [Bool.false_eq_true, if_false]
      have htells := (ctx.tells_call line).extends_after s
      cases hcall : (ctx.call line).after s with
      | mk r s₁ =>
          rw [hcall] at htells
          -- both runs make the same call, and get the same answer
          have hlenient : (ctx.lenient.call line).after s = (r, s₁) := hcall
          have hstrict : (ctx.strict.call line).after s = (r, s₁) := hcall
          cases r with
          | error h =>
              refine Or.inl ⟨?_, ?_⟩
              · rw [Account.bind_of_error hlenient]
                exact noError_callAccount ctx line s
              · rw [Expansion.after_bind_of_error hlenient, Expansion.after_bind_of_error hstrict]
          | ok o =>
              rw [Account.bind_of_ok hlenient, Expansion.after_bind_of_ok hlenient,
                Expansion.after_bind_of_ok hstrict]
              by_cases ho : o.exitCode = 0
              · simp only [if_pos ho]
                exact Or.inl ⟨Event.noError_append.2
                  ⟨noError_callAccount ctx line s, .of_notices_eq_nil rfl⟩, rfl⟩
              · simp only [if_neg ho]
                exact Or.inr ⟨_, _, s₁,
                  { split := ⟨[], rfl⟩
                    noError := noError_callAccount ctx line s
                    extends_cut := htells
                    fails := fails_of_call hblank hcall ho }, rfl⟩

theorem steps_lockstep (ctx : Context) :
    Steps ctx.lenient ctx.strict fun x es y => ctx.Lockstep x es y where
  lookup _ := rfl
  honours _ := rfl
  placed _ _ := rfl
  pure _ := .same ⟨fun _ => .of_eq rfl rfl, fun _ => ⟨rfl, rfl⟩⟩ fun _ => .of_notices_eq_nil rfl
  bind := Lockstep.bind
  emit t := .same (tells_emit ctx.lenient t) fun _ => .of_notices_eq_nil rfl
  warn name := .same (tells_warn ctx.lenient name) (noError_warnAccount ctx.lenient name)
  line := lockstep_line ctx

end

/-! ## Passes in lock step -/

/-- The two runs make the same pass, or the strict one is cut off in it. -/
theorem passOver_lockstep (ctx : Context) (v : Text) (s : Trace) :
    (Event.NoError (ctx.lenient.passAccount v s)
      ∧ ctx.strict.passOver v s = ctx.lenient.passOver v s)
    ∨ ∃ earlier e s', ctx.FirstFailure s (ctx.lenient.passAccount v s) earlier e s'
      ∧ Event.Within earlier ∧ ctx.strict.passOver v s = (.error (.commandFailed e), s') := by
  have hstep := ctx.steps_lockstep.expandAll .value (ctx.nodes v)
  obtain ⟨hes, heq⟩ | ⟨earlier, e, s', hfirst, hhalt⟩ := hstep.cut { s with written := 0 }
  · exact Or.inl ⟨hes, heq⟩
  · have hwithin := hstep.tells.within { s with written := 0 }
    obtain ⟨later, hsplit⟩ := hfirst.split
    rw [hsplit] at hwithin
    exact Or.inr ⟨earlier, e, s',
      { hfirst with extends_cut := ⟨hfirst.extends_cut.notices, hfirst.extends_cut.calls⟩ },
      hwithin.of_append, hhalt⟩

/-- The passes that are left, cut off at the first failure: the text that the last pass began
with stays, and only the passes before it count. -/
structure PassesCut (ctx : Context) (budget : Nat) (v : Text) (done : Nat) (s : Trace)
    (earlier : List Event) (e : CommandError) (w : Text) (s' : Trace) : Prop where
  first : ctx.FirstFailure s (ctx.lenient.passesHistory budget v s) earlier e s'
  entering : (Event.reads earlier).getLast? = some w
  passes : ctx.strict.passes budget v done s
    = ⟨.halted (.commandFailed e), w, done + Event.completed earlier, s'⟩

/-- A pass that is cut off is the last one. -/
theorem passesCut_of_passOver {ctx : Context} {v : Text} {s s' : Trace} {earlier : List Event}
    {e : CommandError} {budget : Nat} (done : Nat) (hp : ctx.Pending v)
    (hfirst : ctx.FirstFailure s (ctx.lenient.passAccount v s) earlier e s')
    (hwithin : Event.Within earlier)
    (hpass : ctx.strict.passOver v s = (.error (.commandFailed e), s')) :
    ctx.PassesCut (budget + 1) v done s (.read v :: earlier) e v s' := by
  have hlenient : ctx.lenient.Pending v := hp
  have hstrict : ctx.strict.Pending v := hp
  refine ⟨?_, ?_, ?_⟩
  · obtain ⟨rest, hrest⟩ := exists_passesHistory_eq hlenient
    rw [hrest]
    have hread : s.Extends [.read v] s := .silent s rfl rfl
    exact (hfirst.append rest).behind hread (.of_notices_eq_nil rfl)
  · simp [hwithin.1]
  · rw [passes_of_error hstrict hpass]
    simp [hwithin.2]

/-- A pass that both runs complete goes before the cut. -/
theorem PassesCut.behind {ctx : Context} {u v w : Text} {s s' s'' : Trace} {earlier : List Event}
    {e : CommandError} {budget done : Nat}
    (h : ctx.PassesCut budget u (done + 1) s' earlier e w s'')
    (hp : ctx.Pending v) (hes : Event.NoError (ctx.lenient.passAccount v s))
    (hlenient : ctx.lenient.passOver v s = (.ok u, s'))
    (hstrict : ctx.strict.passOver v s = (.ok u, s')) (hu : u ≠ v) :
    ctx.PassesCut (budget + 1) v done s
      ([.read v] ++ (ctx.lenient.passAccount v s ++ [.passed]) ++ earlier) e w s'' := by
  have hp₁ : ctx.lenient.Pending v := hp
  have hp₂ : ctx.strict.Pending v := hp
  refine ⟨?_, ?_, ?_⟩
  · have htold := ctx.lenient.extends_passOver v s
    rw [hlenient] at htold
    have hdone : s.Extends ([.read v] ++ (ctx.lenient.passAccount v s ++ [.passed])) s' :=
      (Trace.Extends.silent s rfl rfl).append (htold.append (.silent s' rfl rfl))
    have hnone : Event.NoError ([.read v] ++ (ctx.lenient.passAccount v s ++ [.passed])) :=
      Event.noError_append.2 ⟨.of_notices_eq_nil rfl,
        Event.noError_append.2 ⟨hes, .of_notices_eq_nil rfl⟩⟩
    have hsplit : ctx.lenient.passesHistory (budget + 1) v s
        = [.read v] ++ (ctx.lenient.passAccount v s ++ [.passed])
          ++ ctx.lenient.passesHistory budget u s' := by
      simp [passesHistory_of_changed hp₁ hlenient hu]
    rw [hsplit]
    exact h.first.behind hdone hnone
  · rw [Event.reads_append, List.getLast?_append, h.entering]
    rfl
  · have hcount :
        Event.completed ([.read v] ++ (ctx.lenient.passAccount v s ++ [.passed])) = 1 := by
      simp [(ctx.lenient.within_passAccount v s).2]
    rw [passes_of_changed hp₂ hstrict hu, h.passes, Event.completed_append, hcount, Nat.add_assoc]

/-- **The passes go in lock step** up to the first failure. -/
theorem passes_lockstep (ctx : Context) (budget : Nat) (v : Text) (s : Trace) :
    ∀ done, (Event.NoError (ctx.lenient.passesHistory budget v s)
        ∧ ctx.strict.passes budget v done s = ctx.lenient.passes budget v done s)
      ∨ ∃ earlier e w s', ctx.PassesCut budget v done s earlier e w s' := by
  have hread : ∀ v, Event.NoError [.read v] := fun v => .of_notices_eq_nil rfl
  have hpassed : Event.NoError [.passed] := .of_notices_eq_nil rfl
  induction budget, v, s using ctx.lenient.passes_induction with
  | settled budget v s hp =>
      intro done
      have hp' : ¬ ctx.strict.Pending v := hp
      rw [passesHistory_of_not_pending hp, passes_of_not_pending hp, passes_of_not_pending hp']
      exact Or.inl ⟨hread v, rfl⟩
  | exhausted v s hp =>
      intro done
      have hp' : ctx.strict.Pending v := hp
      rw [passesHistory_zero, passes_zero_of_pending hp, passes_zero_of_pending hp']
      exact Or.inl ⟨hread v, rfl⟩
  | halted budget v s h s' hp hpass =>
      intro done
      have hp' : ctx.strict.Pending v := hp
      obtain ⟨hes, hsame⟩ | ⟨earlier, e, s'', hfirst, hwithin, hcut⟩ := ctx.passOver_lockstep v s
      · rw [hpass] at hsame
        rw [passesHistory_of_error hp hpass, passes_of_error hp hpass, passes_of_error hp' hsame]
        exact Or.inl ⟨Event.noError_cons.2 ⟨hread v, hes⟩, rfl⟩
      · exact Or.inr ⟨_, _, _, _, passesCut_of_passOver done hp hfirst hwithin hcut⟩
  | unchanged budget v s s' hp hpass =>
      intro done
      have hp' : ctx.strict.Pending v := hp
      obtain ⟨hes, hsame⟩ | ⟨earlier, e, s'', hfirst, hwithin, hcut⟩ := ctx.passOver_lockstep v s
      · rw [hpass] at hsame
        rw [passesHistory_of_unchanged hp hpass, passes_of_unchanged hp hpass,
          passes_of_unchanged hp' hsame]
        exact Or.inl ⟨Event.noError_cons.2 ⟨hread v, Event.noError_append.2 ⟨hes, hpassed⟩⟩, rfl⟩
      · exact Or.inr ⟨_, _, _, _, passesCut_of_passOver done hp hfirst hwithin hcut⟩
  | changed budget v s u s' hp hpass hu ih =>
      intro done
      have hp' : ctx.strict.Pending v := hp
      obtain ⟨hes, hsame⟩ | ⟨earlier, e, s'', hfirst, hwithin, hcut⟩ := ctx.passOver_lockstep v s
      · rw [hpass] at hsame
        obtain ⟨hrest, hpasses⟩ | ⟨earlier, e, w, s'', hcut⟩ := ih (done + 1)
        · rw [passesHistory_of_changed hp hpass hu, passes_of_changed hp hpass hu,
            passes_of_changed hp' hsame hu]
          refine Or.inl ⟨Event.noError_cons.2 ⟨hread v, Event.noError_append.2 ⟨hes, ?_⟩⟩, hpasses⟩
          exact Event.noError_cons.2 ⟨hpassed, hrest⟩
        · exact Or.inr ⟨_, _, _, _, hcut.behind hp hes hpass hsame hu⟩
      · exact Or.inr ⟨_, _, _, _, passesCut_of_passOver done hp hfirst hwithin hcut⟩

/-! ## Runs -/

theorem noError_endNotices (ctx : Context) (ending : Ending) :
    Event.NoError ((ctx.endNotices ending).map .notice) := by
  intro n hn
  rw [Event.notices_map] at hn
  cases ending with
  | settled => exact absurd hn List.not_mem_nil
  | exhausted =>
      simp only [endNotices] at hn
      split at hn
      · obtain rfl := List.mem_singleton.1 hn
        simp [Notice.severity]
      · exact absurd hn List.not_mem_nil
  | halted h =>
      cases h with
      | outputTooLong limit =>
          obtain rfl := List.mem_singleton.1 hn
          simp [Notice.severity]
      | commandFailed e => exact absurd hn List.not_mem_nil
      | refused r => exact absurd hn List.not_mem_nil

/-- A strict run is cut off at the first failure of these events. -/
def CutOff (ctx : Context) (s : Trace) (es : List Event) (run : Except Refusal Result × Trace) :
    Prop :=
  ∃ earlier e w s', ctx.FirstFailure s es earlier e s'
    ∧ (Event.reads earlier).getLast? = some w
    ∧ run = (.ok { value := w, failure := some e, iterations := Event.completed earlier }, s')

theorem interpolateInner_lockstep (ctx : Context) (inner : Text) (s : Trace) :
    (Event.NoError (ctx.lenient.innerHistory inner s)
      ∧ ctx.strict.interpolateInner inner s = ctx.lenient.interpolateInner inner s)
    ∨ ctx.CutOff s (ctx.lenient.innerHistory inner s) (ctx.strict.interpolateInner inner s) := by
  unfold innerHistory interpolateInner
  split
  · next hlong =>
      have hlong' : ctx.strict.config.limits.forbidsInput inner.length = true := hlong
      rw [if_pos hlong']
      refine Or.inl ⟨?_, rfl⟩
      intro n hn
      obtain rfl : n = .inputTooLong inner.length ctx.lenient.config.limits.inputLength := by
        simpa using hn
      exact nofun
  · next hlong =>
      have hlong' : ¬ ctx.strict.config.limits.forbidsInput inner.length = true := hlong
      rw [if_neg hlong']
      obtain ⟨hes, hsame⟩ | ⟨earlier, e, w, s', hcut⟩ :=
        ctx.passes_lockstep ctx.config.budget inner s 0
      · refine Or.inl ⟨Event.noError_append.2 ⟨hes, ctx.lenient.noError_endNotices _⟩, ?_⟩
        exact congrArg ctx.lenient.conclude hsame
      · refine Or.inr ⟨earlier, e, w, s', hcut.first.append _, hcut.entering, ?_⟩
        have hconclude := congrArg ctx.strict.conclude hcut.passes
        rw [Nat.zero_add] at hconclude
        exact hconclude

/-- **A strict run goes in lock step with the lenient one** up to its first failure. -/
theorem interpolate_lockstep (ctx : Context) (t : Text) (s : Trace) :
    (Event.NoError (ctx.lenient.history t s)
      ∧ ctx.strict.interpolate t s = ctx.lenient.interpolate t s)
    ∨ ctx.CutOff s (ctx.lenient.history t s) (ctx.strict.interpolate t s) := by
  rw [history, interpolate_eq, interpolate_eq]
  split
  · exact Or.inl ⟨.of_notices_eq_nil rfl, rfl⟩
  · exact ctx.interpolateInner_lockstep _ s

end Context

/-! ## Interpolators -/

theorem Trace.Extends.extract_notices {s s' : Trace} {es : List Event} (h : s.Extends es s') :
    s'.notices.extract s.notices.size = (Event.notices es).toArray := by
  rw [h.notices]
  simp

theorem Trace.Extends.extract_calls {s s' : Trace} {es : List Event} (h : s.Extends es s') :
    s'.calls.extract s.calls.size = (Event.calls es).toArray := by
  rw [h.calls]
  simp

namespace Session

/-- The interpolator with failures that do not count. -/
def lenient (S : Session) : Session := { S with config.failOnCommandError := false }

/-- The interpolator with failures that count. -/
def strict (S : Session) : Session := { S with config.failOnCommandError := true }

/-- What an interpolator answers about a text: a result, and the text or the failure that is
in it, with the notices and the calls of the run. -/
structure Answers (S : Session) (t : Text) (r : Result) (ns : List Notice) (cs : List Call) :
    Prop where
  run : (S.step (.run { text := .text t })).1 = .result (.ok r) ns.toArray cs.toArray
  unwrap : (S.step (.unwrap { text := .text t })).1
    = .unwrapped (.ok r.unwrap) ns.toArray cs.toArray

/-- What happens where an interpolator expands a text. -/
def history (S : Session) (t : Text) : List Event :=
  (S.context { text := .text t }).history t S.trace

theorem answers_of_interpolate {S : Session} {t : Text} {r : Result} {es : List Event}
    {s' : Trace} (h : (S.context { text := .text t }).interpolate t S.trace = (.ok r, s'))
    (he : S.trace.Extends es s') : S.Answers t r (Event.notices es) (Event.calls es) := by
  have hdatum : (S.context { text := .text t }).interpolateDatum (.text t) S.trace
      = (.ok r, s') := h
  have hrun : S.interpolate { text := .text t } = (.ok r, (Event.notices es).toArray,
      (Event.calls es).toArray, { S with trace := s' }) := by
    rw [interpolate, hdatum, ← he.extract_notices, ← he.extract_calls]
  constructor
  · rw [step, hrun]
  · rw [step, hrun]
    rfl

theorem Answers.result_eq {S : Session} {t : Text} {r : Result} {ns : List Notice}
    {cs : List Call} (h : S.Answers t r ns cs) :
    (S.interpolate { text := .text t }).1 = .ok r :=
  (Answer.result.inj h.run).1

/-- **A strict run is a lenient run that is cut off at its first failure.** The lenient run
never fails. Where it raises no error, the strict run gives the same answers. Otherwise the
strict run stops where the first command fails: its notices and its calls are the earlier
ones, it counts the passes completed earlier, its text is the one that was read last, and
its failure is the one that the lenient run goes on from. -/
theorem strict_cuts_lenient (S : Session) (hshell : S.shell.shell.Willing) (t : Text) :
    ∃ f : Result, f.failure = none ∧ f.unwrap = .ok f.value
      ∧ f.iterations = Event.completed (S.lenient.history t)
      ∧ S.lenient.Answers t f (Event.notices (S.lenient.history t))
          (Event.calls (S.lenient.history t))
      ∧ ((Event.NoError (S.lenient.history t)
          ∧ S.strict.Answers t f (Event.notices (S.lenient.history t))
              (Event.calls (S.lenient.history t)))
        ∨ ∃ earlier e later, ∃ r : Result,
            S.lenient.history t = earlier ++ .notice (.commandFailed e) :: later
            ∧ Event.NoError earlier
            ∧ S.strict.Answers t r (Event.notices earlier) (Event.calls earlier)
            ∧ (S.context { text := .text t }).Fails S.trace.calls earlier e
            ∧ r.failure = some e ∧ r.unwrap = .error e ∧ r.exhausted = false
            ∧ r.iterations = Event.completed earlier
            ∧ (Event.reads earlier).getLast? = some r.value) := by
  let ctx := S.context { text := .text t }
  have hwilling : ctx.lenient.shell.Willing := hshell
  obtain ⟨f, hf, hnone⟩ := Context.exists_result hwilling t S.trace
  have hfailure : f.failure = none := hnone rfl
  have hlenient : ctx.lenient.interpolate t S.trace
      = (.ok f, (ctx.lenient.interpolate t S.trace).2) := Prod.ext hf rfl
  have htold := ctx.lenient.extends_interpolate t S.trace
  refine ⟨f, hfailure, by rw [Result.unwrap, hfailure], Context.iterations_of_interpolate hf,
    answers_of_interpolate (S := S.lenient) hlenient htold, ?_⟩
  obtain ⟨hes, hsame⟩ | ⟨earlier, e, w, s', hfirst, hread, hcut⟩ :=
    ctx.interpolate_lockstep t S.trace
  · have hstrict : ctx.strict.interpolate t S.trace
        = (.ok f, (ctx.lenient.interpolate t S.trace).2) := hsame.trans hlenient
    exact Or.inl ⟨hes, answers_of_interpolate (S := S.strict) hstrict htold⟩
  · obtain ⟨later, hsplit⟩ := hfirst.split
    exact Or.inr ⟨earlier, e, later, _, hsplit, hfirst.noError,
      answers_of_interpolate (S := S.strict) hcut hfirst.extends_cut, hfirst.fails,
      rfl, rfl, rfl, rfl, hread⟩

/-- The variable `A` holds three commands, and the second of them, `boom`, fails. -/
def stumbling : Session :=
  start { bindings := [("A".toList, .datum (.text "x$(one)$(boom)$(two)".toList))] } {}
    (.scripted
      { outputs := Assignment.ofList [("boom".toList, [{ exitCode := 3 }])]
        unknown := some { stdout := "1".toList } })

/-- What the strict run gives: the text that the second pass began with. -/
def stumbled : Result where
  value := "x$(one)$(boom)$(two)".toList
  failure := some { line := "boom".toList, exitCode := 3 }
  iterations := 1

/-- The first pass is completed; in the second one, `one` is run and `boom` ends the strict
run. -/
theorem strict_cuts_lenient_stumbling :
    stumbling.shell.shell.Willing
    ∧ ∃ earlier later,
      stumbling.lenient.history "${A}".toList
        = earlier ++ .notice (.commandFailed { line := "boom".toList, exitCode := 3 }) :: later
      ∧ stumbling.strict.Answers "${A}".toList stumbled (Event.notices earlier)
          (Event.calls earlier) := by
  have hshell : stumbling.shell.shell.Willing := Script.willing_shell _
  have hresult : ∀ r ns cs, stumbling.strict.Answers "${A}".toList r ns cs → r = stumbled := by
    intro r ns cs h
    have hrun : (stumbling.strict.interpolate { text := .text "${A}".toList }).1.toOption
        = some stumbled := by decide +kernel
    rw [h.result_eq] at hrun
    exact Option.some.inj hrun
  refine ⟨hshell, ?_⟩
  obtain ⟨f, hf, -, -, -, ⟨-, h⟩ | ⟨earlier, e, later, r, hsplit, -, h, -, he, -⟩⟩ :=
    strict_cuts_lenient stumbling hshell "${A}".toList
  · -- the lenient run has no failure, and the strict one has
    obtain rfl := hresult _ _ _ h
    exact nomatch hf
  · obtain rfl := hresult _ _ _ h
    obtain rfl := Option.some.inj he
    exact ⟨earlier, later, hsplit, h⟩

end Session
end EnvValues
