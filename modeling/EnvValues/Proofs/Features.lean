import EnvValues.Proofs.Mirror
import EnvValues.Shell.Scripted

/-!
# Features that are off

A feature is looked at where a value is read, and nowhere else: whoever expands nodes relies
on there being none of a kind that is off. So what is off has to be kept off in every pass,
in text that values and commands brought in, in fallbacks and in command lines.

It is. With commands off, **no call is made, and it does not matter what the shell is**. With
references off, **no value of a variable gets into a run**: two runs with different variables
and environments give the same and run the same command lines, as long as the shell looks at
nothing else (`interpolate_of_features_off`).
-/

namespace EnvValues

/-- Two traces that are the same but for the environments of their calls. -/
structure Trace.SameLines (s s' : Trace) : Prop where
  written : s'.written = s.written
  notices : s'.notices = s.notices
  lines : s'.calls.map Call.line = s.calls.map Call.line

namespace Context
variable {ctx : Context} {s : Trace}

/-! ## Commands -/

theorem steady_eq (cs : Array Call) : Steady fun s s' => s' = s ∧ s.calls = cs where
  written h := h.1 ▸ rfl
  count _ h := ⟨h.1 ▸ rfl, h.2⟩
  notice _ h := ⟨h.1 ▸ rfl, h.2⟩

/-- Without commands, the shell is not there. -/
theorem mirrored_shell (hoff : ctx.config.features.commands = false) (sh : Shell)
    (cs : Array Call) :
    Mirrored (fun s s' => s' = s ∧ s.calls = cs) ctx { ctx with shell := sh } where
  steady := steady_eq cs
  config := rfl
  lookup _ _ := rfl
  quote _ hon := absurd (hoff.symm.trans hon) Bool.false_ne_true
  call hon := absurd (hoff.symm.trans hon) Bool.false_ne_true

/-- **Without commands, a run is the same with any shell**, and makes no call. -/
theorem interpolate_shell (hoff : ctx.config.features.commands = false) (t : Text) (s : Trace)
    (sh : Shell) :
    { ctx with shell := sh }.interpolate t s = ctx.interpolate t s
      ∧ (ctx.interpolate t s).2.calls = s.calls := by
  obtain ⟨hresult, htrace, hcalls⟩ := (mirrored_shell hoff sh s.calls).interpolate t ⟨rfl, rfl⟩
  exact ⟨Prod.ext hresult htrace, hcalls⟩

/-- Without commands there is always a result: a shell that refuses is never asked. -/
theorem exists_result_of_commands_off (hoff : ctx.config.features.commands = false) (t : Text)
    (s : Trace) : ∃ r, (ctx.interpolate t s).1 = .ok r := by
  -- some shell refuses nothing, and the run is the same with it
  let sh : Shell := Script.shell {}
  obtain ⟨hsame, -⟩ := interpolate_shell hoff t s sh
  obtain ⟨r, hr, -⟩ := @exists_result { ctx with shell := sh } (Script.willing_shell _) t s
  exact ⟨r, by rw [← hsame, hr]⟩

/-! ## References -/

theorem steady_sameLines : Steady Trace.SameLines where
  written h := h.written
  count _ h := ⟨rfl, h.notices, h.lines⟩
  notice n h := ⟨h.written, by rw [h.notices], h.lines⟩

/-- A shell that looks at command lines alone answers the same in any environment. -/
theorem mirrors_call (hshell : ctx.shell.FollowsLines) (bindings : Variables)
    (environment : Environment) (line : Text) :
    Mirrors Trace.SameLines (ctx.call line)
      ({ ctx with bindings := bindings, environment := environment }.call line) := by
  intro s s' hT
  have hanswer : ∀ e e' : Environment,
      ctx.shell.answer s'.calls ⟨line, e'⟩ = ctx.shell.answer s.calls ⟨line, e⟩ :=
    fun e e' => hshell _ _ _ _ hT.lines rfl
  have hpush : ∀ e e' : Environment, Trace.SameLines { s with calls := s.calls.push ⟨line, e⟩ }
      { s' with calls := s'.calls.push ⟨line, e'⟩ } := fun e e' =>
    ⟨hT.written, hT.notices, by rw [Array.map_push, Array.map_push, hT.lines]⟩
  rw [call, call, Expansion.after_ofTrace, Expansion.after_ofTrace]
  dsimp only
  rw [hanswer ctx.commandEnvironment]
  split
  · exact ⟨rfl, hpush _ _⟩
  · exact ⟨rfl, hpush _ _⟩

/-- Without references, variables and the environment are there for the commands only. -/
theorem mirrored_bindings (hoff : ctx.config.features.references = false)
    (hshell : ctx.shell.FollowsLines) (bindings : Variables) (environment : Environment) :
    Mirrored Trace.SameLines ctx
      { ctx with bindings := bindings, environment := environment } where
  steady := steady_sameLines
  config := rfl
  lookup hon := absurd (hoff.symm.trans hon) Bool.false_ne_true
  quote _ _ _ := rfl
  call _ := mirrors_call hshell bindings environment

/-! ## Both -/

/-- **Features that are off are off in all of a run**, also in what it reads again.
With commands off, a run gives a result without a call, and with any other shell it is the
same run. With references off, and a shell that looks at command lines alone, a run with
other variables and another environment gives the same result, raises the same notices and
runs the same command lines. -/
theorem interpolate_of_features_off (ctx : Context) (t : Text) (s : Trace) :
    (ctx.config.features.commands = false →
      (∃ r, (ctx.interpolate t s).1 = .ok r) ∧ (ctx.interpolate t s).2.calls = s.calls
      ∧ ∀ sh : Shell, { ctx with shell := sh }.interpolate t s = ctx.interpolate t s)
    ∧ (ctx.config.features.references = false → ctx.shell.FollowsLines →
      ∀ (bindings : Variables) (environment : Environment),
        let run := { ctx with bindings := bindings, environment := environment }.interpolate t s
        run.1 = (ctx.interpolate t s).1
        ∧ run.2.notices = (ctx.interpolate t s).2.notices
        ∧ run.2.calls.map Call.line = (ctx.interpolate t s).2.calls.map Call.line) := by
  refine ⟨fun hoff => ?_, fun hoff hshell bindings environment => ?_⟩
  · exact ⟨exists_result_of_commands_off hoff t s, (interpolate_shell hoff t s ctx.shell).2,
      fun sh => (interpolate_shell hoff t s sh).1⟩
  · have hsame : Trace.SameLines s s := ⟨rfl, rfl, rfl⟩
    obtain ⟨hresult, hT⟩ :=
      (mirrored_bindings hoff hshell bindings environment).interpolate t hsame
    exact ⟨hresult, hT.notices, hT.lines⟩

/-- Commands are off, and the variable `A` holds one. -/
def sealed : Context where
  bindings := Assignment.ofList [("A".toList, { value := "$(rm x)".toList })]
  environment := ∅
  config := { features := { commands := false } }
  shell := Script.shell { echo := true }

/-- References are off, and every command writes out its command line. -/
def blind : Context where
  bindings := Assignment.ofList [("A".toList, { value := "1".toList })]
  environment := ∅
  config := { features := { references := false } }
  shell := Script.shell { echo := true }

/-- The command that `A` holds is not run, in a fallback either; and `${A}` is not resolved in
a command line, and not where the command writes it out. -/
theorem interpolate_sealed_and_blind :
    sealed.config.features.commands = false
    ∧ (sealed.interpolate "${B:-${A}}".toList {}).2.calls = #[]
    ∧ (∀ sh : Shell, { sealed with shell := sh }.interpolate "${B:-${A}}".toList {}
        = sealed.interpolate "${B:-${A}}".toList {})
    ∧ (sealed.interpolate "${B:-${A}}".toList {}).1.toOption
      = some { value := "$(rm x)".toList, iterations := 1 }
    ∧ blind.config.features.references = false ∧ blind.shell.FollowsLines
    ∧ ∀ (bindings : Variables) (environment : Environment),
      ({ blind with bindings := bindings, environment := environment }.interpolate
        "$(say ${A})".toList {}).1.toOption
      = some { value := "say ${A}".toList, iterations := 1 } := by
  have hshell : blind.shell.FollowsLines := Script.followsLines_shell _
  obtain ⟨-, hcalls, hsame⟩ := (interpolate_of_features_off sealed "${B:-${A}}".toList {}).1 rfl
  refine ⟨rfl, hcalls, hsame, by decide +kernel, rfl, hshell, fun bindings environment => ?_⟩
  obtain ⟨hresult, -⟩ := (interpolate_of_features_off blind "$(say ${A})".toList {}).2 rfl hshell
    bindings environment
  have hblind : (blind.interpolate "$(say ${A})".toList {}).1.toOption
      = some { value := "say ${A}".toList, iterations := 1 } := by decide +kernel
  exact (congrArg Except.toOption hresult).trans hblind

end Context
end EnvValues
