import EnvValues.Proofs.Budget
import EnvValues.Proofs.Exhaustion

/-!
# Values that stay what they are

Without commands, what a pass gives depends on the text alone: neither the notices before it nor
what other passes produced get into it (`passOver_of_commands_off`). So a text is either changed by
every pass over it, or by none.

Passes that settle leave a text of the second kind, in whichever way they came to their end: with
nothing left to resolve, also where the last pass that was allowed brought this about, or with a
pass that gave back what it began with (`settles`). One pass is enough to find this out again
(`Stable.passes`). So **the value of a run that settled is its own value**
(`interpolate_of_settled`).
-/

namespace EnvValues
namespace Context

/-- No pass would change the text: nothing is left to resolve in it, or a pass gives it back. -/
def Stable (ctx : Context) (v : Text) : Prop :=
  ctx.Pending v → ∀ s, ∃ s', ctx.passOver v s = (.ok v, s')

section
variable {ctx : Context} {v : Text}

/-! ## Passes without commands -/

/-- Without commands, only what a pass has produced so far gets into it. -/
theorem mirrored_written (hoff : ctx.config.features.commands = false) :
    Mirrored (fun s s' => s'.written = s.written) ctx ctx where
  steady := ⟨fun h => h, fun _ _ => rfl, fun _ h => h⟩
  config := rfl
  lookup _ _ := rfl
  quote _ _ _ := rfl
  call hon := absurd (hoff.symm.trans hon) Bool.false_ne_true

/-- **Without commands, a pass gives the same from any trace**: what was produced before it does not
count in it. -/
theorem passOver_of_commands_off (hoff : ctx.config.features.commands = false) (v : Text)
    (s s' : Trace) : (ctx.passOver v s').1 = (ctx.passOver v s).1 := by
  have hwritten : ({ s' with written := 0 } : Trace).written
      = ({ s with written := 0 } : Trace).written := rfl
  exact ((mirrored_written hoff).passOver v hwritten).1

/-- A text that one pass gives back is given back by all. -/
theorem stable_of_passOver (hoff : ctx.config.features.commands = false) {s s' : Trace}
    (hpass : ctx.passOver v s = (.ok v, s')) : ctx.Stable v := by
  intro _ s₂
  have hsame : (ctx.passOver v s₂).1 = .ok v := by
    rw [passOver_of_commands_off hoff v s s₂, hpass]
  exact ⟨(ctx.passOver v s₂).2, Prod.ext hsame rfl⟩

/-! ## Passes that settle -/

/-- **Without commands, passes settle on a stable text**, unless their budget is spent or one of
them produces too much. -/
theorem settles (hoff : ctx.config.features.commands = false) (budget : Nat) (v : Text)
    (s : Trace) :
    ∀ done, (ctx.passes budget v done s).ending ≠ .exhausted →
      (∀ limit, (ctx.passes budget v done s).ending ≠ .halted (.outputTooLong limit)) →
      ∃ w n s', ctx.passes budget v done s = ⟨.settled, w, n, s'⟩ ∧ ctx.Stable w := by
  induction budget, v, s using ctx.passes_induction with
  | settled budget v s hp =>
      intro done _ _
      exact ⟨v, done, s, passes_of_not_pending hp, fun hpending => absurd hpending hp⟩
  | exhausted v s hp =>
      intro done hspent _
      rw [passes_zero_of_pending hp] at hspent
      exact absurd rfl hspent
  | halted budget v s h s' hp hpass =>
      intro done _ hlong
      obtain rfl := error_of_passOver hoff hpass
      rw [passes_of_error hp hpass] at hlong
      exact absurd rfl (hlong _)
  | unchanged budget v s s' hp hpass =>
      intro done _ _
      exact ⟨v, done + 1, s', passes_of_unchanged hp hpass, stable_of_passOver hoff hpass⟩
  | changed budget v s u s' hp hpass hu ih =>
      intro done hspent hlong
      rw [passes_of_changed hp hpass hu] at hspent hlong ⊢
      exact ih (done + 1) hspent hlong

/-- **Passes over a stable text leave it as it is**, and only the first one is made, if any. -/
theorem Stable.passes (h : ctx.Stable v) (budget done : Nat) (s : Trace) :
    ∃ k s', k ≤ 1 ∧ (k = 1 ↔ ctx.Pending v)
      ∧ ctx.passes (budget + 1) v done s = ⟨.settled, v, done + k, s'⟩ := by
  by_cases hp : ctx.Pending v
  · obtain ⟨s', hpass⟩ := h hp s
    exact ⟨1, s', Nat.le_refl 1, iff_of_true rfl hp, passes_of_unchanged hp hpass⟩
  · exact ⟨0, s, Nat.zero_le 1, iff_of_false Nat.zero_ne_one hp, passes_of_not_pending hp⟩

end

/-! ## Runs -/

/-- **A settled value is stable.** Let commands and escapes be off and some pass be allowed, and let
a text that is not between single quotes be run without a limit that stops the run. Then there is a
value, and no failure; and where the value has no outer quotes and is not too long to be expanded
itself, a run of it, from any trace, gives it again. That run is not exhausted, and it makes one
pass if something is left to resolve in the value, and none otherwise. -/
theorem interpolate_of_settled {ctx : Context} (hcommands : ctx.config.features.commands = false)
    (hescapes : ctx.config.features.escapes = false) (hbudget : 1 ≤ ctx.config.maxIterations)
    {t : Text} (hquote : (OuterQuotes.split t).1 ≠ some .single) {s : Trace}
    (h : ctx.Unlimited t s) :
    ∃ v n s', ctx.interpolate t s = (.ok { value := v, iterations := n }, s')
      ∧ (OuterQuotes.split v = (none, v) → (v.length : Int) ≤ ctx.config.limits.inputLength →
        ∀ s₁, ∃ k s₁', k ≤ 1 ∧ (k = 1 ↔ ctx.Pending v)
          ∧ ctx.interpolate v s₁ = (.ok { value := v, iterations := k }, s₁')) := by
  obtain ⟨hspent, hnotices⟩ := h
  rw [interpolate_eq, if_neg hquote] at hspent ⊢
  rw [history, if_neg hquote] at hnotices
  obtain ⟨hinput, hleft, hshort⟩ := within_of_inner hspent hnotices
  obtain ⟨v, n, s', hpasses, hstable⟩ := settles hcommands _ _ s 0 hleft hshort
  -- nothing is decoded, so that the value is the text that the passes leave
  have hdecoded : ∀ u, Escape.decodeIf ctx.config.features.escapes u = u := fun u => by
    rw [hescapes, Escape.decodeIf_false]
  have hconclude : ∀ u k s, ctx.conclude ⟨.settled, u, k, s⟩
      = (.ok { value := u, iterations := k }, s) := fun u k s => by
    rw [conclude, hdecoded]
  refine ⟨v, n, s', by rw [interpolateInner_of_le hinput, hpasses, hconclude], ?_⟩
  intro hunquoted hlength s₁
  obtain ⟨budget, hsucc⟩ : ∃ b, ctx.config.budget = b + 1 :=
    ⟨ctx.config.budget - 1, by rw [Config.budget]; omega⟩
  obtain ⟨k, s₁', hk, hpending, hagain⟩ := hstable.passes budget 0 s₁
  refine ⟨k, s₁', hk, hpending, ?_⟩
  rw [interpolate_eq, hunquoted, if_neg (by simp), interpolateInner_of_le hlength, hsucc, hagain,
    Nat.zero_add, hconclude]

/-- Commands and escapes are off, and two passes are made. The variable `A` is `${B}` with a command
behind it, and `B` is itself. -/
def resting : Context where
  bindings := Assignment.ofList
    [(['A'], { value := "${B}$(x)".toList }), (['B'], { value := "${B}".toList })]
  environment := ∅
  config := { maxIterations := 2, features := { commands := false, escapes := false } }
  shell := ⟨fun t => t, fun _ _ => .ok {}⟩

/-- The run of `${A}` between double quotes needs both passes: the first one puts `${B}` in place,
and the second one changes nothing. The run of what it gives needs one, also behind the notices of
other runs. -/
theorem interpolate_of_settled_resting :
    resting.config.features.commands = false ∧ resting.config.features.escapes = false
    ∧ 1 ≤ resting.config.maxIterations
    ∧ (OuterQuotes.split "\"${A}\\t\"".toList).1 ≠ some .single
    ∧ resting.Unlimited "\"${A}\\t\"".toList {}
    ∧ (resting.interpolate "\"${A}\\t\"".toList {}).1.toOption
      = some { value := "${B}$(x)\\t".toList, iterations := 2 }
    ∧ ∃ s₁', resting.interpolate "${B}$(x)\\t".toList { notices := #[.maxIterations] }
      = (.ok { value := "${B}$(x)\\t".toList, iterations := 1 }, s₁') := by
  have hresult : (resting.interpolate "\"${A}\\t\"".toList {}).1.toOption
      = some { value := "${B}$(x)\\t".toList, iterations := 2 } := by decide +kernel
  have hunlimited : resting.Unlimited "\"${A}\\t\"".toList {} := by
    refine ⟨fun r hr => ?_, by decide +kernel⟩
    rw [hr] at hresult
    obtain rfl := Option.some.inj hresult
    rfl
  refine ⟨rfl, rfl, by decide, by decide, hunlimited, hresult, ?_⟩
  obtain ⟨v, n, s', hrun, hagain⟩ :=
    interpolate_of_settled rfl rfl (by decide) (by decide) hunlimited
  rw [hrun] at hresult
  obtain ⟨rfl, rfl⟩ : v = "${B}$(x)\\t".toList ∧ n = 2 := by
    simpa [Except.toOption] using hresult
  obtain ⟨k, s₁', -, hk, hsecond⟩ :=
    hagain (by decide) (by decide) { notices := #[.maxIterations] }
  obtain rfl : k = 1 := hk.2 (by rw [Pending]; decide +kernel)
  exact ⟨s₁', hsecond⟩

end Context
end EnvValues
