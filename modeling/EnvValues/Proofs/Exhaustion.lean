import EnvValues.Proofs.Mirror

/-!
# What a spent budget says

A run is exhausted where its budget is spent and there is something left to resolve. That does not
look at whether the last pass changed anything yet to change: a text that every pass gives back is
told only by one pass more. So **an exhausted run may stand at a fixed point**
(`exhausted_at_fixed_point`), namely the one that its last pass reached.

A larger budget goes on where the smaller one was spent (`passes_add_of_exhausted`), and without
commands a pass gives a text or produces more than it may (`error_of_passOver`). So one pass more
either changes the text that is left, or produces too much, or ends the run there, whatever the
larger budget is. **Where a larger budget does not end it there, no fixed point was reached**
(`changes_of_exhausted`).
-/

namespace EnvValues
namespace Context

/-! ## Passes without commands -/

/-- A step halts only because it produces too much. -/
def HaltsForOutput {α : Type} (x : Expansion α) : Prop :=
  HaltsOnly (fun h => ∃ limit, h = .outputTooLong limit) x

section
variable {ctx : Context}

theorem haltsForOutput_emit (ctx : Context) (t : Text) : HaltsForOutput (ctx.emit t) := by
  intro s h s' he
  rw [emit, Expansion.after_ofTrace] at he
  dsimp only at he
  split at he
  · cases he
    exact ⟨_, rfl⟩
  · cases he

theorem haltsForOutput_warn (ctx : Context) (name : Text) : HaltsForOutput (ctx.warn name) := by
  intro s h s' he
  unfold warn at he
  split at he <;> cases he

/-- **Without commands, what is read halts only because it produces too much.** -/
theorem enabledSteps_haltsForOutput (hoff : ctx.config.features.commands = false) :
    EnabledSteps (fun x _ => HaltsForOutput x) ctx ctx where
  honours _ := rfl
  lookup _ _ := rfl
  placed _ _ _ _ := rfl
  pure _ _ _ _ he := nomatch he
  bind := HaltsOnly.bind
  emit := haltsForOutput_emit ctx
  warn := haltsForOutput_warn ctx
  line hon := absurd (hoff.symm.trans hon) Bool.false_ne_true

/-- Without commands, a pass that halts produces more than it may. -/
theorem error_of_passOver (hoff : ctx.config.features.commands = false) {v : Text} {s s' : Trace}
    {h : Halt} (hpass : ctx.passOver v s = (.error h, s')) :
    h = .outputTooLong ctx.config.limits.outputLength := by
  have hreason : ctx.HaltsFor h := haltsFor_of_expandAll hpass
  obtain ⟨limit, rfl⟩ := (enabledSteps_haltsForOutput hoff).expandAll_nodes v _ _ _ hpass
  exact congrArg _ hreason

end

/-! ## Larger budgets -/

section
variable {ctx : Context}

/-- **A larger budget goes on where a smaller one was spent**, with something left to resolve. -/
theorem passes_add_of_exhausted (budget : Nat) (v : Text) (s : Trace) :
    ∀ done, (ctx.passes budget v done s).ending = .exhausted →
      ∃ w s', ctx.passes budget v done s = ⟨.exhausted, w, done + budget, s'⟩ ∧ ctx.Pending w
        ∧ ∀ more, ctx.passes (budget + more) v done s = ctx.passes more w (done + budget) s' := by
  induction budget, v, s using ctx.passes_induction with
  | settled budget v s hp =>
      intro done hspent
      rw [passes_of_not_pending hp] at hspent
      cases hspent
  | exhausted v s hp =>
      intro done _
      exact ⟨v, s, passes_zero_of_pending hp, hp, fun more => by rw [Nat.zero_add, Nat.add_zero]⟩
  | halted budget v s h s' hp hpass =>
      intro done hspent
      rw [passes_of_error hp hpass] at hspent
      cases hspent
  | unchanged budget v s s' hp hpass =>
      intro done hspent
      rw [passes_of_unchanged hp hpass] at hspent
      cases hspent
  | changed budget v s u s' hp hpass hu ih =>
      intro done hspent
      rw [passes_of_changed hp hpass hu] at hspent
      obtain ⟨w, s'', hrun, hw, hmore⟩ := ih (done + 1) hspent
      have hcount : done + 1 + budget = done + (budget + 1) := by omega
      rw [hcount] at hrun hmore
      refine ⟨w, s'', by rw [passes_of_changed hp hpass hu, hrun], hw, fun more => ?_⟩
      rw [Nat.add_right_comm, passes_of_changed hp hpass hu, hmore]

/-- The context with another budget. -/
def withIterations (ctx : Context) (n : Int) : Context := { ctx with config.maxIterations := n }

/-- The budget is not looked at in a pass. -/
theorem steps_withIterations (ctx : Context) (n : Int) :
    Steps ctx (ctx.withIterations n) fun x _ y => y = x where
  lookup _ := rfl
  honours _ := rfl
  placed _ _ := rfl
  pure _ := rfl
  bind hx hf := by rw [hx, funext hf]
  emit _ := rfl
  warn _ := rfl
  line _ := rfl

theorem passOver_withIterations (ctx : Context) (n : Int) (v : Text) (s : Trace) :
    (ctx.withIterations n).passOver v s = ctx.passOver v s := by
  have hsame := (ctx.steps_withIterations n).expandAll .value (ctx.nodes v)
  exact congrArg (fun x => Expansion.after x { s with written := 0 }) hsame

theorem passes_withIterations (ctx : Context) (n : Int) (budget : Nat) (v : Text) (s : Trace)
    (done : Nat) : (ctx.withIterations n).passes budget v done s = ctx.passes budget v done s :=
  @passes_congr ctx (ctx.withIterations n) (fun _ => Iff.rfl) (ctx.passOver_withIterations n)
    budget v s done

/-! ## Runs that are exhausted -/

/-- **A run that is exhausted is what its passes leave**, and so is a run with any other budget. -/
theorem interpolate_withIterations {t : Text} {s s' : Trace} {r : Result}
    (hrun : ctx.interpolate t s = (.ok r, s')) (hspent : r.exhausted = true) (n : Int) :
    (ctx.withIterations n).interpolate t s
      = ctx.conclude (ctx.passes n.toNat (OuterQuotes.split t).2 0 s) := by
  rw [interpolate_eq] at hrun ⊢
  split at hrun
  · -- a text between single quotes is not expanded in passes
    cases hrun
    cases hspent
  · next hsingle =>
      rw [if_neg hsingle]
      unfold interpolateInner at hrun ⊢
      split at hrun
      · cases hrun
        cases hspent
      · next hshort =>
          rw [passes_withIterations]
          exact if_neg hshort

/-- What a result tells of a budget that is spent. -/
theorem conclude_of_exhausted {p : Passes} {s' : Trace} {r : Result}
    (h : ctx.conclude p = (.ok r, s')) (hspent : r.exhausted = true) :
    p.ending = .exhausted
      ∧ r = ⟨Escape.decodeIf ctx.config.features.escapes p.value, none, p.iterations, true⟩ := by
  obtain ⟨ending, v, count, s⟩ := p
  cases ending with
  | settled => cases h; cases hspent
  | exhausted => cases h; exact ⟨rfl, rfl⟩
  | halted halt =>
      cases halt with
      | commandFailed e => cases h; cases hspent
      | outputTooLong limit => cases h; cases hspent
      | refused why => cases h

/-- **A run that is exhausted, and not settled at once by a larger budget, has not reached a fixed
point.** Without commands, let `v` be the text that the passes of an exhausted run leave. If some
larger budget gives another result than the same value after one pass more, then one pass over `v`
changes it or produces more than it may. -/
theorem changes_of_exhausted (hoff : ctx.config.features.commands = false)
    (hbudget : 1 ≤ ctx.config.maxIterations) {t : Text} {s s' : Trace} {r : Result}
    (hrun : ctx.interpolate t s = (.ok r, s')) (hspent : r.exhausted = true) {more : Nat}
    (hmore : 0 < more)
    (hlater : ((ctx.withIterations (ctx.config.maxIterations + more)).interpolate t s).1
      ≠ .ok { r with iterations := r.iterations + 1, exhausted := false }) :
    ∃ v s₁, ctx.passes ctx.config.budget (OuterQuotes.split t).2 0 s
        = ⟨.exhausted, v, ctx.config.budget, s₁⟩
      ∧ r.value = Escape.decodeIf ctx.config.features.escapes v
      ∧ ((∃ u s₂, ctx.passOver v s₁ = (.ok u, s₂) ∧ u ≠ v)
        ∨ ∃ s₂, ctx.passOver v s₁
          = (.error (.outputTooLong ctx.config.limits.outputLength), s₂)) := by
  have hall := interpolate_withIterations hrun hspent
  have hself : ctx.interpolate t s
      = ctx.conclude (ctx.passes ctx.config.budget (OuterQuotes.split t).2 0 s) :=
    hall ctx.config.maxIterations
  obtain ⟨hending, hr⟩ := conclude_of_exhausted (hself.symm.trans hrun) hspent
  obtain ⟨v, s₁, hpasses, hpending, hgoes⟩ :=
    passes_add_of_exhausted ctx.config.budget (OuterQuotes.split t).2 s 0 hending
  rw [Nat.zero_add] at hpasses hgoes
  rw [hpasses] at hr
  refine ⟨v, s₁, hpasses, congrArg Result.value hr, ?_⟩
  cases hpass : ctx.passOver v s₁ with
  | mk x s₂ =>
      cases x with
      | error h => exact Or.inr ⟨s₂, by rw [error_of_passOver hoff hpass]⟩
      | ok u =>
          by_cases hu : u = v
          · -- the text is a fixed point, and a larger budget finds out
            subst hu
            obtain ⟨more, rfl⟩ : ∃ m, more = m + 1 := ⟨more - 1, by omega⟩
            have hlarger : (ctx.config.maxIterations + ((more + 1 : Nat) : Int)).toNat
                = ctx.config.budget + (more + 1) := by
              rw [Config.budget]
              omega
            rw [hall, hlarger, hgoes, passes_of_unchanged hpending hpass, hr] at hlater
            exact absurd rfl hlater
          · exact Or.inl ⟨u, s₂, rfl, hu⟩

end

/-! ## Values that go around -/

/-- Commands are off, and one pass is made. The variable `A` is `${B}`, `B` is itself, and `C` is
`${D}`, which is `${C}`. -/
def circling : Context where
  bindings := Assignment.ofList
    [(['A'], { value := "${B}".toList }), (['B'], { value := "${B}".toList }),
      (['C'], { value := "${D}".toList }), (['D'], { value := "${C}".toList })]
  environment := ∅
  config := { maxIterations := 1, features := { commands := false } }
  shell := ⟨fun t => t, fun _ _ => .ok {}⟩

/-- The run of `${C}` is exhausted at `${D}`, and so it is with two passes, at `${C}`: no fixed
point was reached. -/
theorem changes_of_exhausted_circling :
    ∃ v s₁, circling.passes 1 "${C}".toList 0 {} = ⟨.exhausted, v, 1, s₁⟩
      ∧ ((∃ u s₂, circling.passOver v s₁ = (.ok u, s₂) ∧ u ≠ v)
        ∨ ∃ s₂, circling.passOver v s₁ = (.error (.outputTooLong 10000000), s₂)) := by
  have hresult : (circling.interpolate "${C}".toList {}).1.toOption
      = some { value := "${D}".toList, iterations := 1, exhausted := true } := by decide +kernel
  have hlater : ((circling.withIterations (1 + (1 : Nat))).interpolate "${C}".toList {}).1
      ≠ .ok { value := "${D}".toList, iterations := 2 } := by
    intro heq
    have hlarger : ((circling.withIterations (1 + (1 : Nat))).interpolate "${C}".toList
        {}).1.toOption = some { value := "${C}".toList, iterations := 2, exhausted := true } := by
      decide +kernel
    rw [heq] at hlarger
    cases hlarger
  have hsplit : (OuterQuotes.split "${C}".toList).2 = "${C}".toList := by decide
  cases hrun : circling.interpolate "${C}".toList {} with
  | mk x s' =>
      rw [hrun] at hresult
      cases x with
      | error why => cases hresult
      | ok r =>
          obtain rfl := Option.some.inj hresult
          obtain ⟨v, s₁, hpasses, -, hnext⟩ :=
            changes_of_exhausted rfl (by decide) hrun rfl Nat.one_pos hlater
          rw [hsplit] at hpasses
          exact ⟨v, s₁, hpasses, hnext⟩

/-- **A run may be exhausted at a fixed point.** The only pass over `${A}` gives `${B}`, which every
further pass gives back, and still the run is exhausted. -/
theorem exhausted_at_fixed_point :
    circling.config.features.commands = false ∧ 1 ≤ circling.config.maxIterations
    ∧ (circling.interpolate "${A}".toList {}).1.toOption
      = some { value := "${B}".toList, iterations := 1, exhausted := true }
    ∧ (circling.passes 1 "${A}".toList 0 {}).value = "${B}".toList
    ∧ (circling.passOver "${B}".toList (circling.passes 1 "${A}".toList 0 {}).trace).1.toOption
      = some "${B}".toList := by
  refine ⟨?_, ?_, ?_, ?_, ?_⟩ <;> decide +kernel

end Context
end EnvValues
