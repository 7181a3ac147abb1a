import EnvValues.Proofs.History

/-!
# Limits that are not reached

A run has three limits: on how many passes are made, on what a pass produces and on what is
expanded at all. None of them is looked at for any other purpose, so **a run that keeps to its
limits is the same under larger ones** (`interpolate_withLimits`), down to the last notice
and call.

With more room, a step does the same or did not halt for another reason than the room
(`steps_contained`), and the passes that are left are the same as long as none of them halts
for it (`passes_contained`). A budget that is spent exactly when nothing is left to resolve is
no exception: the larger one is not touched there.
-/

namespace EnvValues

/-- Is a notice about a limit on the length of a text? -/
def Notice.isLimit : Notice → Bool
  | inputTooLong _ _ => true
  | outputTooLong _ => true
  | _ => false

namespace Context

/-- The context with other limits on the passes, on what a pass produces and on what is
expanded. -/
def withLimits (ctx : Context) (iterations output input : Int) : Context :=
  { ctx with
    config.maxIterations := iterations
    config.limits.outputLength := output
    config.limits.inputLength := input }

/-! ## Steps -/

/-- The second step does the same, unless the first one produces more than it may. -/
def Contained {α : Type} (x y : Expansion α) : Prop :=
  ∀ s, (∃ limit s', x.after s = (.error (.outputTooLong limit), s')) ∨ y.after s = x.after s

theorem Contained.refl {α : Type} (x : Expansion α) : Contained x x := fun _ => Or.inr rfl

theorem Contained.bind {α β : Type} {x y : Expansion α} {f g : α → Expansion β}
    (hx : Contained x y) (hf : ∀ a, Contained (f a) (g a)) : Contained (x >>= f) (y >>= g) := by
  intro s
  obtain ⟨limit, s', hlong⟩ | hsame := hx s
  · exact Or.inl ⟨limit, s', Expansion.after_bind_of_error hlong⟩
  · cases hr : x.after s with
    | mk r s₁ =>
        rw [hr] at hsame
        cases r with
        | error h =>
            rw [Expansion.after_bind_of_error hr, Expansion.after_bind_of_error hsame]
            exact Or.inr rfl
        | ok a =>
            rw [Expansion.after_bind_of_ok hr, Expansion.after_bind_of_ok hsame]
            exact hf a s₁

section
variable {ctx : Context} {n m L L' I I' : Int}

/-- What keeps to a limit keeps to a larger one. -/
theorem contained_emit (hL : L ≤ L') (t : Text) :
    Contained ((ctx.withLimits n L I).emit t) ((ctx.withLimits m L' I').emit t) := by
  intro s
  rw [emit, emit, Expansion.after_ofTrace, Expansion.after_ofTrace]
  dsimp only
  by_cases hlong : L < ((s.written + t.length : Nat) : Int)
  · exact Or.inl ⟨L, _, if_pos (decide_eq_true hlong)⟩
  · have hshort : ¬ L' < ((s.written + t.length : Nat) : Int) := by omega
    exact Or.inr ((if_neg (ne_true_of_eq_false (decide_eq_false hshort))).trans
      (if_neg (ne_true_of_eq_false (decide_eq_false hlong))).symm)

/-- **With larger limits, every step is contained.** -/
theorem steps_contained (hL : L ≤ L') :
    Steps (ctx.withLimits n L I) (ctx.withLimits m L' I') fun x _ y => Contained x y where
  lookup _ := rfl
  honours _ := rfl
  placed _ _ := rfl
  pure _ := .refl _
  bind := Contained.bind
  emit := contained_emit hL
  warn _ := .refl _
  line := @Steps.runLine (ctx.withLimits n L I) (ctx.withLimits m L' I')
    (fun x _ y => Contained x y) Contained.bind (contained_emit hL) (fun _ => .refl _)
    (fun _ => .refl _)

/-! ## Passes -/

/-- A pass is the same, unless it produces more than it may. -/
theorem passOver_contained (hL : L ≤ L') (m I' : Int) (v : Text) (s : Trace) :
    (∃ limit s', (ctx.withLimits n L I).passOver v s = (.error (.outputTooLong limit), s'))
    ∨ (ctx.withLimits m L' I').passOver v s = (ctx.withLimits n L I).passOver v s :=
  (steps_contained hL).expandAll .value (ctx.nodes v) { s with written := 0 }

/-- **Passes that end within their limits are the same under larger ones**, with a larger
budget as well. -/
theorem passes_contained (hL : L ≤ L') (m I' : Int) (extra budget : Nat) (v : Text) (s : Trace) :
    ∀ done, ((ctx.withLimits n L I).passes budget v done s).ending ≠ .exhausted →
      (∀ limit, ((ctx.withLimits n L I).passes budget v done s).ending
        ≠ .halted (.outputTooLong limit)) →
      (ctx.withLimits m L' I').passes (budget + extra) v done s
        = (ctx.withLimits n L I).passes budget v done s := by
  -- both read the same nodes, so the same texts have something left to resolve
  have hpending : ∀ v, (ctx.withLimits m L' I').Pending v ↔ (ctx.withLimits n L I).Pending v :=
    fun _ => Iff.rfl
  induction budget, v, s using (ctx.withLimits n L I).passes_induction with
  | settled budget v s hp =>
      intro done _ _
      rw [passes_of_not_pending hp, passes_of_not_pending ((hpending v).not.2 hp)]
  | exhausted v s hp =>
      intro done hspent _
      rw [passes_zero_of_pending hp] at hspent
      exact absurd rfl hspent
  | halted budget v s h s' hp hpass =>
      intro done _ hlong
      rw [passes_of_error hp hpass] at hlong ⊢
      rw [Nat.add_right_comm]
      obtain ⟨limit, s'', hover⟩ | hsame := passOver_contained hL m I' v s
      · rw [hpass] at hover
        obtain rfl := Except.error.inj (Prod.mk.inj hover).1
        exact absurd rfl (hlong limit)
      · exact passes_of_error ((hpending v).2 hp) (hsame.trans hpass)
  | unchanged budget v s s' hp hpass =>
      intro done _ _
      rw [passes_of_unchanged hp hpass, Nat.add_right_comm]
      obtain ⟨limit, s'', hover⟩ | hsame := passOver_contained hL m I' v s
      · rw [hpass] at hover
        cases hover
      · exact passes_of_unchanged ((hpending v).2 hp) (hsame.trans hpass)
  | changed budget v s u s' hp hpass hu ih =>
      intro done hspent hlong
      rw [passes_of_changed hp hpass hu] at hspent hlong ⊢
      rw [Nat.add_right_comm]
      obtain ⟨limit, s'', hover⟩ | hsame := passOver_contained hL m I' v s
      · rw [hpass] at hover
        cases hover
      · rw [passes_of_changed ((hpending v).2 hp) (hsame.trans hpass) hu]
        exact ih (done + 1) hspent hlong

end

/-! ## Runs -/

/-- No limit stopped a run: its budget was enough, and it raised no notice about a limit on
the length of a text. -/
structure Unlimited (ctx : Context) (t : Text) (s : Trace) : Prop where
  spent : ∀ r, (ctx.interpolate t s).1 = .ok r → r.exhausted = false
  notices : ∀ n ∈ Event.notices (ctx.history t s), n.isLimit = false

section
variable {ctx : Context} {t inner : Text} {s : Trace}

/-- A result tells of a budget that is spent. -/
theorem not_exhausted_of_conclude {p : Passes}
    (h : ∀ r, (ctx.conclude p).1 = .ok r → r.exhausted = false) : p.ending ≠ .exhausted := by
  obtain ⟨ending, v, count, s⟩ := p
  rintro rfl
  exact Bool.noConfusion (h _ rfl)

/-- A notice tells of a pass that produced too much. -/
theorem not_outputTooLong_of_endNotices {ending : Ending}
    (h : ∀ n ∈ ctx.endNotices ending, n.isLimit = false) (limit : Int) :
    ending ≠ .halted (.outputTooLong limit) := by
  rintro rfl
  exact Bool.noConfusion (h (.outputTooLong limit) List.mem_cons_self)

/-- **A value that no limit stops is expanded in passes**, which neither spend their budget nor
produce too much. -/
theorem within_of_inner
    (hspent : ∀ r, (ctx.interpolateInner inner s).1 = .ok r → r.exhausted = false)
    (hnotices : ∀ x ∈ Event.notices (ctx.innerHistory inner s), x.isLimit = false) :
    (inner.length : Int) ≤ ctx.config.limits.inputLength
      ∧ (ctx.passes ctx.config.budget inner 0 s).ending ≠ .exhausted
      ∧ ∀ limit, (ctx.passes ctx.config.budget inner 0 s).ending
        ≠ .halted (.outputTooLong limit) := by
  unfold innerHistory at hnotices
  split at hnotices
  · -- the value would have been too long, and a notice would say so
    have := hnotices (.inputTooLong inner.length ctx.config.limits.inputLength) (by simp)
    exact Bool.noConfusion this
  · next hshort =>
      have hinput : (inner.length : Int) ≤ ctx.config.limits.inputLength :=
        Int.not_lt.1 (of_decide_eq_false (eq_false_of_ne_true hshort))
      rw [interpolateInner_of_le hinput] at hspent
      rw [Event.notices_append, Event.notices_map] at hnotices
      exact ⟨hinput, not_exhausted_of_conclude hspent,
        not_outputTooLong_of_endNotices fun x hx => hnotices x (List.mem_append_right _ hx)⟩

theorem interpolateInner_withLimits {n m L L' I I' : Int} (hn : n ≤ m) (hL : L ≤ L')
    (hI : I ≤ I')
    (hspent : ∀ r, ((ctx.withLimits n L I).interpolateInner inner s).1 = .ok r →
      r.exhausted = false)
    (hnotices : ∀ x ∈ Event.notices ((ctx.withLimits n L I).innerHistory inner s),
      x.isLimit = false) :
    (ctx.withLimits m L' I').interpolateInner inner s
      = (ctx.withLimits n L I).interpolateInner inner s := by
  obtain ⟨hinput, hleft, hshort⟩ := within_of_inner hspent hnotices
  have hbudget : (ctx.withLimits m L' I').config.budget
      = (ctx.withLimits n L I).config.budget + (m.toNat - n.toNat) := by
    simp only [Config.budget, withLimits]
    omega
  have hsame := passes_contained hL m I' (m.toNat - n.toNat)
    (ctx.withLimits n L I).config.budget inner s 0 hleft hshort
  rw [interpolateInner_of_le hinput,
    @interpolateInner_of_le (ctx.withLimits m L' I') inner (Int.le_trans hinput hI), hbudget, hsame]
  rfl

end

/-- **Limits that are not reached do not matter.** Of two contexts that differ in limits alone,
with the smaller ones the run neither spends its budget nor is stopped by a limit on a length:
then the run with the larger ones is the same, in its result, its notices and its calls. -/
theorem interpolate_withLimits (ctx : Context) {n m L L' I I' : Int} (hn : n ≤ m) (hL : L ≤ L')
    (hI : I ≤ I') (t : Text) (s : Trace) (h : (ctx.withLimits n L I).Unlimited t s) :
    (ctx.withLimits m L' I').interpolate t s = (ctx.withLimits n L I).interpolate t s := by
  obtain ⟨hspent, hnotices⟩ := h
  rw [interpolate_eq] at hspent
  rw [history] at hnotices
  rw [interpolate_eq, interpolate_eq]
  split
  · rfl
  · next hsingle =>
      rw [if_neg hsingle] at hspent hnotices
      exact interpolateInner_withLimits hn hL hI hspent hnotices

/-- The variable `A` holds a command that fails, and failures do not count. -/
def faltering : Context where
  bindings := Assignment.ofList [("A".toList, { value := "$(boom)x".toList })]
  environment := ∅
  config := {}
  shell := Script.shell { unknown := some { exitCode := 3 } }

/-- Two passes are enough for `${A}`, and eight characters for what they produce: the failure
is noticed and the call is made under larger limits as well, and no more often. -/
theorem interpolate_withLimits_faltering :
    (2 : Int) ≤ 9 ∧ (8 : Int) ≤ 80 ∧ (4 : Int) ≤ 40
    ∧ (faltering.withLimits 2 8 4).Unlimited "${A}".toList {}
    ∧ (faltering.withLimits 9 80 40).interpolate "${A}".toList {}
      = (faltering.withLimits 2 8 4).interpolate "${A}".toList {}
    ∧ ((faltering.withLimits 9 80 40).interpolate "${A}".toList {}).1.toOption
      = some { value := "x".toList, iterations := 2 } := by
  have hresult : ((faltering.withLimits 2 8 4).interpolate "${A}".toList {}).1.toOption
      = some { value := "x".toList, iterations := 2 } := by decide +kernel
  have hunlimited : (faltering.withLimits 2 8 4).Unlimited "${A}".toList {} := by
    refine ⟨fun r hr => ?_, by decide +kernel⟩
    rw [hr] at hresult
    obtain rfl := Option.some.inj hresult
    rfl
  have hsame : (faltering.withLimits 9 80 40).interpolate "${A}".toList {}
      = (faltering.withLimits 2 8 4).interpolate "${A}".toList {} :=
    interpolate_withLimits faltering (by decide) (by decide) (by decide) _ {} hunlimited
  refine ⟨by decide, by decide, by decide, hunlimited, hsame, ?_⟩
  rw [hsame]
  exact hresult

end Context
end EnvValues
