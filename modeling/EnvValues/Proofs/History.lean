import EnvValues.Proofs.Passes

/-!
# What happens in a run

The history of a run has the accounts of its passes one behind the other, and what only
the loop sees between them: which texts are read, and when a pass is completed.

* What a history tells is what the trace grows by (`extends_interpolate`), and the passes it
  tells are the ones that the result counts (`iterations_of_interpolate`). Both rest on one
  induction on the passes (`tells_passes`).
* Where the shell refuses nothing, a run gives a result (`exists_result`).
-/

namespace EnvValues
namespace Context

section
variable (ctx : Context)

/-- What happens in a pass over a text. -/
def passAccount (v : Text) : Account := fun s =>
  ctx.accountAll .value (ctx.nodes v) { s with written := 0 }

/-- What happens in up to so many passes more. -/
def passesHistory (ctx : Context) : Nat → Text → Account
  | 0, v => fun _ => [.read v]
  | budget + 1, v => fun s =>
    .read v :: if Node.hasExpansions (ctx.nodes v) then
        ctx.passAccount v s ++ match ctx.passOver v s with
          | (.error _, _) => []
          | (.ok u, s') => .passed :: if u = v then [] else passesHistory ctx budget u s'
      else []

/-- What happens where a value that is not between single quotes is expanded. -/
def innerHistory (inner : Text) : Account := fun s =>
  if ctx.config.limits.forbidsInput inner.length then
    [.notice (.inputTooLong inner.length ctx.config.limits.inputLength)]
  else
    ctx.passesHistory ctx.config.budget inner s ++
      (ctx.endNotices (ctx.passes ctx.config.budget inner 0 s).ending).map .notice

/-- What happens where a value is expanded. -/
def history (t : Text) : Account :=
  if (OuterQuotes.split t).1 = some .single then .nothing
  else ctx.innerHistory (OuterQuotes.split t).2

end

/-! ## One pass at a time -/

section
variable {ctx : Context} {budget done : Nat} {u v : Text} {s s' : Trace}

theorem passesHistory_of_not_pending (hp : ¬ ctx.Pending v) :
    ctx.passesHistory budget v s = [.read v] := by
  rw [Pending] at hp
  cases budget <;> simp only [passesHistory, if_neg hp]

theorem passesHistory_zero : ctx.passesHistory 0 v s = [.read v] := rfl

/-- A pass that is made comes first. -/
theorem exists_passesHistory_eq (hp : ctx.Pending v) :
    ∃ rest, ctx.passesHistory (budget + 1) v s = .read v :: (ctx.passAccount v s ++ rest) := by
  rw [Pending] at hp
  simp only [passesHistory, if_pos hp]
  exact ⟨_, rfl⟩

theorem passesHistory_of_error {h : Halt} (hp : ctx.Pending v)
    (hpass : ctx.passOver v s = (.error h, s')) :
    ctx.passesHistory (budget + 1) v s = .read v :: ctx.passAccount v s := by
  rw [Pending] at hp
  simp only [passesHistory, if_pos hp, hpass, List.append_nil]

theorem passesHistory_of_unchanged (hp : ctx.Pending v)
    (hpass : ctx.passOver v s = (.ok v, s')) :
    ctx.passesHistory (budget + 1) v s = .read v :: (ctx.passAccount v s ++ [.passed]) := by
  rw [Pending] at hp
  simp only [passesHistory, if_pos hp, hpass, if_true]

theorem passesHistory_of_changed (hp : ctx.Pending v) (hpass : ctx.passOver v s = (.ok u, s'))
    (hu : u ≠ v) :
    ctx.passesHistory (budget + 1) v s
      = .read v :: (ctx.passAccount v s ++ .passed :: ctx.passesHistory budget u s') := by
  rw [Pending] at hp
  simp only [passesHistory, if_pos hp, hpass, if_neg hu]

end

/-! ## The history is true -/

theorem extends_passOver (ctx : Context) (v : Text) (s : Trace) :
    s.Extends (ctx.passAccount v s) (ctx.passOver v s).2 := by
  have h := (ctx.tells_expandAll .value (ctx.nodes v)).extends_after { s with written := 0 }
  exact ⟨h.notices, h.calls⟩

theorem within_passAccount (ctx : Context) (v : Text) (s : Trace) :
    Event.Within (ctx.passAccount v s) :=
  (ctx.tells_expandAll .value (ctx.nodes v)).within { s with written := 0 }

/-- What a history tells of passes, after some others: their trace, their number, the text
they leave, and that they halt for a reason. -/
structure TellsPasses (ctx : Context) (es : List Event) (done : Nat) (s : Trace) (p : Passes) :
    Prop where
  extends_trace : s.Extends es p.trace
  iterations : p.iterations = done + Event.completed es
  value : (Event.reads es).getLast? = some p.value
  reason : ∀ h, p.ending = .halted h → ctx.HaltsFor h

/-- **The history of the passes is true**: what they add to a trace is told, the passes that
are told are counted, and the text that is left is the one that was read last. -/
theorem tells_passes (ctx : Context) (budget : Nat) (v : Text) (s : Trace) :
    ∀ done, ctx.TellsPasses (ctx.passesHistory budget v s) done s (ctx.passes budget v done s) := by
  have hread : ∀ (v : Text) (s : Trace), s.Extends [.read v] s := fun v s => .silent s rfl rfl
  induction budget, v, s using ctx.passes_induction with
  | settled budget v s hp =>
      intro done
      rw [passesHistory_of_not_pending hp, passes_of_not_pending hp]
      exact ⟨hread v s, rfl, rfl, fun h hh => by cases hh⟩
  | exhausted v s hp =>
      intro done
      rw [passesHistory_zero, passes_zero_of_pending hp]
      exact ⟨hread v s, rfl, rfl, fun h hh => by cases hh⟩
  | halted budget v s h s' hp hpass =>
      intro done
      have hwithin := ctx.within_passAccount v s
      have htold := ctx.extends_passOver v s
      rw [hpass] at htold
      rw [passesHistory_of_error hp hpass, passes_of_error hp hpass]
      refine ⟨(hread v s).append htold, by simp [hwithin.2], by simp [hwithin.1], fun h' hh => ?_⟩
      obtain rfl := Ending.halted.inj hh
      exact haltsFor_of_expandAll hpass
  | unchanged budget v s s' hp hpass =>
      intro done
      have hwithin := ctx.within_passAccount v s
      have htold := ctx.extends_passOver v s
      rw [hpass] at htold
      rw [passesHistory_of_unchanged hp hpass, passes_of_unchanged hp hpass]
      exact ⟨(hread v s).append (htold.append (.silent s' rfl rfl)), by simp [hwithin.2],
        by simp [hwithin.1], fun h hh => by cases hh⟩
  | changed budget v s u s' hp hpass hu ih =>
      intro done
      have hwithin := ctx.within_passAccount v s
      have htold := ctx.extends_passOver v s
      rw [hpass] at htold
      have hpassed : s'.Extends [.passed] s' := .silent s' rfl rfl
      obtain ⟨hrest, hcount, hvalue, hreason⟩ := ih (done + 1)
      rw [passesHistory_of_changed hp hpass hu, passes_of_changed hp hpass hu]
      refine ⟨(hread v s).append (htold.append (hpassed.append hrest)), ?_, ?_, hreason⟩
      · rw [hcount]
        simp [hwithin.2]
        omega
      · simp [hwithin.1, List.getLast?_cons, hvalue]

/-- What ends a run is told. -/
theorem extends_conclude (ctx : Context) (p : Passes) :
    p.trace.Extends ((ctx.endNotices p.ending).map .notice) (ctx.conclude p).2 := by
  obtain ⟨ending, v, count, s⟩ := p
  cases ending with
  | settled => exact .silent s rfl rfl
  | exhausted =>
      simp only [conclude, endNotices]
      split
      · exact ⟨Array.push_eq_append, by simp⟩
      · exact .silent s rfl rfl
  | halted h =>
      cases h with
      | commandFailed e => exact .silent s rfl rfl
      | outputTooLong limit => exact ⟨Array.push_eq_append, by simp [endNotices, conclude]⟩
      | refused r => exact .silent s rfl rfl

theorem extends_interpolateInner (ctx : Context) (inner : Text) (s : Trace) :
    s.Extends (ctx.innerHistory inner s) (ctx.interpolateInner inner s).2 := by
  unfold innerHistory interpolateInner
  split
  · exact ⟨Array.push_eq_append, by simp⟩
  · exact (ctx.tells_passes _ inner s 0).extends_trace.append (ctx.extends_conclude _)

/-- **What a run adds to a trace is what its history tells.** -/
theorem extends_interpolate (ctx : Context) (t : Text) (s : Trace) :
    s.Extends (ctx.history t s) (ctx.interpolate t s).2 := by
  rw [history, interpolate_eq]
  split
  · exact .silent s rfl rfl
  · exact ctx.extends_interpolateInner _ s

/-- A result counts the passes that were completed. -/
theorem iterations_of_conclude {ctx : Context} {p : Passes} {r : Result}
    (h : (ctx.conclude p).1 = .ok r) : r.iterations = p.iterations := by
  obtain ⟨ending, v, count, s⟩ := p
  cases ending with
  | settled => cases h; rfl
  | exhausted => cases h; rfl
  | halted halt =>
      cases halt with
      | commandFailed e => cases h; rfl
      | outputTooLong limit => cases h; rfl
      | refused r' => exact nomatch h

theorem iterations_of_interpolate {ctx : Context} {t : Text} {r : Result} {s : Trace}
    (h : (ctx.interpolate t s).1 = .ok r) : r.iterations = Event.completed (ctx.history t s) := by
  rw [interpolate_eq] at h
  rw [history]
  split at h
  · next hsingle =>
      cases h
      rw [if_pos hsingle]
      rfl
  · next hsingle =>
      rw [if_neg hsingle]
      unfold interpolateInner at h
      unfold innerHistory
      split at h
      · next hlong =>
          cases h
          rw [if_pos hlong]
          rfl
      · next hlong =>
          rw [if_neg hlong, Event.completed_append, (Event.within_map _).2,
            iterations_of_conclude h, (ctx.tells_passes _ _ s 0).iterations, Nat.zero_add,
            Nat.add_zero]

/-! ## How a run ends -/

theorem exists_result_inner {ctx : Context} (hshell : ctx.shell.Willing) (inner : Text)
    (s : Trace) : ∃ r, (ctx.interpolateInner inner s).1 = .ok r
      ∧ (ctx.config.failOnCommandError = false → r.failure = none) := by
  rw [interpolateInner]
  split
  · exact ⟨_, rfl, fun _ => rfl⟩
  · have hhalt :
        ∀ h, (ctx.passes ctx.config.budget inner 0 s).ending = .halted h → ctx.HaltsFor h :=
      (ctx.tells_passes ctx.config.budget inner s 0).reason
    generalize ctx.passes ctx.config.budget inner 0 s = p at hhalt ⊢
    obtain ⟨ending, v, count, s'⟩ := p
    have hanswered : ∀ r, ending ≠ .halted (.refused r) :=
      fun r hr => not_haltsFor_refused hshell r (hhalt _ hr)
    obtain ⟨r, s'', hconclude, hresult⟩ := ctx.exists_concludes count v s' hanswered
    refine ⟨r, congrArg Prod.fst hconclude, fun hlenient => Option.eq_none_iff_forall_ne_some.2 ?_⟩
    intro e he
    have hstrict : ctx.config.failOnCommandError = true := hhalt _ ((hresult.failure e).1 he)
    rw [hlenient] at hstrict
    exact Bool.false_ne_true hstrict

/-- **Where the shell refuses nothing, a run gives a result**, and it tells of a failure only
where failures count. -/
theorem exists_result {ctx : Context} (hshell : ctx.shell.Willing) (t : Text) (s : Trace) :
    ∃ r, (ctx.interpolate t s).1 = .ok r
      ∧ (ctx.config.failOnCommandError = false → r.failure = none) := by
  rw [interpolate_eq]
  split
  · exact ⟨_, rfl, fun _ => rfl⟩
  · exact exists_result_inner hshell _ s

end Context
end EnvValues
