import EnvValues.Interpolation
import EnvValues.Proofs.Account
import EnvValues.Shell.Scripted
import Mathlib.Logic.Function.Iterate

/-!
# The chain of passes behind a result

The passes over a value make a chain of texts: each text but the last has something left
to resolve, and a pass over it gives the next one. `Chain` says so, and tells as well which
trace each pass begins with.

A chain ends in one of four ways, and in only one (`Ends`, `Ends.unique`): with nothing
left to resolve or a pass that changed nothing, with the budget spent, with too much
output, or with a command that failed. **Every result is that of such a chain**
(`exists_chain_of_interpolate`): its text is the last one that a completed pass gave, and
of a pass that was abandoned only the trace is kept.

The loop goes on in one of five ways, and proofs about it do the same (`passes_induction`).
-/

namespace EnvValues
namespace Context

/-- One pass over a text: it is read, and what was read is expanded. -/
def passOver (ctx : Context) (v : Text) (s : Trace) : Except Halt Text × Trace :=
  ctx.pass (ctx.nodes v) s

/-- There is something to resolve in a text. -/
def Pending (ctx : Context) (v : Text) : Prop := Node.hasExpansions (ctx.nodes v) = true

/-! ## One pass at a time -/

section
variable {ctx : Context} {budget done : Nat} {u v : Text} {s s' : Trace}

/-- Where nothing is left to resolve, the passes end, whatever their budget. -/
theorem passes_of_not_pending (hp : ¬ ctx.Pending v) :
    ctx.passes budget v done s = ⟨.settled, v, done, s⟩ := by
  rw [Pending] at hp
  cases budget <;> simp only [passes, if_neg hp]

theorem passes_zero_of_pending (hp : ctx.Pending v) :
    ctx.passes 0 v done s = ⟨.exhausted, v, done, s⟩ := by
  rw [Pending] at hp
  simp only [passes, if_pos hp]

theorem passes_of_error {h : Halt} (hp : ctx.Pending v)
    (hpass : ctx.passOver v s = (.error h, s')) :
    ctx.passes (budget + 1) v done s = ⟨.halted h, v, done, s'⟩ := by
  rw [Pending] at hp
  rw [passOver] at hpass
  simp only [passes, if_pos hp, hpass]

theorem passes_of_unchanged (hp : ctx.Pending v) (hpass : ctx.passOver v s = (.ok v, s')) :
    ctx.passes (budget + 1) v done s = ⟨.settled, v, done + 1, s'⟩ := by
  rw [Pending] at hp
  rw [passOver] at hpass
  simp only [passes, if_pos hp, hpass, if_true]

theorem passes_of_changed (hp : ctx.Pending v) (hpass : ctx.passOver v s = (.ok u, s'))
    (hu : u ≠ v) : ctx.passes (budget + 1) v done s = ctx.passes budget u (done + 1) s' := by
  rw [Pending] at hp
  rw [passOver] at hpass
  simp only [passes, if_pos hp, hpass, if_neg hu]

end

/-- **Induction on passes**: nothing is left to resolve, the budget is spent, a pass halts,
a pass changes nothing, or a pass changes something and the others follow it. -/
@[elab_as_elim]
theorem passes_induction (ctx : Context) {P : Nat → Text → Trace → Prop}
    (settled : ∀ budget v s, ¬ ctx.Pending v → P budget v s)
    (exhausted : ∀ v s, ctx.Pending v → P 0 v s)
    (halted : ∀ budget v s h s', ctx.Pending v → ctx.passOver v s = (.error h, s') →
      P (budget + 1) v s)
    (unchanged : ∀ budget v s s', ctx.Pending v → ctx.passOver v s = (.ok v, s') →
      P (budget + 1) v s)
    (changed : ∀ budget v s u s', ctx.Pending v → ctx.passOver v s = (.ok u, s') → u ≠ v →
      P budget u s' → P (budget + 1) v s)
    (budget : Nat) (v : Text) (s : Trace) : P budget v s := by
  induction budget generalizing v s with
  | zero =>
      by_cases hp : ctx.Pending v
      · exact exhausted v s hp
      · exact settled 0 v s hp
  | succ budget ih =>
      by_cases hp : ctx.Pending v
      · cases hpass : ctx.passOver v s with
        | mk r s' =>
            cases r with
            | error h => exact halted budget v s h s' hp hpass
            | ok u =>
                by_cases hu : u = v
                · subst hu
                  exact unchanged budget u s s' hp hpass
                · exact changed budget v s u s' hp hpass hu (ih u s')
      · exact settled (budget + 1) v s hp

/-- **Passes are the same where each of them is**, over texts that have something left to resolve
in either context. -/
theorem passes_congr {ctx ctx' : Context} (hpending : ∀ v, ctx'.Pending v ↔ ctx.Pending v)
    (hpassOver : ∀ v s, ctx'.passOver v s = ctx.passOver v s) (budget : Nat) (v : Text)
    (s : Trace) : ∀ done, ctx'.passes budget v done s = ctx.passes budget v done s := by
  induction budget, v, s using ctx.passes_induction with
  | settled budget v s hp =>
      intro done
      rw [passes_of_not_pending hp, passes_of_not_pending ((hpending v).not.2 hp)]
  | exhausted v s hp =>
      intro done
      rw [passes_zero_of_pending hp, passes_zero_of_pending ((hpending v).2 hp)]
  | halted budget v s h s' hp hpass =>
      intro done
      rw [passes_of_error hp hpass,
        passes_of_error ((hpending v).2 hp) ((hpassOver v s).trans hpass)]
  | unchanged budget v s s' hp hpass =>
      intro done
      rw [passes_of_unchanged hp hpass,
        passes_of_unchanged ((hpending v).2 hp) ((hpassOver v s).trans hpass)]
  | changed budget v s u s' hp hpass hu ih =>
      intro done
      rw [passes_of_changed hp hpass hu,
        passes_of_changed ((hpending v).2 hp) ((hpassOver v s).trans hpass) hu, ih]

/-! ## Chains of passes -/

/-- So many passes, each over the text that the one before it gave. Only the last of them
may have changed nothing. -/
structure Chain (ctx : Context) (count : Nat) (text : Nat → Text) (trace : Nat → Trace) :
    Prop where
  pending : ∀ j, j < count → ctx.Pending (text j)
  pass : ∀ j, j < count → ctx.passOver (text j) (trace j) = (.ok (text (j + 1)), trace (j + 1))
  changes : ∀ j, j + 1 < count → text j ≠ text (j + 1)

/-- The last of so many passes changed nothing. -/
def Stalled (count : Nat) (text : Nat → Text) : Prop := 0 < count ∧ text count = text (count - 1)

/-- How a chain of passes ends, for a budget, and the trace it leaves. -/
inductive Ends (ctx : Context) (budget count : Nat) (text : Nat → Text) (trace : Nat → Trace) :
    Ending → Trace → Prop where
  | settled : ¬ ctx.Pending (text count) ∨ Stalled count text →
      Ends ctx budget count text trace .settled (trace count)
  | exhausted : count = budget → ctx.Pending (text count) → ¬ Stalled count text →
      Ends ctx budget count text trace .exhausted (trace count)
  | outputTooLong {limit : Int} {s' : Trace} :
      count < budget → ctx.Pending (text count) → ¬ Stalled count text →
      ctx.passOver (text count) (trace count) = (.error (.outputTooLong limit), s') →
      Ends ctx budget count text trace (.halted (.outputTooLong limit)) s'
  | commandFailed {e : CommandError} {s' : Trace} :
      count < budget → ctx.Pending (text count) → ¬ Stalled count text →
      ctx.passOver (text count) (trace count) = (.error (.commandFailed e), s') →
      Ends ctx budget count text trace (.halted (.commandFailed e)) s'

section
variable {ctx : Context} {budget count : Nat} {text : Nat → Text} {trace : Nat → Trace}

/-- **A chain ends in one way only.** -/
theorem Ends.unique {e e' : Ending} {s s' : Trace} (h : ctx.Ends budget count text trace e s)
    (h' : ctx.Ends budget count text trace e' s') : e' = e ∧ s' = s := by
  -- what is not settled has something left, and the last pass changed something
  have hnot : ctx.Pending (text count) → ¬ Stalled count text →
      ¬ (¬ ctx.Pending (text count) ∨ Stalled count text) :=
    fun hp hs hor => hor.elim (fun hn => hn hp) hs
  cases h with
  | settled hs =>
      cases h' with
      | settled => exact ⟨rfl, rfl⟩
      | exhausted _ hp hst => exact absurd hs (hnot hp hst)
      | outputTooLong _ hp hst _ => exact absurd hs (hnot hp hst)
      | commandFailed _ hp hst _ => exact absurd hs (hnot hp hst)
  | exhausted hc hp hst =>
      cases h' with
      | settled hs => exact absurd hs (hnot hp hst)
      | exhausted => exact ⟨rfl, rfl⟩
      | outputTooLong hlt => exact absurd hc (Nat.ne_of_lt hlt)
      | commandFailed hlt => exact absurd hc (Nat.ne_of_lt hlt)
  | outputTooLong hlt hp hst hpass =>
      cases h' with
      | settled hs => exact absurd hs (hnot hp hst)
      | exhausted hc => exact absurd hc (Nat.ne_of_lt hlt)
      | outputTooLong _ _ _ hpass' =>
          cases hpass.symm.trans hpass'
          exact ⟨rfl, rfl⟩
      | commandFailed _ _ _ hpass' => cases hpass.symm.trans hpass'
  | commandFailed hlt hp hst hpass =>
      cases h' with
      | settled hs => exact absurd hs (hnot hp hst)
      | exhausted hc => exact absurd hc (Nat.ne_of_lt hlt)
      | outputTooLong _ _ _ hpass' => cases hpass.symm.trans hpass'
      | commandFailed _ _ _ hpass' =>
          cases hpass.symm.trans hpass'
          exact ⟨rfl, rfl⟩

/-- A chain without a stall may go on, with one pass more. -/
theorem Chain.snoc (h : ctx.Chain count text trace) (hst : ¬ Stalled count text)
    (hp : ctx.Pending (text count))
    (hpass : ctx.passOver (text count) (trace count)
      = (.ok (text (count + 1)), trace (count + 1))) :
    ctx.Chain (count + 1) text trace := by
  refine ⟨fun j hj => ?_, fun j hj => ?_, fun j hj heq => ?_⟩
  · rcases Nat.lt_succ_iff_lt_or_eq.1 hj with hj | rfl
    · exact h.pending j hj
    · exact hp
  · rcases Nat.lt_succ_iff_lt_or_eq.1 hj with hj | rfl
    · exact h.pass j hj
    · exact hpass
  · rcases Nat.lt_succ_iff_lt_or_eq.1 hj with hj | rfl
    · exact h.changes j hj heq
    · exact hst ⟨Nat.succ_pos j, heq.symm⟩

end

/-! ## The chain that the passes make -/

/-- The text and the trace behind a pass, which stay where they are when it halts. -/
def advance (ctx : Context) (p : Text × Trace) : Text × Trace :=
  match ctx.passOver p.1 p.2 with
  | (.ok u, s') => (u, s')
  | (.error _, _) => p

theorem advance_of_ok {ctx : Context} {p : Text × Trace} {u : Text} {s' : Trace}
    (h : ctx.passOver p.1 p.2 = (.ok u, s')) : ctx.advance p = (u, s') := by
  rw [advance, h]

/-- What halts a pass, where the shell refuses nothing. -/
theorem halt_of_passOver {ctx : Context} (hshell : ctx.shell.Willing) {v : Text} {s s' : Trace}
    {h : Halt} (hp : ctx.passOver v s = (.error h, s')) :
    (∃ limit, h = .outputTooLong limit) ∨ ∃ e, h = .commandFailed e := by
  have hh : ctx.HaltsFor h := haltsFor_of_expandAll hp
  cases h with
  | commandFailed e => exact Or.inr ⟨e, rfl⟩
  | outputTooLong limit => exact Or.inl ⟨limit, rfl⟩
  | refused r => exact absurd hh (not_haltsFor_refused hshell r)

/-- The passes that are left go on with a chain, and end it. -/
theorem exists_chain_of_passes {ctx : Context} (hshell : ctx.shell.Willing) (start : Text × Trace)
    {text : Nat → Text} {trace : Nat → Trace}
    (hstage : ∀ j, (text j, trace j) = (ctx.advance)^[j] start) (budget : Nat) (v : Text)
    (s : Trace) :
    ∀ done, text done = v → trace done = s → ctx.Chain done text trace → ¬ Stalled done text →
      ∃ count ending s', ctx.passes budget v done s = ⟨ending, text count, count, s'⟩
        ∧ ctx.Chain count text trace ∧ count ≤ done + budget
        ∧ ctx.Ends (done + budget) count text trace ending s' := by
  -- a pass that is completed leads to the next stage
  have hnext : ∀ {done u s'}, ctx.passOver (text done) (trace done) = (.ok u, s') →
      text (done + 1) = u ∧ trace (done + 1) = s' := by
    intro done u s' hpass
    refine Prod.mk.inj (Eq.trans (hstage (done + 1)) ?_)
    rw [Function.iterate_succ_apply', ← hstage]
    exact advance_of_ok hpass
  induction budget, v, s using ctx.passes_induction with
  | settled budget v s hp =>
      rintro done rfl rfl hchain hst
      exact ⟨done, .settled, trace done, passes_of_not_pending hp, hchain, Nat.le_add_right _ _,
        .settled (Or.inl hp)⟩
  | exhausted v s hp =>
      rintro done rfl rfl hchain hst
      exact ⟨done, .exhausted, trace done, passes_zero_of_pending hp, hchain, Nat.le_refl _,
        .exhausted rfl hp hst⟩
  | halted budget v s h s' hp hpass =>
      rintro done rfl rfl hchain hst
      have hlt : done < done + (budget + 1) := by omega
      -- the pass is abandoned, and the text it began with stays
      refine ⟨done, .halted h, s', passes_of_error hp hpass, hchain, Nat.le_of_lt hlt, ?_⟩
      obtain ⟨limit, rfl⟩ | ⟨e, rfl⟩ := halt_of_passOver hshell hpass
      · exact .outputTooLong hlt hp hst hpass
      · exact .commandFailed hlt hp hst hpass
  | unchanged budget v s s' hp hpass =>
      rintro done rfl rfl hchain hst
      obtain ⟨htext, rfl⟩ := hnext hpass
      refine ⟨done + 1, .settled, trace (done + 1), ?_, hchain.snoc hst hp (htext.symm ▸ hpass),
        by omega, .settled (Or.inr ⟨Nat.succ_pos done, htext⟩)⟩
      rw [passes_of_unchanged hp hpass, htext]
  | changed budget v s u s' hp hpass hu ih =>
      rintro done rfl rfl hchain hst
      obtain ⟨rfl, rfl⟩ := hnext hpass
      obtain ⟨count, ending, s'', hrun, hc, hle, hends⟩ :=
        ih (done + 1) rfl rfl (hchain.snoc hst hp hpass) fun hstalled => hu hstalled.2
      rw [Nat.add_right_comm, Nat.add_assoc] at hle hends
      refine ⟨count, ending, s'', ?_, hc, hle, hends⟩
      rw [passes_of_changed hp hpass hu, hrun]

/-! ## Results -/

/-- The notices that go with the end of the passes. -/
def endNotices (ctx : Context) : Ending → List Notice
  | .exhausted => if ctx.config.warnOnMaxIterations then [.maxIterations] else []
  | .halted (.outputTooLong limit) => [.outputTooLong limit]
  | _ => []

/-- The result of so many passes that ended so and left a text and a trace, and the trace
that goes with the result. -/
structure Concludes (ctx : Context) (count : Nat) (v : Text) (ending : Ending) (s : Trace)
    (r : Result) (s' : Trace) : Prop where
  iterations : r.iterations = count
  exhausted : r.exhausted = true ↔ ending = .exhausted
  failure : ∀ e, r.failure = some e ↔ ending = .halted (.commandFailed e)
  /-- Where a command failed, the text is kept as it is. -/
  failed_value : ∀ e, ending = .halted (.commandFailed e) → r.value = v
  value : (∀ e, ending ≠ .halted (.commandFailed e)) →
    r.value = Escape.decodeIf ctx.config.features.escapes v
  calls : s'.calls = s.calls
  notices : s'.notices = s.notices ++ (ctx.endNotices ending).toArray

/-- If nothing was refused, there is a result. -/
theorem exists_concludes (ctx : Context) (count : Nat) (v : Text) {ending : Ending} (s : Trace)
    (h : ∀ r, ending ≠ .halted (.refused r)) :
    ∃ r s', ctx.conclude ⟨ending, v, count, s⟩ = (.ok r, s')
      ∧ ctx.Concludes count v ending s r s' := by
  cases ending with
  | settled =>
      exact ⟨_, _, rfl, by constructor <;> simp [endNotices]⟩
  | exhausted =>
      refine ⟨_, _, rfl, ?_⟩
      cases hw : ctx.config.warnOnMaxIterations <;> constructor <;> simp [endNotices, hw]
  | halted halt =>
      cases halt with
      | commandFailed e =>
          exact ⟨_, _, rfl, by constructor <;> simp [endNotices, eq_comm]⟩
      | outputTooLong limit =>
          exact ⟨_, _, rfl, by constructor <;> simp [endNotices]⟩
      | refused r => exact absurd rfl (h r)

/-- A text between single quotes is not expanded, and any other is expanded without its
outer quotes. -/
theorem interpolate_eq (ctx : Context) (t : Text) (s : Trace) :
    ctx.interpolate t s = if (OuterQuotes.split t).1 = some .single then
        (.ok { value := Escape.decodeIf ctx.config.features.escapes (OuterQuotes.split t).2 }, s)
      else ctx.interpolateInner (OuterQuotes.split t).2 s := by
  rw [interpolate]
  obtain ⟨quote, inner⟩ := OuterQuotes.split t
  cases quote with
  | none => rfl
  | some q => cases q <;> rfl

/-- A text that is not too long is expanded in passes. -/
theorem interpolateInner_of_le {ctx : Context} {inner : Text}
    (h : (inner.length : Int) ≤ ctx.config.limits.inputLength) (s : Trace) :
    ctx.interpolateInner inner s = ctx.conclude (ctx.passes ctx.config.budget inner 0 s) := by
  rw [interpolateInner, Limits.forbidsInput, decide_eq_false (Int.not_lt.2 h)]
  rfl

/-- A text that is too long is given back as it is, with a notice. -/
theorem interpolateInner_of_lt {ctx : Context} {inner : Text}
    (h : ctx.config.limits.inputLength < inner.length) (s : Trace) :
    ctx.interpolateInner inner s = (.ok { value := inner },
      { s with notices :=
          s.notices.push (.inputTooLong inner.length ctx.config.limits.inputLength) }) := by
  rw [interpolateInner, Limits.forbidsInput, decide_eq_true h, if_pos rfl]

/-- **Behind every result is a chain of passes** from the text inside the quotes, no longer
than the budget, which ends in one way and no other. The result counts its passes and says
how it ended; its value is the last text, with the escapes decoded unless a command failed. -/
theorem exists_chain_of_interpolate {ctx : Context} (hshell : ctx.shell.Willing)
    {t inner : Text} {quote : Option Quote} (hsplit : OuterQuotes.split t = (quote, inner))
    (hquote : quote ≠ some .single)
    (hinput : (inner.length : Int) ≤ ctx.config.limits.inputLength) (s : Trace) :
    ∃ count text trace ending s' r s'',
      text 0 = inner ∧ trace 0 = s ∧ ctx.Chain count text trace
      ∧ (count : Int) ≤ max ctx.config.maxIterations 0
      ∧ ctx.Ends ctx.config.budget count text trace ending s'
      ∧ (∀ e u, ctx.Ends ctx.config.budget count text trace e u → e = ending ∧ u = s')
      ∧ ctx.interpolate t s = (.ok r, s'')
      ∧ ctx.Concludes count (text count) ending s' r s'' := by
  let text : Nat → Text := fun j => ((ctx.advance)^[j] (inner, s)).1
  let trace : Nat → Trace := fun j => ((ctx.advance)^[j] (inner, s)).2
  have hstage : ∀ j, (text j, trace j) = (ctx.advance)^[j] (inner, s) := fun _ => rfl
  have hfirst : ctx.Chain 0 text trace :=
    ⟨fun j hj => absurd hj (Nat.not_lt_zero j), fun j hj => absurd hj (Nat.not_lt_zero j),
      fun j hj => absurd hj (Nat.not_lt_zero _)⟩
  obtain ⟨count, ending, s', hrun, hchain, hle, hends⟩ :=
    exists_chain_of_passes hshell (inner, s) hstage ctx.config.budget inner s 0 rfl rfl hfirst
      fun hst => absurd hst.1 (Nat.lt_irrefl 0)
  rw [Nat.zero_add] at hle hends
  have hanswered : ∀ r, ending ≠ .halted (.refused r) := by
    rintro r rfl
    cases hends
  obtain ⟨r, s'', hconclude, hresult⟩ := exists_concludes ctx count (text count) s' hanswered
  refine ⟨count, text, trace, ending, s', r, s'', rfl, rfl, hchain, ?_, hends,
    fun e u h => hends.unique h, ?_, hresult⟩
  · rw [Config.budget] at hle
    omega
  · rw [interpolate_eq, hsplit, if_neg hquote, interpolateInner_of_le hinput, ← hconclude, ← hrun]

/-- The variable `A` is a command, `boom` fails, and failures end an expansion. -/
def booming : Context where
  bindings := Assignment.ofList [(['A'], { value := "a\\t$(boom)".toList })]
  environment := ∅
  config := { failOnCommandError := true }
  shell := Script.shell { unknown := some { exitCode := 3 } }

/-- One pass puts the command in place, and the next is abandoned: the text it began with
stays, escapes and all. -/
theorem exists_chain_booming :
    booming.shell.Willing
    ∧ OuterQuotes.split "\"${A}\"".toList = (some .double, "${A}".toList)
    ∧ (("${A}".toList.length : Nat) : Int) ≤ booming.config.limits.inputLength
    ∧ ∃ text trace s', text 0 = "${A}".toList ∧ booming.Chain 1 text trace
      ∧ text 1 = "a\\t$(boom)".toList
      ∧ booming.Ends 10 1 text trace
          (.halted (.commandFailed { line := "boom".toList, exitCode := 3 })) s' := by
  have hshell : booming.shell.Willing := Script.willing_shell _
  have hsplit : OuterQuotes.split "\"${A}\"".toList = (some .double, "${A}".toList) := by decide
  have hinput : (("${A}".toList.length : Nat) : Int) ≤ booming.config.limits.inputLength := by
    decide
  refine ⟨hshell, hsplit, hinput, ?_⟩
  obtain ⟨count, text, trace, ending, s', r, s'', hfirst, -, hchain, -, hends, -, hrun, hr⟩ :=
    exists_chain_of_interpolate hshell hsplit (by decide) hinput {}
  have hr' : (booming.interpolate "\"${A}\"".toList {}).1.toOption = some r := by rw [hrun]; rfl
  have hresult : some r = some
      { value := "a\\t$(boom)".toList
        failure := some { line := "boom".toList, exitCode := 3 }
        iterations := 1 } := by
    rw [← hr']
    decide +kernel
  obtain rfl := Option.some.inj hresult
  obtain rfl : 1 = count := hr.iterations
  obtain rfl := (hr.failure _).1 rfl
  exact ⟨text, trace, s', hfirst, hchain, (hr.failed_value _ rfl).symm, hends⟩

end Context
end EnvValues
