import EnvValues.Proofs.History
import EnvValues.Proofs.Tree

/-!
# The size of a run

The text of a pass is counted where it is produced, piece by piece, and the count is held
against the limit there. What a pass gives is joined from the pieces, so it is no longer
than the count (`fits_expandAll`): **the limit on what a pass produces limits what it
gives** (`length_le_of_passOver`).

So every text a run reads is the one it began with or within that limit, and so is the text
of its result (`interpolate_bounded`).
-/

namespace EnvValues
namespace Context

/-- A step that does not halt only adds to the count, and keeps to the limit if it adds
anything. -/
def Counts (ctx : Context) {α : Type} (x : Expansion α) : Prop :=
  ∀ s a s', x.after s = (.ok a, s') → s.written ≤ s'.written
    ∧ (s'.written = s.written ∨ (s'.written : Int) ≤ ctx.config.limits.outputLength)

/-- The text that a step gives fits into what it adds to the count. -/
def Fits (x : Expansion Text) : Prop :=
  ∀ s t s', x.after s = (.ok t, s') → s.written + t.length ≤ s'.written

section
variable {ctx : Context}

theorem Counts.bind {α β : Type} {x : Expansion α} {f : α → Expansion β} (hx : ctx.Counts x)
    (hf : ∀ a, ctx.Counts (f a)) : ctx.Counts (x >>= f) := by
  intro s b s' h
  obtain ⟨a, s₁, ha, hb⟩ := Expansion.after_bind_eq_ok.1 h
  have h₁ := hx s a s₁ ha
  have h₂ := hf a s₁ b s' hb
  omega

/-- A step that leaves the count as it is. -/
theorem Counts.of_written_eq {α : Type} {x : Expansion α}
    (h : ∀ s, (x.after s).2.written = s.written) : ctx.Counts x := by
  intro s a s' he
  have hs := h s
  rw [he] at hs
  exact ⟨Nat.le_of_eq hs.symm, Or.inl hs⟩

theorem after_emit_of_ok {t u : Text} {s s' : Trace} (h : (ctx.emit t).after s = (.ok u, s')) :
    u = t ∧ s'.written = s.written + t.length
      ∧ (s'.written : Int) ≤ ctx.config.limits.outputLength := by
  rw [emit, Expansion.after_ofTrace] at h
  dsimp only at h
  split at h
  · cases h
  · next hlimit =>
      cases h
      refine ⟨rfl, rfl, ?_⟩
      simpa [Limits.forbidsOutput] using hlimit

theorem counts_emit (ctx : Context) (t : Text) : ctx.Counts (ctx.emit t) := by
  intro s u s' h
  obtain ⟨-, hwritten, hlimit⟩ := after_emit_of_ok h
  exact ⟨by omega, Or.inr hlimit⟩

theorem written_warn (ctx : Context) (name : Text) (s : Trace) :
    ((ctx.warn name).after s).2.written = s.written := by
  unfold warn
  split <;> rfl

theorem counts_warn (ctx : Context) (name : Text) : ctx.Counts (ctx.warn name) :=
  .of_written_eq (ctx.written_warn name)

theorem counts_failCommand (ctx : Context) (e : CommandError) : ctx.Counts (ctx.failCommand e) := by
  refine .of_written_eq fun s => ?_
  unfold failCommand
  split <;> rfl

theorem counts_call (ctx : Context) (line : Text) : ctx.Counts (ctx.call line) := by
  refine .of_written_eq fun s => ?_
  rw [call, Expansion.after_ofTrace]
  dsimp only
  split <;> rfl

theorem steps_counts (ctx : Context) : Steps ctx ctx fun x _ _ => ctx.Counts x :=
  .ofOne (fun _ => .of_written_eq fun _ => rfl) Counts.bind (counts_emit ctx) (counts_warn ctx)
    (counts_failCommand ctx) (counts_call ctx)

end

/-! ## What holds of every text that is given -/

/-- A property of steps that give text: it holds of a text that is produced, of no text, and of
texts that are joined. -/
structure Gathers (ctx : Context) (P : Expansion Text → Prop) : Prop where
  emit : ∀ t, P (ctx.emit t)
  nil : P (pure [])
  unset : ∀ name, P (ctx.warn name >>= fun _ => ctx.emit [])
  join : ∀ {x y}, P x → P y → P (x >>= fun t => y >>= fun u => pure (t ++ u))

/-- The property holds of the commands among the nodes. -/
def Commanding (ctx : Context) (P : Expansion Text → Prop) : Node.Placed :=
  fun _ _ ns => ∀ line raw, Node.command line raw ∈ ns →
    P (ctx.expandAll .line line >>= ctx.runLine)

namespace Gathers
variable {ctx : Context} {P : Expansion Text → Prop}

theorem expandRef (h : Gathers ctx P) (name : Text) : P (ctx.expandRef name) := by
  cases hl : ctx.lookup name with
  | some v =>
      rw [expandRef_of_some hl]
      exact h.emit v
  | none =>
      rw [expandRef_of_none hl]
      exact h.unset name

theorem expandChoice (h : Gathers ctx P) (name : Text) (op : Operator) {x : Expansion Text}
    (hx : P x) : P (ctx.expandChoice name op x) := by
  unfold Context.expandChoice
  dsimp only
  split
  · exact h.emit _
  · split
    · exact hx
    · cases op.form with
      | otherwise => exact h.emit _
      | instead => exact h.nil

mutual

/-- It holds of what a node gives. -/
theorem expand (h : Gathers ctx P) {a : Nat} {l : Bool} :
    ∀ n : Node, (∀ line raw, n = .command line raw → P (ctx.expandAll .line line >>= ctx.runLine)) →
      Node.Inside (Commanding ctx P) a l n → P (ctx.expand .value n)
  | .lit t, _, _ => by rw [Context.expand]; exact h.emit t
  | .ref name raw none f, _, _ => by
      rw [Context.expand]
      simpa only [placed, bind_pure] using h.expandRef name
  | .ref name raw (some op) none, _, _ => by
      rw [Context.expand]
      simpa only [placed, bind_pure] using h.expandChoice name op h.nil
  | .ref name raw (some op) (some f), _, hin => by
      rw [Node.Inside] at hin
      have hf : P (ctx.expandOnto .value [] f) := expandAll h f hin.1 hin.2
      rw [Context.expand]
      simpa only [placed, bind_pure] using h.expandChoice name op hf
  | .command line raw, hcommand, _ => by rw [Context.expand]; exact hcommand line raw rfl
  | .group ns, _, hin => by
      rw [Node.Inside] at hin
      rw [Context.expand]
      exact expandAll h ns hin.1 hin.2
  | .nothing, _, _ => by rw [Context.expand]; exact h.nil

/-- **It holds of what nodes give**, if it holds of the commands among them at every depth. -/
theorem expandAll (h : Gathers ctx P) {a : Nat} {l : Bool} :
    ∀ ns : List Node, Commanding ctx P a l ns → Node.InsideAll (Commanding ctx P) a l ns →
      P (ctx.expandAll .value ns)
  | [], _, _ => h.nil
  | n :: ns, hcommands, hin => by
      rw [Node.InsideAll] at hin
      rw [expandAll_cons]
      refine h.join (expand h n (fun line raw hn => ?_) hin.1)
        (expandAll h ns (fun line raw hmem => ?_) hin.2)
      · exact hcommands line raw (hn ▸ List.mem_cons_self)
      · exact hcommands line raw (List.mem_cons_of_mem n hmem)

end

end Gathers

/-! ## What is given is counted -/

section
variable {ctx : Context}

/-- A step that gives nothing fits if it counts. -/
theorem fits_of_counts {x : Expansion Text} (hx : ctx.Counts x)
    (hnil : ∀ s t s', x.after s = (.ok t, s') → t = []) : Fits x := by
  intro s t s' h
  rw [hnil s t s' h]
  exact (hx s t s' h).1

theorem fits_emit (ctx : Context) (t : Text) : Fits (ctx.emit t) := by
  intro s u s' h
  obtain ⟨rfl, hwritten, -⟩ := after_emit_of_ok h
  exact Nat.le_of_eq hwritten.symm

/-- Behind a step that counts, what fits still fits. -/
theorem Fits.behind {α : Type} {x : Expansion α} {f : α → Expansion Text} (hx : ctx.Counts x)
    (hf : ∀ a, Fits (f a)) : Fits (x >>= f) := by
  intro s t s' h
  obtain ⟨a, s₁, ha, ht⟩ := Expansion.after_bind_eq_ok.1 h
  have h₁ := (hx s a s₁ ha).1
  have h₂ := hf a s₁ t s' ht
  omega

/-- Two texts that fit are joined to one that fits. -/
theorem Fits.join {x y : Expansion Text} (hx : Fits x) (hy : Fits y) :
    Fits (x >>= fun t => y >>= fun u => pure (t ++ u)) := by
  intro s w s' h
  obtain ⟨t, s₁, ht, h⟩ := Expansion.after_bind_eq_ok.1 h
  obtain ⟨u, s₂, hu, h⟩ := Expansion.after_bind_eq_ok.1 h
  cases h
  have h₁ := hx s t s₁ ht
  have h₂ := hy s₁ u _ hu
  rw [List.length_append]
  omega

theorem gathers_fits (ctx : Context) : Gathers ctx Fits where
  emit := ctx.fits_emit
  nil := fun s t s' h => by cases h; exact Nat.le_refl _
  unset name := .behind (ctx.counts_warn name) fun _ => ctx.fits_emit []
  join := Fits.join

theorem fits_failCommand (ctx : Context) (e : CommandError) : Fits (ctx.failCommand e) := by
  refine fits_of_counts (ctx.counts_failCommand e) fun s t s' h => ?_
  unfold failCommand at h
  split at h
  · exact nomatch h
  · cases h; rfl

theorem fits_runLine (ctx : Context) (line : Text) : Fits (ctx.runLine line) := by
  unfold runLine
  split
  · exact ctx.fits_failCommand _
  · refine .behind (ctx.counts_call line) fun o => ?_
    split
    · exact ctx.fits_emit _
    · exact ctx.fits_failCommand _

/-- **What nodes give is counted, all of it.** -/
theorem fits_expandAll (ctx : Context) (ns : List Node) : Fits (ctx.expandAll .value ns) := by
  have hcommands : ∀ a l ns, Commanding ctx Fits a l ns := fun _ _ _ line _ _ =>
    .behind (ctx.steps_counts.expandAll .line line) ctx.fits_runLine
  exact ctx.gathers_fits.expandAll ns (hcommands 0 false ns)
    (Node.insideAll_iff.2 (Node.everywhere_of_forall hcommands 0 false ns).2)

end

/-! ## Passes -/

/-- **What a pass gives is within the limit on what it produces.** -/
theorem length_le_of_passOver {ctx : Context} {u v : Text} {s s' : Trace}
    (h : ctx.passOver v s = (.ok u, s')) :
    (u.length : Int) ≤ max ctx.config.limits.outputLength 0 := by
  -- a pass begins with the count at zero
  have hcounts := ctx.steps_counts.expandAll .value (ctx.nodes v) { s with written := 0 } u s' h
  have hfits := ctx.fits_expandAll (ctx.nodes v) { s with written := 0 } u s' h
  dsimp only at hcounts hfits
  omega

/-- **What the passes read is within a bound**, if the text they begin with is and the limit on
what a pass produces is. The budget bounds how often they read. -/
theorem bounded_reads (ctx : Context) {M : Int}
    (hM : max ctx.config.limits.outputLength 0 ≤ M) (budget : Nat) (v : Text) (s : Trace) :
    (v.length : Int) ≤ M →
      (∀ u ∈ Event.reads (ctx.passesHistory budget v s), (u.length : Int) ≤ M)
      ∧ (Event.reads (ctx.passesHistory budget v s)).length ≤ budget + 1 := by
  have hpass : ∀ v s, Event.reads (ctx.passAccount v s) = [] :=
    fun v s => (ctx.within_passAccount v s).1
  induction budget, v, s using ctx.passes_induction with
  | settled budget v s hp =>
      intro hv
      rw [passesHistory_of_not_pending hp]
      simpa using hv
  | exhausted v s hp =>
      intro hv
      rw [passesHistory_zero]
      simpa using hv
  | halted budget v s h s' hp hover =>
      intro hv
      rw [passesHistory_of_error hp hover]
      simpa [hpass] using hv
  | unchanged budget v s s' hp hover =>
      intro hv
      rw [passesHistory_of_unchanged hp hover]
      simpa [hpass] using hv
  | changed budget v s u s' hp hover hu ih =>
      intro hv
      obtain ⟨hreads, hcount⟩ := ih (Int.le_trans (length_le_of_passOver hover) hM)
      rw [passesHistory_of_changed hp hover hu]
      refine ⟨?_, ?_⟩
      · simpa [hpass] using ⟨hv, hreads⟩
      · simpa [hpass, Nat.add_comm] using hcount

/-- What the passes leave is within such a bound as well. -/
theorem bounded_value (ctx : Context) {M : Int}
    (hM : max ctx.config.limits.outputLength 0 ≤ M) (budget done : Nat) {v : Text} (s : Trace)
    (hv : (v.length : Int) ≤ M) : ((ctx.passes budget v done s).value.length : Int) ≤ M :=
  (ctx.bounded_reads hM budget v s hv).1 _
    (List.mem_of_getLast? (ctx.tells_passes budget v s done).value)

/-! ## Runs -/

/-- The text of a result is the one that the passes left, or what it decodes to. -/
theorem length_value_le_of_conclude {ctx : Context} {p : Passes} {r : Result}
    (h : (ctx.conclude p).1 = .ok r) : r.value.length ≤ p.value.length := by
  obtain ⟨ending, v, count, s⟩ := p
  have hdecoded := Escape.length_decodeIf_le ctx.config.features.escapes v
  cases ending with
  | settled => cases h; exact hdecoded
  | exhausted => cases h; exact hdecoded
  | halted halt =>
      cases halt with
      | commandFailed e => cases h; exact Nat.le_refl _
      | outputTooLong limit => cases h; exact hdecoded
      | refused r' => exact nomatch h

theorem bounded_inner {ctx : Context} {inner : Text} {s : Trace} {r : Result}
    (h : (ctx.interpolateInner inner s).1 = .ok r) :
    (r.value.length : Int) ≤ max (max (inner.length : Int) ctx.config.limits.outputLength) 0
    ∧ (∀ u ∈ Event.reads (ctx.innerHistory inner s),
        (u.length : Int) ≤ max (max ctx.config.limits.inputLength ctx.config.limits.outputLength) 0)
    ∧ ((Event.reads (ctx.innerHistory inner s)).length : Int)
        ≤ max ctx.config.maxIterations 0 + 1 := by
  unfold interpolateInner at h
  unfold innerHistory
  split at h
  · next hlong =>
      cases h
      rw [if_pos hlong]
      refine ⟨?_, by simp, ?_⟩
      · dsimp only
        omega
      · simp
        omega
  · next hshort =>
      have hinput : (inner.length : Int) ≤ ctx.config.limits.inputLength := by
        simpa [Limits.forbidsInput] using hshort
      have hvalue := length_value_le_of_conclude h
      rw [if_neg hshort, Event.reads_append, (Event.within_map _).1, List.append_nil]
      -- the value is bounded by the text inside the quotes, and what is read by the limit on it
      have hlength := ctx.bounded_value
        (M := max (max (inner.length : Int) ctx.config.limits.outputLength) 0) (by omega)
        ctx.config.budget 0 s (v := inner) (by omega)
      obtain ⟨hreads, hcount⟩ := ctx.bounded_reads
        (M := max (max ctx.config.limits.inputLength ctx.config.limits.outputLength) 0) (by omega)
        ctx.config.budget inner s (by omega)
      have hbudget : ctx.config.budget = ctx.config.maxIterations.toNat := rfl
      exact ⟨by omega, hreads, by omega⟩

/-- **The size of a run is bounded**, whatever the shell writes and however the run ends. The
value of the result is no longer than the text or what a pass may produce, every text that
is read is no longer than what may be expanded or what a pass may produce, and no more texts
are read than the budget, and one. -/
theorem interpolate_bounded {ctx : Context} (hshell : ctx.shell.Willing) (t : Text) (s : Trace) :
    ∃ r s', ctx.interpolate t s = (.ok r, s')
      ∧ (r.value.length : Int) ≤ max (max (t.length : Int) ctx.config.limits.outputLength) 0
      ∧ (∀ u ∈ Event.reads (ctx.history t s),
          (u.length : Int)
            ≤ max (max ctx.config.limits.inputLength ctx.config.limits.outputLength) 0)
      ∧ ((Event.reads (ctx.history t s)).length : Int) ≤ max ctx.config.maxIterations 0 + 1 := by
  obtain ⟨r, hr, -⟩ := exists_result hshell t s
  refine ⟨r, (ctx.interpolate t s).2, Prod.ext hr rfl, ?_⟩
  have hinner := OuterQuotes.length_split_le t
  rw [interpolate_eq] at hr
  rw [history]
  split at hr
  · next hsingle =>
      cases hr
      have hdecoded := Escape.length_decodeIf_le ctx.config.features.escapes (OuterQuotes.split t).2
      rw [if_pos hsingle]
      refine ⟨?_, by simp [Account.nothing], ?_⟩
      · dsimp only
        omega
      · simp [Account.nothing]
        omega
  · next hsingle =>
      rw [if_neg hsingle]
      obtain ⟨hvalue, hreads, hcount⟩ := bounded_inner hr
      exact ⟨by omega, hreads, hcount⟩

/-- The variable `A` holds a command, and every command writes more than a pass may produce. -/
def flooding : Context where
  bindings := Assignment.ofList [("A".toList, { value := "$(x)".toList })]
  environment := ∅
  config := { limits := { inputLength := 6, outputLength := 5 } }
  shell := Script.shell { unknown := some { stdout := "0123456789".toList } }

/-- What the command writes is never read, and not in the result either. -/
theorem interpolate_bounded_flooding :
    flooding.shell.Willing
    ∧ ∃ r s', flooding.interpolate "${A}".toList {} = (.ok r, s') ∧ r.value = "$(x)".toList
      ∧ (r.value.length : Int) ≤ 5
      ∧ (∀ u ∈ Event.reads (flooding.history "${A}".toList {}), (u.length : Int) ≤ 6)
      ∧ ((Event.reads (flooding.history "${A}".toList {})).length : Int) ≤ 11 := by
  have hshell : flooding.shell.Willing := Script.willing_shell _
  obtain ⟨r, s', hrun, hvalue, hreads, hcount⟩ := interpolate_bounded hshell "${A}".toList {}
  have hresult : (flooding.interpolate "${A}".toList {}).1.toOption
      = some { value := "$(x)".toList, iterations := 1 } := by decide +kernel
  rw [hrun] at hresult
  obtain rfl := Option.some.inj hresult
  exact ⟨hshell, _, s', hrun, rfl, hvalue, hreads, hcount⟩

end Context
end EnvValues
