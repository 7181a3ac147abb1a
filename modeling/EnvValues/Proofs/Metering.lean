import EnvValues.Proofs.Budget
import EnvValues.Proofs.Size
import EnvValues.Proofs.Unselected

/-!
# What the output limit lets through

Text is counted where it is produced, and held against the limit there. What would be produced
without a limit is what is produced with any limit that is large enough (`Unmetered`), and there
always is one (`exists_unmetered`).

The count is exact: all that is given is counted, and where no command is evaluated nothing else is
(`exact_expandAll`). So the limit is exact too. **An expansion that keeps to it by itself is not
touched by it, and any other is cut off on its way** (`steps_metered`), with the first part of its
notices and its calls (`limit_is_exact`).
-/

namespace EnvValues
namespace Context

/-- The context with another limit on what a pass produces. -/
def withOutputLimit (ctx : Context) (L : Int) : Context :=
  ctx.withLimits ctx.config.maxIterations L ctx.config.limits.inputLength

/-- What the expansion of nodes comes to without a limit: with every limit that is large enough, it
is this. -/
def Unmetered (ctx : Context) (p : Place) (ns : List Node) (s : Trace)
    (r : Except Halt Text × Trace) : Prop :=
  ∃ M : Int, ∀ L, M ≤ L → ((ctx.withOutputLimit L).expandAll p ns).after s = r

section
variable {ctx : Context} {p : Place} {ns : List Node} {s : Trace} {r r' : Except Halt Text × Trace}

theorem Unmetered.unique (h : ctx.Unmetered p ns s r) (h' : ctx.Unmetered p ns s r') : r' = r := by
  obtain ⟨M, hM⟩ := h
  obtain ⟨M', hM'⟩ := h'
  rw [← hM (max M M') (by omega), ← hM' (max M M') (by omega)]

/-- What is produced with some limit is produced without one. -/
theorem unmetered_of_ok {L : Int} {t : Text} {s' : Trace}
    (h : ((ctx.withOutputLimit L).expandAll p ns).after s = (.ok t, s')) :
    ctx.Unmetered p ns s (.ok t, s') := by
  refine ⟨L, fun L' hL => ?_⟩
  obtain ⟨limit, s'', hlong⟩ | hsame := (steps_contained hL).expandAll p ns s
  · cases h.symm.trans hlong
  · exact hsame.trans h

end

/-! ## Limits that are large enough -/

/-- A step that depends on a limit is the same with every limit that is large enough. -/
def Settles {α : Type} (x : Int → Expansion α) : Prop :=
  ∀ s, ∃ M r, ∀ L, M ≤ L → (x L).after s = r

theorem Settles.const {α : Type} (x : Expansion α) : Settles fun _ => x :=
  fun s => ⟨0, x.after s, fun _ _ => rfl⟩

theorem Settles.bind {α β : Type} {x : Int → Expansion α} {f : Int → α → Expansion β}
    (hx : Settles x) (hf : ∀ a, Settles fun L => f L a) : Settles fun L => x L >>= f L := by
  intro s
  obtain ⟨M, ⟨r, s₁⟩, hM⟩ := hx s
  cases r with
  | error h => exact ⟨M, _, fun L hL => Expansion.after_bind_of_error (hM L hL)⟩
  | ok a =>
      obtain ⟨M', r, hM'⟩ := hf a s₁
      refine ⟨max M M', r, fun L hL => ?_⟩
      rw [Expansion.after_bind_of_ok (hM L (by omega))]
      exact hM' L (by omega)

section
variable (ctx : Context)

theorem settles_emit (t : Text) : Settles fun L => (ctx.withOutputLimit L).emit t := by
  intro s
  refine ⟨((s.written + t.length : Nat) : Int),
    (.ok t, { s with written := s.written + t.length }), fun L hL => ?_⟩
  exact if_neg (ne_true_of_eq_false (decide_eq_false (Int.not_lt.2 hL)))

theorem settles_expandRef (name : Text) :
    Settles fun L => (ctx.withOutputLimit L).expandRef name := by
  cases hl : ctx.lookup name with
  | some v =>
      have hsome : ∀ L, (ctx.withOutputLimit L).expandRef name = (ctx.withOutputLimit L).emit v :=
        fun L => expandRef_of_some hl
      simpa only [hsome] using ctx.settles_emit v
  | none =>
      have hnone : ∀ L, (ctx.withOutputLimit L).expandRef name
          = ctx.warn name >>= fun _ => (ctx.withOutputLimit L).emit [] :=
        fun L => expandRef_of_none hl
      simpa only [hnone] using (Settles.const (ctx.warn name)).bind fun _ => ctx.settles_emit []

theorem settles_expandChoice (name : Text) (op : Operator) {x : Int → Expansion Text}
    (hx : Settles x) : Settles fun L => (ctx.withOutputLimit L).expandChoice name op (x L) := by
  have hvalue := ctx.settles_emit ((ctx.lookup name).getD [])
  have hchoice : ∀ L, (ctx.withOutputLimit L).expandChoice name op (x L)
      = if !ctx.honours op then (ctx.withOutputLimit L).emit ((ctx.lookup name).getD [])
        else if op.takesFallback (ctx.lookup name) then x L
        else if op.form = .otherwise then (ctx.withOutputLimit L).emit ((ctx.lookup name).getD [])
        else pure [] := by
    intro L
    obtain ⟨form, colon⟩ := op
    cases form with
    | otherwise => rfl
    | instead => rfl
  simp only [hchoice]
  split
  · exact hvalue
  · split
    · exact hx
    · split
      · exact hvalue
      · exact .const (pure [])

theorem settles_runLine (line : Text) : Settles fun L => (ctx.withOutputLimit L).runLine line := by
  have hline : ∀ L, (ctx.withOutputLimit L).runLine line
      = if Text.isBlank line then ctx.failCommand (.blank line)
        else ctx.call line >>= fun o =>
          if o.exitCode = 0 then (ctx.withOutputLimit L).emit o.substituted
          else ctx.failCommand { line := line, exitCode := o.exitCode, stderr := o.stderr } :=
    fun _ => rfl
  simp only [hline]
  split
  · exact .const _
  · refine (Settles.const (ctx.call line)).bind fun o => ?_
    split
    · exact ctx.settles_emit _
    · exact .const _

end

mutual

theorem settles_expand (ctx : Context) (p : Place) :
    ∀ n : Node, Settles fun L => (ctx.withOutputLimit L).expand p n
  | .lit t => by
      cases p with
      | value => simpa only [expand] using ctx.settles_emit t
      | line => simpa only [expand] using Settles.const (pure t)
  | .ref name raw none f => by
      simp only [expand]
      exact (ctx.settles_expandRef name).bind fun v => .const (pure (ctx.placed p v))
  | .ref name raw (some op) none => by
      simp only [expand]
      exact (ctx.settles_expandChoice name op (.const (pure []))).bind fun v =>
        .const (pure (ctx.placed p v))
  | .ref name raw (some op) (some f) => by
      have hf : Settles fun L => (ctx.withOutputLimit L).expandOnto .value [] f :=
        settles_expandAll ctx .value f
      simp only [expand]
      exact (ctx.settles_expandChoice name op hf).bind fun v => .const (pure (ctx.placed p v))
  | .command line raw => by
      have hline : Settles fun L => (ctx.withOutputLimit L).expandOnto .line [] line :=
        settles_expandAll ctx .line line
      simp only [expand]
      exact hline.bind fun l => ctx.settles_runLine l
  | .group ns => by
      simp only [expand]
      exact settles_expandAll ctx .value ns
  | .nothing => by simpa only [expand] using Settles.const (pure [])

/-- **Some limit is large enough.** -/
theorem settles_expandAll (ctx : Context) (p : Place) :
    ∀ ns : List Node, Settles fun L => (ctx.withOutputLimit L).expandAll p ns
  | [] => .const (pure [])
  | n :: ns => by
      simp only [expandAll_cons]
      exact (settles_expand ctx p n).bind fun t =>
        (settles_expandAll ctx p ns).bind fun u => .const (pure (t ++ u))

end

/-- **Without a limit, an expansion comes to a text**, where failures do not count and the shell
refuses nothing. -/
theorem exists_unmetered {ctx : Context} (hlenient : ctx.config.failOnCommandError = false)
    (hshell : ctx.shell.Willing) (p : Place) (ns : List Node) (s : Trace) :
    ∃ t s', ctx.Unmetered p ns s (.ok t, s') := by
  obtain ⟨M, ⟨r, s'⟩, hM⟩ := ctx.settles_expandAll p ns s
  cases r with
  | ok t => exact ⟨t, s', M, hM⟩
  | error h =>
      -- it would be halted by a limit, and by another one as well
      have hreason : (ctx.withOutputLimit M).HaltsFor h :=
        haltsFor_of_expandAll (hM M (Int.le_refl M))
      have hreason' : (ctx.withOutputLimit (M + 1)).HaltsFor h :=
        haltsFor_of_expandAll (hM (M + 1) (by omega))
      cases h with
      | commandFailed e => exact absurd (hlenient.symm.trans hreason) Bool.false_ne_true
      | outputTooLong limit =>
          have hlimit : limit = M := hreason
          have hlimit' : limit = M + 1 := hreason'
          omega
      | refused why => exact absurd hreason (not_haltsFor_refused hshell why)

/-! ## What is cut off -/

/-- On the way to a trace, the step produces more than it may. It has the first part of the notices
and the calls. -/
def Overruns (L : Int) {α : Type} (x : Expansion α) (s s' : Trace) : Prop :=
  ∃ s'' later, x.after s = (.error (.outputTooLong L), s'') ∧ L < s''.written
    ∧ s''.Extends later s'

/-- The second step is the first one with a limit: the same where that keeps to the limit, and cut
off on the way where it does not. -/
structure Metered (L : Int) {α : Type} (x : Expansion α) (es : Account) (y : Expansion α) :
    Prop where
  tells : Tells x es
  grows : ∀ s a s', x.after s = (.ok a, s') → s.written ≤ s'.written
  cut : ∀ s a s', (s.written : Int) ≤ L → x.after s = (.ok a, s') →
    ((s'.written : Int) ≤ L ∧ y.after s = (.ok a, s'))
      ∨ (L < (s'.written : Int) ∧ Overruns L y s s')

section
variable {ctx : Context} {L' : Int}

theorem Metered.bind {L : Int} {α β : Type} {x y : Expansion α} {es : Account}
    {f g : α → Expansion β} {fs : α → Account} (hx : Metered L x es y)
    (hf : ∀ a, Metered L (f a) (fs a) (g a)) :
    Metered L (x >>= f) (.bind x es fs) (y >>= g) := by
  refine ⟨hx.tells.bind fun a => (hf a).tells, fun s b s' h => ?_, fun s b s' hs h => ?_⟩
  · obtain ⟨a, s₁, ha, hb⟩ := Expansion.after_bind_eq_ok.1 h
    exact Nat.le_trans (hx.grows s a s₁ ha) ((hf a).grows s₁ b s' hb)
  · obtain ⟨a, s₁, ha, hb⟩ := Expansion.after_bind_eq_ok.1 h
    obtain ⟨hs₁, hy⟩ | ⟨hover, s'', later, hhalt, hcount, hlater⟩ := hx.cut s a s₁ hs ha
    · obtain ⟨hs', hg⟩ | ⟨hover, s'', later, hhalt, hcount, hlater⟩ := (hf a).cut s₁ b s' hs₁ hb
      · exact Or.inl ⟨hs', by rw [Expansion.after_bind_of_ok hy, hg]⟩
      · exact Or.inr ⟨hover, s'', later, by rw [Expansion.after_bind_of_ok hy, hhalt], hcount,
          hlater⟩
    · -- the first part is cut off, and the second one only adds to what was on the way
      have hgrows := (hf a).grows s₁ b s' hb
      have htells := (hf a).tells.extends_after s₁
      rw [hb] at htells
      exact Or.inr ⟨by omega, s'', _, Expansion.after_bind_of_error hhalt, hcount,
        hlater.append htells⟩

/-- A step that keeps to the limit by itself. -/
theorem Metered.same {α : Type} {x : Expansion α} {es : Account} (htells : Tells x es)
    (hcounts : ctx.Counts x) : Metered ctx.config.limits.outputLength x es x := by
  refine ⟨htells, fun s a s' h => (hcounts s a s' h).1, fun s a s' hs h => Or.inl ⟨?_, h⟩⟩
  have := hcounts s a s' h
  omega

theorem metered_emit (ctx : Context) (L' : Int) (t : Text) :
    Metered ctx.config.limits.outputLength ((ctx.withOutputLimit L').emit t) .nothing
      (ctx.emit t) := by
  refine ⟨tells_emit _ t, fun s u s' h => ((counts_emit _ t) s u s' h).1, fun s u s' _ h => ?_⟩
  -- both count the text, and then look at their limits
  have hs' : s' = { s with written := s.written + t.length } ∧ u = t := by
    rw [emit, Expansion.after_ofTrace] at h
    dsimp only at h
    split at h
    · cases h
    · cases h
      exact ⟨rfl, rfl⟩
  obtain ⟨rfl, rfl⟩ := hs'
  by_cases hover : ctx.config.limits.outputLength < ((s.written + u.length : Nat) : Int)
  · refine Or.inr ⟨hover, _, [], ?_, hover, .of_eq rfl rfl⟩
    rw [emit, Expansion.after_ofTrace]
    exact if_pos (decide_eq_true hover)
  · refine Or.inl ⟨Int.not_lt.1 hover, ?_⟩
    rw [emit, Expansion.after_ofTrace]
    exact if_neg (ne_true_of_eq_false (decide_eq_false hover))

/-- **With its limit, every step is metered.** -/
theorem steps_metered (ctx : Context) (L' : Int) :
    Steps (ctx.withOutputLimit L') ctx fun x es y =>
      Metered ctx.config.limits.outputLength x es y where
  lookup _ := rfl
  honours _ := rfl
  placed _ _ := rfl
  pure _ := .same ⟨fun _ => .of_eq rfl rfl, fun _ => ⟨rfl, rfl⟩⟩ (.of_written_eq fun _ => rfl)
  bind := Metered.bind
  emit := ctx.metered_emit L'
  warn name := .same (tells_warn ctx name) (ctx.counts_warn name)
  line := @Steps.runLine (ctx.withOutputLimit L') ctx
    (fun x es y => Metered ctx.config.limits.outputLength x es y) Metered.bind (ctx.metered_emit L')
    (fun e => .same (tells_failCommand ctx e) (ctx.counts_failCommand e))
    (fun line => .same (tells_call ctx line) (ctx.counts_call line))

end

/-! ## Without commands, nothing else is counted -/

/-- The text that a step gives is what it adds to the count. -/
def Exact (x : Expansion Text) : Prop :=
  ∀ s t s', x.after s = (.ok t, s') → s'.written = s.written + t.length

theorem exact_emit (ctx : Context) (t : Text) : Exact (ctx.emit t) := by
  intro s u s' h
  obtain ⟨rfl, hwritten, -⟩ := after_emit_of_ok h
  exact hwritten

theorem Exact.join {x y : Expansion Text} (hx : Exact x) (hy : Exact y) :
    Exact (x >>= fun t => y >>= fun u => pure (t ++ u)) := by
  intro s w s' h
  obtain ⟨t, s₁, ht, h⟩ := Expansion.after_bind_eq_ok.1 h
  obtain ⟨u, s₂, hu, h⟩ := Expansion.after_bind_eq_ok.1 h
  cases h
  rw [hy s₁ u _ hu, hx s t s₁ ht, List.length_append, Nat.add_assoc]

theorem gathers_exact (ctx : Context) : Gathers ctx Exact where
  emit := ctx.exact_emit
  nil := fun s t s' h => by cases h; rfl
  unset name := fun s t s' h => by
    obtain ⟨u, s₁, hwarn, hemit⟩ := Expansion.after_bind_eq_ok.1 h
    have hwritten := ctx.written_warn name s
    rw [hwarn] at hwritten
    rw [ctx.exact_emit [] s₁ t s' hemit, hwritten]
  join := Exact.join

/-- No command is among the nodes. -/
def CommandFree : Node.Placed := fun _ _ ns => ∀ line raw, Node.command line raw ∉ ns

/-- **Where there are no commands, what nodes give is all that is counted.** -/
theorem exact_expandAll (ctx : Context) {ns : List Node}
    (h : Node.Everywhere CommandFree 0 false ns) : Exact (ctx.expandAll .value ns) := by
  have hcommands : Node.Everywhere (Commanding ctx Exact) 0 false ns :=
    h.mono fun _ _ _ hfree line raw hmem => absurd hmem (hfree line raw)
  exact ctx.gathers_exact.expandAll ns hcommands.1 (Node.insideAll_iff.2 hcommands.2)

/-- No command is evaluated where the nodes are expanded: there is none in what is left of them
without the fallbacks that are not selected. -/
def Commandless (ctx : Context) (ns : List Node) : Prop :=
  Node.Everywhere CommandFree 0 false (Node.prunedAll ctx.picks ns)

theorem Commandless.exact {ctx : Context} {ns : List Node} (h : ctx.Commandless ns) :
    Exact (ctx.expandAll .value ns) := by
  rw [← (ctx.expandAll_prunedAll .value ns).1]
  exact ctx.exact_expandAll h

/-! ## The limit -/

/-- **The limit on what is produced is exact.** Let the count keep to the limit where an expansion
begins. Without a limit the expansion comes to one thing only, which is a text where failures do not
count and the shell refuses nothing. Let it be the text `t`, with the trace `s'`. Then all of `t` is
counted, and nothing else where no command is evaluated. If the count keeps to the limit, the
expansion is the same with it. If not, the expansion halts for too much output, at a count beyond
the limit, with the first part of the notices and the calls. So where no command is evaluated, it
halts exactly if all of `t` would be too much. -/
theorem limit_is_exact (ctx : Context) (ns : List Node) (s : Trace)
    (hstart : (s.written : Int) ≤ ctx.config.limits.outputLength) :
    (ctx.config.failOnCommandError = false → ctx.shell.Willing →
      ∃ t s', ctx.Unmetered .value ns s (.ok t, s'))
    ∧ ∀ t s', ctx.Unmetered .value ns s (.ok t, s') →
      (∀ r, ctx.Unmetered .value ns s r → r = (.ok t, s'))
      ∧ s.written + t.length ≤ s'.written
      ∧ (ctx.Commandless ns → s.written + t.length = s'.written)
      ∧ ((s'.written : Int) ≤ ctx.config.limits.outputLength →
          (ctx.expandAll .value ns).after s = (.ok t, s'))
      ∧ (ctx.config.limits.outputLength < (s'.written : Int) →
          Overruns ctx.config.limits.outputLength (ctx.expandAll .value ns) s s')
      ∧ (ctx.Commandless ns →
          ((∃ h s'', (ctx.expandAll .value ns).after s = (.error h, s''))
            ↔ ctx.config.limits.outputLength < ((s.written + t.length : Nat) : Int))) := by
  refine ⟨fun hlenient hshell => exists_unmetered hlenient hshell .value ns s, fun t s' hfree => ?_⟩
  obtain ⟨M, hM⟩ := hfree
  have hrun := hM M (Int.le_refl M)
  have hexact : ctx.Commandless ns → s.written + t.length = s'.written := fun hnone => by
    have hnone' : (ctx.withOutputLimit M).Commandless ns := hnone
    exact (hnone'.exact s t s' hrun).symm
  have hcut := ((ctx.steps_metered M).expandAll .value ns).cut s t s' hstart hrun
  refine ⟨fun r hr => Unmetered.unique ⟨M, hM⟩ hr, fits_expandAll _ ns s t s' hrun, hexact,
    fun hle => ?_, fun hover => ?_, fun hnone => ?_⟩
  · obtain ⟨-, hsame⟩ | ⟨hover, -⟩ := hcut
    · exact hsame
    · omega
  · obtain ⟨hle, -⟩ | ⟨-, hoverruns⟩ := hcut
    · omega
    · exact hoverruns
  · rw [hexact hnone]
    obtain ⟨hle, hsame⟩ | ⟨hover, s'', later, hhalt, -, -⟩ := hcut
    · refine ⟨fun ⟨h, s'', hhalt⟩ => ?_, fun hover => by omega⟩
      cases hsame.symm.trans hhalt
    · exact ⟨fun _ => hover, fun _ => ⟨_, s'', hhalt⟩⟩

/-- The variable `A` holds three characters, every command writes one, and four may be produced. -/
def brimming : Context where
  bindings := Assignment.ofList [(['A'], { value := "abc".toList })]
  environment := ∅
  config := { limits := { outputLength := 4 } }
  shell := Script.shell { unknown := some { stdout := ['d'] } }

/-- The variable, a command and a literal, for five characters. -/
def brimmingTree : List Node :=
  [.ref ['A'] [] none none, .command [.lit ['x']] [], .lit ['e']]

/-- The expansion is cut off at its fifth character, when the command has been run; without the
literal, it comes to what it comes to without a limit. -/
theorem limit_is_exact_brimming :
    brimming.config.failOnCommandError = false ∧ brimming.shell.Willing
    ∧ (((0 : Nat) : Int) ≤ brimming.config.limits.outputLength)
    ∧ (∃ s', Overruns 4 (brimming.expandAll .value brimmingTree) {} s')
    ∧ ∃ s', brimming.Unmetered .value brimmingTree.dropLast {} (.ok "abcd".toList, s')
      ∧ (brimming.expandAll .value brimmingTree.dropLast).after {} = (.ok "abcd".toList, s') := by
  have hstart : (((0 : Nat) : Int) ≤ brimming.config.limits.outputLength) := by decide
  -- with room for ten characters, nothing is cut off
  have hfree : ∀ ns t n,
      (((brimming.withOutputLimit 10).expandAll .value ns).after {}).1.toOption = some t →
      (((brimming.withOutputLimit 10).expandAll .value ns).after {}).2.written = n →
      ∃ s', brimming.Unmetered .value ns {} (.ok t, s') ∧ s'.written = n := by
    intro ns t n ht hn
    cases hr : ((brimming.withOutputLimit 10).expandAll .value ns).after {} with
    | mk r s' =>
        rw [hr] at ht hn
        cases r with
        | error halt => cases ht
        | ok u =>
            obtain rfl := Option.some.inj ht
            exact ⟨s', unmetered_of_ok hr, hn⟩
  obtain ⟨s₁, hfree₁, hcount₁⟩ :=
    hfree brimmingTree "abcde".toList 5 (by decide +kernel) (by decide +kernel)
  obtain ⟨s₂, hfree₂, hcount₂⟩ :=
    hfree brimmingTree.dropLast "abcd".toList 4 (by decide +kernel) (by decide +kernel)
  obtain ⟨-, hlimited₁⟩ := limit_is_exact brimming brimmingTree {} hstart
  obtain ⟨-, hlimited₂⟩ := limit_is_exact brimming brimmingTree.dropLast {} hstart
  obtain ⟨-, -, -, -, hoverruns, -⟩ := hlimited₁ _ s₁ hfree₁
  obtain ⟨-, -, -, hsame, -, -⟩ := hlimited₂ _ s₂ hfree₂
  refine ⟨rfl, Script.willing_shell _, hstart, ⟨s₁, hoverruns ?_⟩, s₂, hfree₂, hsame ?_⟩
  · rw [hcount₁]
    decide
  · rw [hcount₂]
    decide

end Context
end EnvValues
