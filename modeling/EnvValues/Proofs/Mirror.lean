import EnvValues.Proofs.History
import EnvValues.Proofs.Shape

/-!
# Two runs side by side

Two contexts with the same options can be told apart in three ways only: by the value of a
name, by how a value is written as one word, and by what a call does. Where all three are the
same up to a relation of traces, **two runs from related traces give the same and leave
related traces** (`Mirrored.interpolate`).

What a run never comes to need not be the same. Nodes that are read hold nothing but enabled
syntax (`everywhere_enabled_parse`), and so the values of names matter only where references
are enabled, and the shell only where commands are.

What holds of steps holds of the expansion of enabled syntax (`EnabledSteps`). The relation has to
be kept by what both runs count and notice (`Steady`). A step keeps it (`Mirrors`), and so do nodes,
passes and runs, in this order.
-/

namespace EnvValues
namespace Node

/-! ## Enabled syntax -/

/-- Is the syntax of a node enabled? -/
def Enabled (f : Features) : Node → Prop
  | ref _ _ _ _ => f.references = true
  | command _ _ => f.commands = true
  | _ => True

/-- A sequence of nodes whose syntax is enabled. -/
def EnabledAll (f : Features) : Placed := fun _ _ ns => ∀ n ∈ ns, n.Enabled f

/-- **What is read holds enabled syntax only**, at every depth. -/
theorem everywhere_enabled_parse (f : Features) (bareNames : Bool) (depth : Int) (t : Text) :
    Everywhere (EnabledAll f) 0 false (parse f bareNames depth t) := by
  refine everywhere_parse (fun room hroom inLine ns hg n hn => ?_) t
  cases hl : n.isLit with
  | true =>
      obtain ⟨u, rfl⟩ := exists_lit_of_isLit hl
      trivial
  | false =>
      obtain ⟨u, rest, hr⟩ := hg.reads n hn hl
      have hshaped := hr.shaped hroom
      cases n with
      | ref name raw op fallback => exact RefShaped.enabled hshaped
      | command line raw => exact hshaped.1
      | _ => trivial

end Node

/-! ## Steps -/

/-- A relation of traces that is kept when both count the same, and when both notice the
same. -/
structure Steady (T : Trace → Trace → Prop) : Prop where
  written : ∀ {s s'}, T s s' → s'.written = s.written
  count : ∀ {s s'} (k : Nat), T s s' → T { s with written := k } { s' with written := k }
  notice : ∀ {s s'} (n : Notice), T s s' →
    T { s with notices := s.notices.push n } { s' with notices := s'.notices.push n }

/-- From related traces, two steps give the same and leave related traces. -/
def Mirrors (T : Trace → Trace → Prop) {α : Type} (x y : Expansion α) : Prop :=
  ∀ s s', T s s' → (y.after s').1 = (x.after s).1 ∧ T (x.after s).2 (y.after s').2

theorem Mirrors.pure {T : Trace → Trace → Prop} {α : Type} (a : α) :
    Mirrors T (pure a : Expansion α) (pure a) := fun _ _ hT => ⟨rfl, hT⟩

theorem Mirrors.bind {T : Trace → Trace → Prop} {α β : Type} {x y : Expansion α}
    {f g : α → Expansion β} (hx : Mirrors T x y) (hf : ∀ a, Mirrors T (f a) (g a)) :
    Mirrors T (x >>= f) (y >>= g) := by
  intro s s' hT
  obtain ⟨hresult, htrace⟩ := hx s s' hT
  rw [Expansion.after_bind, Expansion.after_bind]
  generalize x.after s = p, y.after s' = q at hresult htrace ⊢
  obtain ⟨r, s₁⟩ := p
  obtain ⟨r', s₁'⟩ := q
  obtain rfl : r' = r := hresult
  cases r' with
  | error h => exact ⟨rfl, htrace⟩
  | ok a => exact hf a s₁ s₁' htrace

namespace Context

/-- A relation of steps that holds of what the expansion of enabled syntax is made of, for two
contexts that agree on what the features of the first one leave to expand. -/
structure EnabledSteps (R : ∀ {α : Type}, Expansion α → Expansion α → Prop) (ctx ctx' : Context) :
    Prop where
  honours : ∀ op, ctx'.honours op = ctx.honours op
  lookup : ctx.config.features.references = true → ∀ name, ctx'.lookup name = ctx.lookup name
  /-- Values are put in command lines where there are commands. -/
  placed : ctx.config.features.references = true → ∀ p : Place,
    (p = .line → ctx.config.features.commands = true) → ∀ t, ctx'.placed p t = ctx.placed p t
  pure : ∀ {α : Type} (a : α), R (pure a : Expansion α) (pure a)
  bind : ∀ {α β : Type} {x y : Expansion α} {f g : α → Expansion β},
    R x y → (∀ a, R (f a) (g a)) → R (x >>= f) (y >>= g)
  emit : ∀ t, R (ctx.emit t) (ctx'.emit t)
  warn : ∀ name, R (ctx.warn name) (ctx'.warn name)
  line : ctx.config.features.commands = true → ∀ line, R (ctx.runLine line) (ctx'.runLine line)

namespace EnabledSteps
variable {R : ∀ {α : Type}, Expansion α → Expansion α → Prop} {ctx ctx' : Context}

theorem expandRef (h : EnabledSteps R ctx ctx')
    (hreferences : ctx.config.features.references = true) (name : Text) :
    R (ctx.expandRef name) (ctx'.expandRef name) := by
  have hlookup := h.lookup hreferences name
  cases hl : ctx.lookup name with
  | some v =>
      rw [expandRef_of_some hl, expandRef_of_some (hlookup.trans hl)]
      exact h.emit v
  | none =>
      rw [expandRef_of_none hl, expandRef_of_none (hlookup.trans hl)]
      exact h.bind (h.warn name) fun _ => h.emit []

theorem expandChoice (h : EnabledSteps R ctx ctx')
    (hreferences : ctx.config.features.references = true) (name : Text) (op : Operator)
    {x y : Expansion Text} (hx : R x y) :
    R (ctx.expandChoice name op x) (ctx'.expandChoice name op y) := by
  simp only [Context.expandChoice, h.lookup hreferences, h.honours]
  split
  · exact h.emit _
  · split
    · exact hx
    · cases op.form with
      | otherwise => exact h.emit _
      | instead => exact h.pure []

mutual

/-- What holds of steps holds of the expansion of a node of enabled syntax. -/
theorem expand (h : EnabledSteps R ctx ctx') {a : Nat} {l : Bool} (p : Place)
    (hp : p = .line → ctx.config.features.commands = true) :
    ∀ n : Node, n.Enabled ctx.config.features →
      Node.Inside (Node.EnabledAll ctx.config.features) a l n →
      R (ctx.expand p n) (ctx'.expand p n)
  | .lit t, _, _ => by
      cases p with
      | value => rw [Context.expand, Context.expand]; exact h.emit t
      | line => rw [Context.expand, Context.expand]; exact h.pure t
  | .ref name raw none fallback, hn, _ => by
      rw [Context.expand, Context.expand]
      simp only [h.placed hn p hp]
      exact h.bind (h.expandRef hn name) fun v => h.pure _
  | .ref name raw (some op) none, hn, _ => by
      rw [Context.expand, Context.expand]
      simp only [h.placed hn p hp]
      exact h.bind (h.expandChoice hn name op (h.pure [])) fun v => h.pure _
  | .ref name raw (some op) (some f), hn, hin => by
      rw [Node.Inside] at hin
      rw [Context.expand, Context.expand]
      simp only [h.placed hn p hp]
      have hf := expandAll h .value (fun hv => nomatch hv) f hin.1 hin.2
      exact h.bind (h.expandChoice hn name op hf) fun v => h.pure _
  | .command line raw, hn, hin => by
      rw [Node.Inside] at hin
      rw [Context.expand, Context.expand]
      exact h.bind (expandAll h .line (fun _ => hn) line hin.1 hin.2) (h.line hn)
  | .group ns, _, hin => by
      rw [Node.Inside] at hin
      rw [Context.expand, Context.expand]
      exact expandAll h .value (fun hv => nomatch hv) ns hin.1 hin.2
  | .nothing, _, _ => by
      rw [Context.expand, Context.expand]
      exact h.pure []

/-- **What holds of steps holds of the expansion of nodes of enabled syntax.** -/
theorem expandAll (h : EnabledSteps R ctx ctx') {a : Nat} {l : Bool} (p : Place)
    (hp : p = .line → ctx.config.features.commands = true) :
    ∀ ns : List Node, (∀ n ∈ ns, n.Enabled ctx.config.features) →
      Node.InsideAll (Node.EnabledAll ctx.config.features) a l ns →
      R (ctx.expandAll p ns) (ctx'.expandAll p ns)
  | [], _, _ => h.pure _
  | n :: ns, hns, hin => by
      obtain ⟨hn, hns⟩ := List.forall_mem_cons.1 hns
      rw [Node.InsideAll] at hin
      rw [expandAll_cons, expandAll_cons]
      refine h.bind (expand h p hp n hn hin.1) fun t => ?_
      exact h.bind (expandAll h p hp ns hns hin.2) fun u => h.pure (t ++ u)

end

/-- What is read is enabled, so that what holds of steps holds of its expansion. -/
theorem expandAll_nodes (h : EnabledSteps R ctx ctx') (v : Text) :
    R (ctx.expandAll .value (ctx.nodes v)) (ctx'.expandAll .value (ctx.nodes v)) := by
  obtain ⟨henabled, hinside⟩ := Node.everywhere_enabled_parse ctx.config.features true
    ctx.config.limits.nestingDepth v
  exact h.expandAll .value (fun hv => nomatch hv) (ctx.nodes v) henabled
    (Node.insideAll_iff.2 hinside)

end EnabledSteps

/-- Two contexts with the same options that agree, up to a relation of traces, on what the
features leave to expand. -/
structure Mirrored (T : Trace → Trace → Prop) (ctx ctx' : Context) : Prop where
  steady : Steady T
  config : ctx'.config = ctx.config
  lookup : ctx.config.features.references = true → ∀ name, ctx'.lookup name = ctx.lookup name
  /-- A value is written as a word where a command line refers to it. -/
  quote : ctx.config.features.references = true → ctx.config.features.commands = true →
    ∀ t, ctx'.shell.quote t = ctx.shell.quote t
  call : ctx.config.features.commands = true → ∀ line, Mirrors T (ctx.call line) (ctx'.call line)

namespace Mirrored
variable {T : Trace → Trace → Prop} {ctx ctx' : Context}

theorem emit (h : Mirrored T ctx ctx') (t : Text) : Mirrors T (ctx.emit t) (ctx'.emit t) := by
  intro s s' hT
  rw [Context.emit, Context.emit, Expansion.after_ofTrace, Expansion.after_ofTrace]
  dsimp only
  rw [h.config, h.steady.written hT]
  split
  · exact ⟨rfl, h.steady.count _ hT⟩
  · exact ⟨rfl, h.steady.count _ hT⟩

theorem notify (h : Mirrored T ctx ctx') (n : Notice) :
    Mirrors T (Expansion.notify n) (Expansion.notify n) :=
  fun _ _ hT => ⟨rfl, h.steady.notice n hT⟩

theorem warn (h : Mirrored T ctx ctx') (name : Text) :
    Mirrors T (ctx.warn name) (ctx'.warn name) := by
  rw [Context.warn, Context.warn, h.config]
  split
  · exact h.notify _
  · exact .pure ()

theorem failCommand (h : Mirrored T ctx ctx') (e : CommandError) :
    Mirrors T (ctx.failCommand e) (ctx'.failCommand e) := by
  rw [Context.failCommand, Context.failCommand, h.config]
  split
  · exact fun _ _ hT => ⟨rfl, hT⟩
  · exact (h.notify _).bind fun _ => .pure []

theorem runLine (h : Mirrored T ctx ctx') (hcommands : ctx.config.features.commands = true)
    (line : Text) : Mirrors T (ctx.runLine line) (ctx'.runLine line) :=
  @Steps.runLine ctx ctx' (fun x _ y => Mirrors T x y) Mirrors.bind h.emit h.failCommand
    (h.call hcommands) line

theorem honours (h : Mirrored T ctx ctx') (op : Operator) : ctx'.honours op = ctx.honours op := by
  rw [Context.honours, Context.honours, h.config]

/-- In a value, and in a command line where commands are enabled, values are placed alike. -/
theorem placed (h : Mirrored T ctx ctx') (hreferences : ctx.config.features.references = true)
    (p : Place) (hp : p = .line → ctx.config.features.commands = true) (t : Text) :
    ctx'.placed p t = ctx.placed p t := by
  cases p with
  | value => rfl
  | line => rw [Context.placed, Context.placed, h.config, h.quote hreferences (hp rfl)]

/-- **Enabled syntax is expanded alike.** -/
theorem enabledSteps (h : Mirrored T ctx ctx') : EnabledSteps (Mirrors T) ctx ctx' where
  honours := h.honours
  lookup := h.lookup
  placed := h.placed
  pure := .pure
  bind := Mirrors.bind
  emit := h.emit
  warn := h.warn
  line := h.runLine

/-! ## Passes -/

theorem nodes (h : Mirrored T ctx ctx') (v : Text) : ctx'.nodes v = ctx.nodes v := by
  rw [Context.nodes, Context.nodes, h.config]

theorem pending (h : Mirrored T ctx ctx') (v : Text) : ctx'.Pending v ↔ ctx.Pending v := by
  rw [Pending, Pending, h.nodes]

/-- From related traces, a pass gives the same and leaves related traces. -/
theorem passOver (h : Mirrored T ctx ctx') (v : Text) {s s' : Trace} (hT : T s s') :
    (ctx'.passOver v s').1 = (ctx.passOver v s).1
      ∧ T (ctx.passOver v s).2 (ctx'.passOver v s').2 := by
  rw [Context.passOver, Context.passOver, h.nodes, pass, pass]
  exact h.enabledSteps.expandAll_nodes v _ _ (h.steady.count 0 hT)

end Mirrored

/-- Passes that ended alike, with related traces. -/
structure EndsAlike (T : Trace → Trace → Prop) (p p' : Passes) : Prop where
  ending : p'.ending = p.ending
  value : p'.value = p.value
  iterations : p'.iterations = p.iterations
  trace : T p.trace p'.trace

/-- **Passes end alike** where each of them, from related traces, gives the same and leaves related
traces, over texts that have something left to resolve in either context. -/
theorem passes_alike {T : Trace → Trace → Prop} {ctx ctx' : Context}
    (hpending : ∀ v, ctx'.Pending v ↔ ctx.Pending v)
    (hpassOver : ∀ v s s', T s s' → (ctx'.passOver v s').1 = (ctx.passOver v s).1
      ∧ T (ctx.passOver v s).2 (ctx'.passOver v s').2) (budget : Nat) (v : Text) (s : Trace) :
    ∀ done s', T s s' →
      EndsAlike T (ctx.passes budget v done s) (ctx'.passes budget v done s') := by
  -- what one pass gives, the other gives too
  have hpass : ∀ {v s s' s₁ r}, T s s' → ctx.passOver v s = (r, s₁) →
      ∃ s₁', ctx'.passOver v s' = (r, s₁') ∧ T s₁ s₁' := by
    intro v s s' s₁ r hT hpass
    obtain ⟨hresult, htrace⟩ := hpassOver v s s' hT
    rw [hpass] at hresult htrace
    exact ⟨(ctx'.passOver v s').2, Prod.ext hresult rfl, htrace⟩
  induction budget, v, s using ctx.passes_induction with
  | settled budget v s hp =>
      intro done s' hT
      rw [passes_of_not_pending hp, passes_of_not_pending ((hpending v).not.2 hp)]
      exact ⟨rfl, rfl, rfl, hT⟩
  | exhausted v s hp =>
      intro done s' hT
      rw [passes_zero_of_pending hp, passes_zero_of_pending ((hpending v).2 hp)]
      exact ⟨rfl, rfl, rfl, hT⟩
  | halted budget v s halt s₁ hp hrun =>
      intro done s' hT
      obtain ⟨s₁', hrun', hT₁⟩ := hpass hT hrun
      rw [passes_of_error hp hrun, passes_of_error ((hpending v).2 hp) hrun']
      exact ⟨rfl, rfl, rfl, hT₁⟩
  | unchanged budget v s s₁ hp hrun =>
      intro done s' hT
      obtain ⟨s₁', hrun', hT₁⟩ := hpass hT hrun
      rw [passes_of_unchanged hp hrun, passes_of_unchanged ((hpending v).2 hp) hrun']
      exact ⟨rfl, rfl, rfl, hT₁⟩
  | changed budget v s u s₁ hp hrun hu ih =>
      intro done s' hT
      obtain ⟨s₁', hrun', hT₁⟩ := hpass hT hrun
      rw [passes_of_changed hp hrun hu, passes_of_changed ((hpending v).2 hp) hrun' hu]
      exact ih (done + 1) s₁' hT₁

namespace Mirrored
variable {T : Trace → Trace → Prop} {ctx ctx' : Context}

/-- **From related traces, passes end alike.** -/
theorem passes (h : Mirrored T ctx ctx') (budget : Nat) (v : Text) (s : Trace) :
    ∀ done s', T s s' →
      EndsAlike T (ctx.passes budget v done s) (ctx'.passes budget v done s') :=
  passes_alike h.pending (fun v _ _ hT => h.passOver v hT) budget v s

/-! ## Runs -/

theorem conclude (h : Mirrored T ctx ctx') {p p' : Passes} (hp : EndsAlike T p p') :
    (ctx'.conclude p').1 = (ctx.conclude p).1 ∧ T (ctx.conclude p).2 (ctx'.conclude p').2 := by
  obtain ⟨ending, v, count, s⟩ := p
  obtain ⟨ending', v', count', s'⟩ := p'
  obtain ⟨rfl, rfl, rfl, hT⟩ := hp
  cases ending' with
  | settled => simpa only [Context.conclude, h.config, true_and] using hT
  | exhausted =>
      simp only [Context.conclude, h.config, true_and]
      split
      · exact h.steady.notice _ hT
      · exact hT
  | halted halt =>
      cases halt with
      | commandFailed e => exact ⟨rfl, hT⟩
      | outputTooLong limit =>
          simpa only [Context.conclude, h.config, true_and] using h.steady.notice _ hT
      | refused r => exact ⟨rfl, hT⟩

/-- **From related traces, two runs give the same and leave related traces.** -/
theorem interpolate (h : Mirrored T ctx ctx') (t : Text) {s s' : Trace} (hT : T s s') :
    (ctx'.interpolate t s').1 = (ctx.interpolate t s).1
      ∧ T (ctx.interpolate t s).2 (ctx'.interpolate t s').2 := by
  rw [interpolate_eq, interpolate_eq, h.config]
  split
  · exact ⟨rfl, hT⟩
  · rw [interpolateInner, interpolateInner, h.config]
    split
    · exact ⟨rfl, h.steady.notice _ hT⟩
    · exact h.conclude (h.passes ctx.config.budget _ s 0 s' hT)

end Mirrored
end Context
end EnvValues
