import EnvValues.Proofs.Words

/-!
# Sequences inside command lines

Nodes that are built by hand may hold sequences inside sequences. In a value that makes no
difference: a nested sequence gives what its children give in its place (`expandAll_of_splices`).

In a command line it does. What stands in a nested sequence is expanded **as in a value**, so its
literals count towards the output and the values of its references are not quoted. Where the
children are spliced in its place, they are, and that is all that changes: the line is made of the
same parts, and the same notices are raised and the same calls made, unless the nested sequence
produces more than it may (`commandLine_splice`). So a value with a meaning to a shell stands in
the line as it is (`commandLine_unquoted`).
-/

namespace EnvValues

/-- The same trace, but that no more is counted. -/
structure Trace.Spared (s s' : Trace) : Prop where
  written : s'.written ≤ s.written
  notices : s'.notices = s.notices
  calls : s'.calls = s.calls

theorem Trace.Spared.refl (s : Trace) : s.Spared s := ⟨Nat.le_refl _, rfl, rfl⟩

namespace Context

/-! ## Steps that count less -/

/-- The same halt, or values that are related. -/
inductive Related {α β : Type} (R : α → β → Prop) : Except Halt α → Except Halt β → Prop
  | ok {a : α} {b : β} : R a b → Related R (.ok a) (.ok b)
  | error (h : Halt) : Related R (.error h) (.error h)

/-- The second step gives what is related, with the same notices and calls, and counts no more,
unless the first one produces more than it may. -/
def Spares {α β : Type} (R : α → β → Prop) (x : Expansion α) (y : Expansion β) : Prop :=
  ∀ s s' : Trace, s.Spared s' →
    (∃ limit s₁, x.after s = (.error (.outputTooLong limit), s₁))
      ∨ Related R (x.after s).1 (y.after s').1 ∧ (x.after s).2.Spared (y.after s').2

section
variable {α β α' β' : Type} {R : α → β → Prop} {x : Expansion α} {y : Expansion β}

theorem Spares.pure {a : α} {b : β} (h : R a b) :
    Spares R (pure a : Expansion α) (pure b : Expansion β) :=
  fun _ _ hs => Or.inr ⟨.ok h, hs⟩

theorem Spares.bind {R' : α' → β' → Prop} {f : α → Expansion α'} {g : β → Expansion β'}
    (hx : Spares R x y) (hf : ∀ a b, R a b → Spares R' (f a) (g b)) :
    Spares R' (x >>= f) (y >>= g) := by
  intro s s' hs
  obtain ⟨limit, s₁, hlong⟩ | ⟨hrel, htrace⟩ := hx s s' hs
  · exact Or.inl ⟨limit, s₁, Expansion.after_bind_of_error hlong⟩
  · rw [Expansion.after_bind, Expansion.after_bind]
    generalize x.after s = p, y.after s' = q at hrel htrace ⊢
    obtain ⟨r, s₁⟩ := p
    obtain ⟨r', s₁'⟩ := q
    cases hrel with
    | ok h => exact hf _ _ h s₁ s₁' htrace
    | error h => exact Or.inr ⟨.error h, htrace⟩

end

/-! ## Nodes that count less -/

theorem spares_emit (ctx : Context) (t : Text) : Spares Eq (ctx.emit t) (ctx.emit t) := by
  intro s s' hs
  rw [emit, Expansion.after_ofTrace, Expansion.after_ofTrace]
  dsimp only
  by_cases hlong : ctx.config.limits.outputLength < ((s.written + t.length : Nat) : Int)
  · exact Or.inl ⟨_, _, if_pos (decide_eq_true hlong)⟩
  · have hle : s'.written + t.length ≤ s.written + t.length := Nat.add_le_add_right hs.written _
    have hshort : ¬ ctx.config.limits.outputLength < ((s'.written + t.length : Nat) : Int) := by
      omega
    rw [Limits.forbidsOutput, Limits.forbidsOutput, decide_eq_false hlong, decide_eq_false hshort]
    exact Or.inr ⟨.ok rfl, hle, hs.notices, hs.calls⟩

/-- A literal that is not counted. -/
theorem spares_emit_pure (ctx : Context) (t : Text) :
    Spares Eq (ctx.emit t) (pure t : Expansion Text) := by
  intro s s' hs
  rw [emit, Expansion.after_ofTrace]
  dsimp only
  split
  · exact Or.inl ⟨_, _, rfl⟩
  · exact Or.inr ⟨.ok rfl, Nat.le_add_right_of_le hs.written, hs.notices, hs.calls⟩

theorem spares_notify (n : Notice) :
    Spares Eq (Expansion.notify n) (Expansion.notify n) := by
  intro s s' hs
  exact Or.inr ⟨.ok rfl, hs.written, congrArg (·.push n) hs.notices, hs.calls⟩

theorem spares_failCommand (ctx : Context) (e : CommandError) :
    Spares Eq (ctx.failCommand e) (ctx.failCommand e) := by
  unfold failCommand
  split
  · exact fun _ _ hs => Or.inr ⟨.error _, hs⟩
  · exact (spares_notify _).bind fun _ _ _ => .pure rfl

/-- The shell is asked with the calls before it, and not with what is counted. -/
theorem spares_call (ctx : Context) (line : Text) : Spares Eq (ctx.call line) (ctx.call line) := by
  intro s s' hs
  have hcalls : ∀ c, s'.calls.push c = s.calls.push c := fun c => congrArg (·.push c) hs.calls
  rw [call, Expansion.after_ofTrace, Expansion.after_ofTrace]
  dsimp only
  rw [hs.calls]
  split
  · exact Or.inr ⟨.ok rfl, hs.written, hs.notices, rfl⟩
  · exact Or.inr ⟨.error _, hs.written, hs.notices, rfl⟩

theorem spares_warn (ctx : Context) (name : Text) : Spares Eq (ctx.warn name) (ctx.warn name) := by
  unfold warn
  split
  · exact spares_notify _
  · exact .pure rfl

/-- **What counts less is expanded alike.** -/
theorem steps_spares (ctx : Context) : Steps ctx ctx fun x _ y => Spares Eq x y where
  lookup _ := rfl
  honours _ := rfl
  placed _ _ := rfl
  pure _ := .pure rfl
  bind hx hf := hx.bind fun a _ hab => hab ▸ hf a
  emit := spares_emit ctx
  warn := spares_warn ctx
  line := @Steps.runLine ctx ctx (fun x _ y => Spares Eq x y)
    (fun hx hf => hx.bind fun a _ hab => hab ▸ hf a) (spares_emit ctx) (spares_failCommand ctx)
    (spares_call ctx)

/-- What a node gives in a value, as it is put in a command line: the value of a reference as one
word. -/
def putInLine (ctx : Context) : Node → Text → Text
  | .ref .., v => ctx.placed .line v
  | _, v => v

/-- **In a command line, a node gives what it gives in a value, put there**, and counts no more. -/
theorem spares_expand_line (ctx : Context) (n : Node) :
    Spares (fun v w => ctx.putInLine n v = w) (ctx.expand .value n) (ctx.expand .line n) := by
  have hself : Spares Eq (ctx.expand .value n) (ctx.expand .value n) :=
    (steps_spares ctx).expand .value n
  cases n with
  | lit t =>
      rw [expand, expand]
      exact spares_emit_pure ctx t
  | ref name raw op fallback =>
      -- the value goes through one step more
      have hplaced : Spares (fun v w => ctx.placed .line v = w)
          (ctx.expand .value (.ref name raw op fallback) >>= Pure.pure)
          (ctx.expand .value (.ref name raw op fallback)
            >>= fun v => Pure.pure (ctx.placed .line v)) :=
        hself.bind fun v w hvw => .pure (congrArg _ hvw)
      rwa [bind_pure, ← expand_line_ref] at hplaced
  | command line raw =>
      -- what is expanded is the same in any place
      rw [expand] at hself ⊢
      rw [expand]
      exact hself
  | group ns =>
      rw [expand] at hself ⊢
      rw [expand]
      exact hself
  | nothing =>
      rw [expand, expand]
      exact .pure rfl

/-- What nodes give in a value, one by one. -/
def texts (ctx : Context) (ns : List Node) : Expansion (List Text) := ns.mapM (ctx.expand .value)

theorem texts_cons (ctx : Context) (n : Node) (ns : List Node) :
    ctx.texts (n :: ns)
      = ctx.expand .value n >>= fun v => ctx.texts ns >>= fun vs => pure (v :: vs) :=
  List.mapM_cons

/-- In a value, nodes give their texts joined. -/
theorem expandAll_value_eq (ctx : Context) (ns : List Node) :
    ctx.expandAll .value ns = ctx.texts ns >>= fun vs => pure vs.flatten := by
  induction ns with
  | nil => rfl
  | cons n ns ih =>
      rw [expandAll_cons, ih, texts_cons]
      simp only [bind_assoc, pure_bind, List.flatten_cons]

/-- In a command line, nodes give what they give in a value, each put there. -/
theorem spares_expandAll_line (ctx : Context) (ns : List Node) :
    Spares (fun vs w => (List.zipWith ctx.putInLine ns vs).flatten = w) (ctx.texts ns)
      (ctx.expandAll .line ns) := by
  induction ns with
  | nil => exact .pure rfl
  | cons n ns ih =>
      rw [texts_cons, expandAll_cons]
      refine (spares_expand_line ctx n).bind fun v w hvw => ih.bind fun vs u hu => .pure ?_
      rw [List.zipWith_cons_cons, List.flatten_cons, hvw, hu]

theorem expandAll_append (ctx : Context) (p : Place) (ns ms : List Node) :
    ctx.expandAll p (ns ++ ms)
      = ctx.expandAll p ns >>= fun t => ctx.expandAll p ms >>= fun u => pure (t ++ u) := by
  induction ns with
  | nil =>
      have hnil : ctx.expandAll p [] = pure [] := rfl
      simp only [List.nil_append, hnil, pure_bind, bind_pure]
  | cons n ns ih =>
      simp only [List.cons_append, expandAll_cons, ih, bind_assoc, pure_bind, List.append_assoc]

/-- A nested sequence is expanded as in a value, wherever it stands. -/
theorem expand_group (ctx : Context) (p : Place) (ns : List Node) :
    ctx.expand p (.group ns) = ctx.expandAll .value ns := by
  rw [expand]
  rfl

/-! ## Splicing -/

/-- The parts of a command line with a sequence inside. -/
structure LineParts where
  before : Text
  /-- What the nodes of the sequence give in a value, one by one. -/
  inside : List Text
  behind : Text

/-- The line that parts make. -/
def LineParts.line (p : LineParts) : Text := p.before ++ (p.inside.flatten ++ p.behind)

/-- The parts, with what the nodes of the sequence give put in the line as if they stood there. -/
def LineParts.put (p : LineParts) (ctx : Context) (ns : List Node) : LineParts :=
  { p with inside := List.zipWith ctx.putInLine ns p.inside }

/-- The parts of the line `before ++ .group ns :: behind`. -/
def lineParts (ctx : Context) (before ns behind : List Node) : Expansion LineParts := do
  let t ← ctx.commandLine before
  let vs ← ctx.texts ns
  let u ← ctx.commandLine behind
  pure ⟨t, vs, u⟩

/-- A nested sequence stands in the line with what its nodes give in a value. -/
theorem commandLine_nested (ctx : Context) (before ns behind : List Node) :
    ctx.commandLine (before ++ .group ns :: behind)
      = ctx.lineParts before ns behind >>= fun p => pure p.line := by
  rw [commandLine, expandAll_append, expandAll_cons, expand_group, expandAll_value_eq, lineParts]
  simp only [bind_assoc, pure_bind, commandLine, LineParts.line]

/-- Nodes that are spliced stand in the line with what they give, put there. -/
theorem spares_spliced (ctx : Context) (before ns behind : List Node) :
    Spares (fun p w => (p.put ctx ns).line = w) (ctx.lineParts before ns behind)
      (ctx.commandLine (before ++ (ns ++ behind))) := by
  have hself : ∀ ms, Spares Eq (ctx.expandAll .line ms) (ctx.expandAll .line ms) :=
    (steps_spares ctx).expandAll .line
  simp only [lineParts, commandLine, expandAll_append]
  refine (hself before).bind fun t _ ht => ?_
  subst ht
  rw [bind_assoc]
  refine (spares_expandAll_line ctx ns).bind fun vs w hw => ?_
  rw [bind_assoc]
  refine (hself behind).bind fun u _ hu => ?_
  subst hu hw
  rw [pure_bind]
  exact .pure rfl

/-- One sequence that stands among nodes, or in a sequence among them, is replaced by its
children. -/
inductive Splices : List Node → List Node → Prop
  | here (before ns behind : List Node) :
      Splices (before ++ .group ns :: behind) (before ++ (ns ++ behind))
  | within {ns ms : List Node} (before behind : List Node) : Splices ns ms →
      Splices (before ++ .group ns :: behind) (before ++ .group ms :: behind)

/-- **In a value, a nested sequence gives what its children give in its place.** -/
theorem expandAll_of_splices (ctx : Context) {ns ms : List Node} (h : Splices ns ms) :
    ctx.expandAll .value ns = ctx.expandAll .value ms := by
  induction h with
  | here before ns behind =>
      rw [expandAll_append, expandAll_cons, expand_group, expandAll_append, expandAll_append]
  | within before behind h ih =>
      rw [expandAll_append, expandAll_cons, expand_group, ih, expandAll_append, expandAll_cons,
        expand_group]

/-- **Splicing changes nothing in a command line but which values are quoted.** A sequence among the
nodes of a line gives its parts one by one. As it is, it stands in the line with these parts; with
its children in its place, those of the references are quoted. All else is the same, and less is
counted, unless the line as it is produces more than it may. So the lines are the same where quoting
changes none of the parts. Sequences that are spliced within a sequence make no difference. -/
theorem commandLine_splice (ctx : Context) (before ns behind : List Node) :
    (∀ s : Trace,
      (∃ limit s', (ctx.commandLine (before ++ .group ns :: behind)).after s
        = (.error (.outputTooLong limit), s'))
      ∨ ∃ parts s₁ s₂, (ctx.lineParts before ns behind).after s = (parts, s₁)
        ∧ (ctx.commandLine (before ++ .group ns :: behind)).after s
          = (parts.map fun p => p.line, s₁)
        ∧ (ctx.commandLine (before ++ (ns ++ behind))).after s
          = (parts.map fun p => (p.put ctx ns).line, s₂)
        ∧ s₁.Spared s₂
        ∧ ((∀ p, parts = .ok p → p.put ctx ns = p) →
          ((ctx.commandLine (before ++ (ns ++ behind))).after s).1
            = ((ctx.commandLine (before ++ .group ns :: behind)).after s).1))
    ∧ ∀ ms, Splices ns ms → ctx.commandLine (before ++ .group ns :: behind)
        = ctx.commandLine (before ++ .group ms :: behind) := by
  refine ⟨fun s => ?_, fun ms h => ?_⟩
  · rw [commandLine_nested, Expansion.after_bind]
    obtain ⟨limit, s', hlong⟩ | ⟨hrel, htrace⟩ :=
      spares_spliced ctx before ns behind s s (.refl s)
    · exact Or.inl ⟨limit, s', by rw [hlong]⟩
    · refine Or.inr ?_
      generalize (ctx.lineParts before ns behind).after s = x,
        (ctx.commandLine (before ++ (ns ++ behind))).after s = y at hrel htrace ⊢
      obtain ⟨parts, s₁⟩ := x
      obtain ⟨line, s₂⟩ := y
      cases hrel with
      | ok h =>
          subst h
          refine ⟨_, s₁, s₂, rfl, rfl, rfl, htrace, fun hquoted => ?_⟩
          rw [hquoted _ rfl]
          rfl
      | error h => exact ⟨_, s₁, s₂, rfl, rfl, rfl, htrace, fun _ => rfl⟩
  · rw [commandLine, expandAll_append, expandAll_cons, expand_group, expandAll_of_splices ctx h,
      commandLine, expandAll_append, expandAll_cons, expand_group]

/-! ## A value that is not quoted -/

/-- The variable `V` holds what means something to a shell, and `W` does not. -/
def sequel : Context where
  bindings := Assignment.ofList
    [("V".toList, { value := "x; rm y".toList }), ("W".toList, { value := "x".toList })]
  environment := ∅
  config := {}
  shell := Script.shell {}

/-- A command, and a reference behind it. -/
def echoing (name : Text) : List Node := [.lit "echo ".toList, .ref name [] none none]

/-- A command, and the same reference in a sequence of its own. -/
def echoingNested (name : Text) : List Node :=
  [.lit "echo ".toList, .group [.ref name [] none none]]

/-- A harmless value is the same word in a nested sequence and out of it, and a value is the same
in one nested sequence and in two. -/
theorem commandLine_splice_sequel :
    ((sequel.commandLine (echoing ['W'])).after {}).1
      = ((sequel.commandLine (echoingNested ['W'])).after {}).1
    ∧ sequel.commandLine [.group [.group [.ref ['V'] [] none none]]]
      = sequel.commandLine [.group [.ref ['V'] [] none none]] := by
  obtain ⟨hsplice, -⟩ :=
    commandLine_splice sequel [.lit "echo ".toList] [.ref ['W'] [] none none] []
  obtain ⟨-, hwithin⟩ := commandLine_splice sequel [] [.group [.ref ['V'] [] none none]] []
  refine ⟨?_, hwithin _ (.here [] [.ref ['V'] [] none none] [])⟩
  obtain ⟨limit, s', hlong⟩ | ⟨parts, s₁, s₂, hparts, -, -, -, hsame⟩ := hsplice {}
  · have hline : ((sequel.commandLine (echoingNested ['W'])).after {}).1.toOption
        = some "echo x".toList := by decide +kernel
    have hhalt : (sequel.commandLine (echoingNested ['W'])).after {} = _ := hlong
    rw [hhalt] at hline
    cases hline
  · refine hsame fun p hp => ?_
    have hinside : ((sequel.lineParts [.lit "echo ".toList] [.ref ['W'] [] none none] []).after
        {}).1.toOption.map LineParts.inside = some ["x".toList] := by decide +kernel
    rw [hparts, hp] at hinside
    obtain ⟨before, inside, behind⟩ := p
    obtain rfl : inside = ["x".toList] := Option.some.inj hinside
    have hword : sequel.placed .line "x".toList = "x".toList := by decide
    rw [LineParts.put, List.zipWith_cons_cons, putInLine, hword, List.zipWith_nil_left]

/-- **A value in a nested sequence is not quoted**, although commands are made safe. -/
theorem commandLine_unquoted :
    sequel.config.disableSecurity = false
    ∧ ((sequel.commandLine (echoingNested ['V'])).after {}).1.toOption
      = some "echo x; rm y".toList
    ∧ ((sequel.commandLine (echoing ['V'])).after {}).1.toOption
      = some "echo 'x; rm y'".toList := by
  refine ⟨?_, ?_, ?_⟩ <;> decide +kernel

end Context
end EnvValues
