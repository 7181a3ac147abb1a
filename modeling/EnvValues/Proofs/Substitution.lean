import EnvValues.Expansion
import EnvValues.Proofs.RoundTrip

/-!
# Expansion as substitution

Where no command is involved, expanding nodes is substitution: every reference is
replaced by the value of its variable or by its fallback, as the table of operators
says. `subst` is that, for any values of the variables.

A pass over a **clean** text, which is literals and braced references alone, produces
the substitution of the values that are stored, as long as the limit on the output
leaves room for it (`produces_joinedAll`). It calls no command, and raises no notices
but those about undefined variables.
-/

namespace EnvValues

/-- What an operator puts in place of a variable with this value: the value of the
variable, the fallback, or nothing. -/
def Operator.choose (op : Operator) (value : Option Text) (fallback : Text) : Text :=
  if op.takesFallback value then fallback
  else match op.form with
    | .otherwise => value.getD []
    | .instead => []

namespace Node

mutual

/-- The text of a node where variables have these values. Commands have none. -/
def substNode (value : Text → Option Text) : Node → Text
  | lit t => t
  | ref name _ none _ => (value name).getD []
  | ref name _ (some op) none => op.choose (value name) []
  | ref name _ (some op) (some f) => op.choose (value name) (subst value f)
  | command _ _ => []
  | group ns => subst value ns
  | nothing => []

/-- The text of nodes where variables have these values. -/
def subst (value : Text → Option Text) : List Node → Text
  | [] => []
  | n :: ns => substNode value n ++ subst value ns

end

section
variable (value : Text → Option Text)

@[simp] theorem subst_nil : subst value [] = [] := by rw [subst]

@[simp] theorem subst_cons (n : Node) (ns : List Node) :
    subst value (n :: ns) = substNode value n ++ subst value ns := by rw [subst]

@[simp] theorem subst_append (ns ms : List Node) :
    subst value (ns ++ ms) = subst value ns ++ subst value ms := by
  induction ns with
  | nil => simp
  | cons n ns ih => simp [ih]

@[simp] theorem substNode_lit (t : Text) : substNode value (lit t) = t := by rw [substNode]

@[simp] theorem substNode_ref_none (name raw : Text) (fallback : Option (List Node)) :
    substNode value (ref name raw none fallback) = (value name).getD [] := by rw [substNode]

@[simp] theorem substNode_ref_some (name raw : Text) (op : Operator) (f : List Node) :
    substNode value (ref name raw (some op) (some f)) = op.choose (value name) (subst value f) := by
  rw [substNode]

end

theorem subst_consNode (value : Text → Option Text) (n : Node) (ns : List Node) :
    subst value (cons n ns) = substNode value n ++ subst value ns := by
  fun_cases cons n ns <;> simp

mutual

theorem substNode_joined (value : Text → Option Text) :
    ∀ n : Node, substNode value (joined n) = substNode value n
  | lit _ => by rw [joined]
  | ref _ _ _ none => by rw [joined]
  | ref _ _ none (some f) => by rw [joined, substNode, substNode]
  | ref _ _ (some op) (some f) => by rw [joined, substNode, substNode, subst_joinedAll value f]
  | command _ _ => by rw [joined, substNode, substNode]
  | group ns => by rw [joined, substNode, substNode, subst_joinedAll value ns]
  | nothing => by rw [joined]

/-- Joining literals makes no difference to what nodes are substituted by. -/
theorem subst_joinedAll (value : Text → Option Text) :
    ∀ ns : List Node, subst value (joinedAll ns) = subst value ns
  | [] => by rw [joinedAll]
  | n :: ns => by
      rw [joinedAll, subst_consNode, substNode_joined value n, subst_joinedAll value ns, subst]

end

/-- Literals are their own substitution. -/
theorem subst_of_isLit (value : Text → Option Text) {ns : List Node}
    (h : ∀ n ∈ ns, n.isLit = true) : subst value ns = rawAll ns := by
  induction ns with
  | nil => simp
  | cons n ns ih =>
      obtain ⟨hl, hls⟩ := List.forall_mem_cons.1 h
      obtain ⟨t, rfl⟩ := exists_lit_of_isLit hl
      rw [subst_cons, rawAll_cons, ih hls, substNode, raw]

/-- Literals and braced references alone, none of them nested too deep: what may stand
in a command line. -/
abbrev Clean (depth : Int) (ns : List Node) : Prop := Everywhere (Printed depth) 0 true ns

/-- In a command line no reference is bare, so none goes on behind itself. -/
theorem apart_of_inLine {depth : Int} {around : Nat} {ns : List Node}
    (hn : ∀ n ∈ ns, NodePrinted depth around true n) : Apart ns := by
  induction ns with
  | nil => trivial
  | cons n ns ih =>
      obtain ⟨hn, hns⟩ := List.forall_mem_cons.1 hn
      refine ⟨fun hbare => ?_, ih hns⟩
      cases n with
      | ref name raw op fallback =>
          have hbraced : isBraced raw = true := RefPrinted.braced hn rfl
          simp [isBare, hbraced] at hbare
      | _ => simp [isBare] at hbare

/-- What stands in a command line is printed node by node. -/
theorem everywhere_inLine_iff {depth : Int} {around : Nat} {ns : List Node} :
    Everywhere (Printed depth) around true ns ↔
      ∀ n ∈ ns, NodePrinted depth around true n ∧ Inside (Printed depth) around true n := by
  constructor
  · exact fun h n hn => ⟨h.1.node n hn, h.2 n hn⟩
  · intro h
    exact ⟨⟨fun n hn => (h n hn).1, apart_of_inLine fun n hn => (h n hn).1⟩, fun n hn => (h n hn).2⟩

end Node

namespace Context

/-- From one trace to another without a call, and with no notices but those about
undefined variables. -/
structure Quiet (ctx : Context) (s s' : Trace) : Prop where
  calls : s'.calls = s.calls
  notices : ∃ names : List Text,
    s'.notices = s.notices ++ (names.map Notice.undefinedVariable).toArray
    ∧ (ctx.config.warnOnUndefined = false → names = [])

theorem Quiet.of_eq {ctx : Context} {s s' : Trace} (hc : s'.calls = s.calls)
    (hn : s'.notices = s.notices) : ctx.Quiet s s' :=
  ⟨hc, [], by simp [hn], fun _ => rfl⟩

theorem Quiet.trans {ctx : Context} {s s' s'' : Trace} (h : ctx.Quiet s s')
    (h' : ctx.Quiet s' s'') : ctx.Quiet s s'' := by
  obtain ⟨hc, names, hn, hw⟩ := h
  obtain ⟨hc', names', hn', hw'⟩ := h'
  refine ⟨hc'.trans hc, names ++ names', ?_, fun hoff => ?_⟩
  · rw [hn', hn, Array.append_assoc, List.map_append]
    simp
  · rw [hw hoff, hw' hoff, List.nil_append]

/-- A step produces a text quietly, where the limit leaves room for it. -/
def Produces (ctx : Context) (x : Expansion Text) (t : Text) : Prop :=
  ∀ s : Trace, ((s.written + t.length : Nat) : Int) ≤ ctx.config.limits.outputLength →
    ∃ s', x.after s = (.ok t, s') ∧ s'.written = s.written + t.length ∧ ctx.Quiet s s'

variable {ctx : Context}

theorem after_emit {t : Text} {s : Trace}
    (h : ((s.written + t.length : Nat) : Int) ≤ ctx.config.limits.outputLength) :
    (ctx.emit t).after s = (.ok t, { s with written := s.written + t.length }) := by
  rw [emit, Expansion.after_ofTrace]
  simp only [Limits.forbidsOutput, Int.not_lt.2 h, decide_false, Bool.false_eq_true, if_false]

theorem produces_emit (t : Text) : ctx.Produces (ctx.emit t) t := fun _ h =>
  ⟨_, after_emit h, rfl, .of_eq rfl rfl⟩

theorem produces_pure_nil : ctx.Produces (pure []) [] := fun s _ =>
  ⟨s, rfl, rfl, .of_eq rfl rfl⟩

theorem produces_expandRef (name : Text) :
    ctx.Produces (ctx.expandRef name) ((ctx.lookup name).getD []) := by
  intro s h
  unfold expandRef
  cases hl : ctx.lookup name with
  | some v =>
      rw [hl] at h
      exact produces_emit v s h
  | none =>
      rw [hl] at h
      cases hw : ctx.config.warnOnUndefined with
      | false =>
          refine ⟨{ s with written := s.written + 0 }, ?_, rfl, .of_eq rfl rfl⟩
          exact after_emit (t := []) h
      | true =>
          let s₁ : Trace := { s with notices := s.notices.push (.undefinedVariable name) }
          refine ⟨{ s₁ with written := s₁.written + 0 }, ?_, rfl, rfl, [name], by simp [s₁], ?_⟩
          · simp only [if_true]
            exact after_emit (t := []) (s := s₁) h
          · intro hoff
            rw [hw] at hoff
            exact nomatch hoff

/-- What an operator puts in place of a variable, where operators are honoured. -/
theorem produces_expandChoice {op : Operator} (hop : ctx.honours op = true) {x : Expansion Text}
    {t : Text} (hx : ctx.Produces x t) (name : Text) :
    ctx.Produces (ctx.expandChoice name op x) (op.choose (ctx.lookup name) t) := by
  unfold expandChoice Operator.choose
  simp only [hop, Bool.not_true, Bool.false_eq_true, if_false]
  cases op.takesFallback (ctx.lookup name) with
  | true => simpa using hx
  | false =>
      simp only [Bool.false_eq_true, if_false]
      cases op.form with
      | otherwise => exact produces_emit _
      | instead => exact produces_pure_nil

/-- A text that is produced in a value stands as it is. -/
theorem produces_placed {x : Expansion Text} {t : Text} (hx : ctx.Produces x t) :
    ctx.Produces (do let v ← x; pure (ctx.placed .value v)) t := by
  intro s h
  obtain ⟨s', ha, hrest⟩ := hx s h
  refine ⟨s', ?_, hrest⟩
  rw [Expansion.after_bind, ha]
  rfl

theorem produces_expandAll_nil : ctx.Produces (ctx.expandAll .value []) [] := fun s _ =>
  ⟨s, after_expandAll_nil ctx .value s, rfl, .of_eq rfl rfl⟩

/-- **Nodes in a row produce their texts in a row.** -/
theorem produces_expandAll_cons {n : Node} {ns : List Node} {t u : Text}
    (hn : ctx.Produces (ctx.expand .value n) t) (hns : ctx.Produces (ctx.expandAll .value ns) u) :
    ctx.Produces (ctx.expandAll .value (n :: ns)) (t ++ u) := by
  intro s h
  rw [List.length_append] at h
  obtain ⟨s₁, h₁, hw₁, hq₁⟩ := hn s (by omega)
  obtain ⟨s₂, h₂, hw₂, hq₂⟩ := hns s₁ (by omega)
  refine ⟨s₂, ?_, by rw [hw₂, hw₁, List.length_append, Nat.add_assoc], hq₁.trans hq₂⟩
  rw [after_expandAll_cons, h₁]
  simp only
  rw [h₂]

/-- It makes no difference whether two literals are produced together. -/
theorem after_expandAll_lit_append (t u : Text) (ns : List Node) (s : Trace) :
    (ctx.expandAll .value (.lit (t ++ u) :: ns)).after s
      = match (ctx.expandAll .value (.lit u :: ns)).after
            { s with written := s.written + t.length } with
        | (.ok v, s') => (.ok (t ++ v), s')
        | (.error e, s') => (.error e, s') := by
  rw [after_expandAll_cons, after_expandAll_cons]
  -- both count the same text before they look at the limit
  simp only [expand, emit, Expansion.after_ofTrace, List.length_append, Nat.add_assoc]
  cases ctx.config.limits.forbidsOutput (s.written + (t.length + u.length)) with
  | true => rfl
  | false =>
      simp only [Bool.false_eq_true, if_false]
      generalize (ctx.expandAll .value ns).after _ = r
      obtain ⟨e | v, s'⟩ := r
      · rfl
      · simp

/-- A literal produces its text where it is joined to the nodes behind it, too. -/
theorem produces_cons_lit {ns : List Node} {u : Text} (t : Text)
    (hns : ctx.Produces (ctx.expandAll .value ns) u) :
    ctx.Produces (ctx.expandAll .value (Node.cons (.lit t) ns)) (t ++ u) := by
  have hlit : ctx.Produces (ctx.expand .value (.lit t)) t := by
    rw [expand]
    exact produces_emit t
  have hcons := produces_expandAll_cons hlit hns
  cases t with
  | nil => exact hns
  | cons c t =>
      cases ns with
      | nil => exact hcons
      | cons n ns =>
          cases n with
          | lit v =>
              intro s h
              rw [List.length_append] at h
              let s₁ : Trace := { s with written := s.written + (c :: t).length }
              obtain ⟨s₂, h₂, hw₂, hq₂⟩ := hns s₁ (by simp only [s₁]; omega)
              refine ⟨s₂, ?_, ?_, (Quiet.of_eq rfl rfl : ctx.Quiet s s₁).trans hq₂⟩
              · rw [Node.cons, after_expandAll_lit_append, h₂]
              · rw [hw₂, List.length_append, Nat.add_assoc]
          | _ => exact hcons

variable {depth : Int}

mutual

/-- A clean node produces its substitution. -/
theorem produces_joined (hops : ∀ op, ctx.honours op = true) {around : Nat} :
    ∀ n : Node, Node.NodePrinted depth around true n →
      Node.Inside (Node.Printed depth) around true n → n.isLit = false →
      ctx.Produces (ctx.expand .value (Node.joined n)) (Node.substNode ctx.lookup n)
  | .ref name raw none none, _, _, _ => by
      rw [Node.joined, Node.substNode_ref_none, expand]
      exact produces_placed (produces_expandRef name)
  | .ref name raw none (some f), hn, _, _ => hn.spelled.elim
  | .ref name raw (some op) none, hn, _, _ => hn.spelled.elim
  | .ref name raw (some op) (some f), _, hin, _ => by
      rw [Node.Inside] at hin
      rw [Node.joined, Node.substNode_ref_some, expand]
      have hf := produces_joinedAll_inside hops f hin.1.node hin.2
      exact produces_placed (produces_expandChoice (hops op) hf name)
  | .command line raw, hn, _, _ => nomatch hn.2.1
  | .group ns, hn, _, _ => hn.elim
  | .nothing, hn, _, _ => hn.elim

theorem produces_joinedAll_inside (hops : ∀ op, ctx.honours op = true) {around : Nat} :
    ∀ ns : List Node, (∀ n ∈ ns, Node.NodePrinted depth around true n) →
      Node.InsideAll (Node.Printed depth) around true ns →
      ctx.Produces (ctx.expandAll .value (Node.joinedAll ns)) (Node.subst ctx.lookup ns)
  | [], _, _ => by
      rw [Node.joinedAll, Node.subst]
      exact produces_expandAll_nil
  | n :: ns, hn, hin => by
      rw [Node.InsideAll] at hin
      obtain ⟨hn, hns⟩ := List.forall_mem_cons.1 hn
      have hrest := produces_joinedAll_inside hops ns hns hin.2
      rw [Node.joinedAll, Node.subst]
      cases hl : n.isLit with
      | true =>
          -- a literal may be joined to the next, which is then produced with it
          obtain ⟨t, rfl⟩ := Node.exists_lit_of_isLit hl
          rw [Node.joined, Node.substNode]
          exact produces_cons_lit t hrest
      | false =>
          have hcons := produces_expandAll_cons (produces_joined hops n hn hin.1 hl) hrest
          rwa [← Node.cons_of_not_lit (by rw [Node.isLit_joined, hl])] at hcons

end

/-- **A clean text produces the substitution of the values that are stored**, if no
operator is switched off. -/
theorem produces_joinedAll (hops : ∀ op, ctx.honours op = true) {ns : List Node}
    (h : Node.Clean depth ns) :
    ctx.Produces (ctx.expandAll .value (Node.joinedAll ns)) (Node.subst ctx.lookup ns) :=
  produces_joinedAll_inside hops ns h.1.node (Node.insideAll_iff.2 h.2)

end Context
end EnvValues
