import EnvValues.Proofs.Layers

/-!
# One layer less

A pass puts stored values in place of references. As values are stored as nodes, the nodes behind
a pass can be told from those in front of it (`peel`): they are written as the text that the pass
gives (`rawAll_peel`), and they are literals of the old text and nodes of values (`mem_peel`).

Where values have no cycles (`Acyclic`), **what is left refers to lower ranks**
(`Acyclic.rank_lt_peel`), whatever the operators test. Where the values are layered as well,
operators test what is resolved already, and **what is left resolves to the same**
(`Layered.full_peel`).
-/

namespace EnvValues

/-- What an operator puts in place of a variable with this value, as nodes. -/
def Operator.chooseNodes (op : Operator) (value : Option Text) (nodes fallback : List Node) :
    List Node :=
  if op.takesFallback value then fallback
  else match op.form with
    | .otherwise => nodes
    | .instead => []

namespace Node

theorem rawAll_chooseNodes (op : Operator) {value : Option Text} {nodes : List Node}
    (h : rawAll nodes = value.getD []) (fallback : List Node) :
    rawAll (op.chooseNodes value nodes fallback) = op.choose value (rawAll fallback) := by
  unfold Operator.chooseNodes Operator.choose
  cases op.takesFallback value with
  | true => rfl
  | false =>
      cases op.form with
      | otherwise => exact h
      | instead => rfl

/-- What is chosen is the value or the fallback. -/
theorem mem_chooseNodes {op : Operator} {value : Option Text} {nodes fallback : List Node}
    {m : Node} (h : m ∈ op.chooseNodes value nodes fallback) : m ∈ nodes ∨ m ∈ fallback := by
  unfold Operator.chooseNodes at h
  cases htakes : op.takesFallback value with
  | true =>
      rw [htakes] at h
      exact Or.inr h
  | false =>
      rw [htakes] at h
      cases hform : op.form with
      | otherwise =>
          rw [hform] at h
          exact Or.inl h
      | instead =>
          rw [hform] at h
          cases h

/-! ## The nodes behind a pass -/

mutual

/-- The nodes that a pass leaves of a node, where values are stored as nodes. -/
def peelNode (values : Text → Option (List Node)) : Node → List Node
  | lit t => [lit t]
  | ref name _ none _ => (values name).getD []
  | ref name _ (some op) none =>
    op.chooseNodes ((values name).map rawAll) ((values name).getD []) []
  | ref name _ (some op) (some f) =>
    op.chooseNodes ((values name).map rawAll) ((values name).getD []) (peel values f)
  | command _ _ => []
  | group ns => peel values ns
  | nothing => []

/-- The nodes that a pass leaves of nodes. -/
def peel (values : Text → Option (List Node)) : List Node → List Node
  | [] => []
  | n :: ns => peelNode values n ++ peel values ns

end

section
variable {lookup : Text → Option Text} {values : Text → Option (List Node)}

theorem rawAll_getD (name : Text) :
    rawAll ((values name).getD []) = ((values name).map rawAll).getD [] := by
  cases values name with
  | none => rfl
  | some ns => rfl

mutual

theorem rawAll_peelNode (hlookup : ∀ name, lookup name = (values name).map rawAll) :
    ∀ n : Node, rawAll (peelNode values n) = substNode lookup n
  | lit t => by rw [peelNode, substNode, rawAll_singleton, raw]
  | ref name _ none _ => by rw [peelNode, substNode, rawAll_getD, hlookup]
  | ref name _ (some op) none => by
      rw [peelNode, substNode, rawAll_chooseNodes op (rawAll_getD name), hlookup, rawAll_nil]
  | ref name _ (some op) (some f) => by
      rw [peelNode, substNode, rawAll_chooseNodes op (rawAll_getD name), hlookup,
        rawAll_peel hlookup f]
  | command _ _ => by rw [peelNode, substNode, rawAll_nil]
  | group ns => by rw [peelNode, substNode, rawAll_peel hlookup ns]
  | nothing => by rw [peelNode, substNode, rawAll_nil]

/-- **The nodes behind a pass are written as the text that it gives.** -/
theorem rawAll_peel (hlookup : ∀ name, lookup name = (values name).map rawAll) :
    ∀ ns : List Node, rawAll (peel values ns) = subst lookup ns
  | [] => by rw [peel, subst, rawAll_nil]
  | n :: ns => by
      rw [peel, subst, rawAll_append, rawAll_peelNode hlookup n, rawAll_peel hlookup ns]

end

/-- A node that a pass leaves: a literal, or a node of a value that is referred to. -/
def LeftOf (values : Text → Option (List Node)) (refs : List (Text × Option Operator))
    (m : Node) : Prop :=
  (∃ t, m = lit t ∧ '$' ∉ t) ∨ ∃ q ∈ refs, ∃ ms, values q.1 = some ms ∧ m ∈ ms

theorem LeftOf.mono {refs refs' : List (Text × Option Operator)} {m : Node}
    (h : LeftOf values refs m) (hrefs : ∀ q ∈ refs, q ∈ refs') : LeftOf values refs' m := by
  rcases h with hlit | ⟨q, hq, hvalue⟩
  · exact Or.inl hlit
  · exact Or.inr ⟨q, hrefs q hq, hvalue⟩

/-- The nodes of a value are left of a reference to it. -/
theorem leftOf_value {name : Text} {m : Node} (h : m ∈ (values name).getD [])
    (op : Option Operator) : LeftOf values [(name, op)] m := by
  cases hv : values name with
  | none =>
      rw [hv] at h
      cases h
  | some ms =>
      rw [hv] at h
      exact Or.inr ⟨(name, op), List.mem_cons_self, ms, hv, h⟩

variable {depth : Int}

mutual

theorem mem_peelNode {around : Nat} :
    ∀ n : Node, NodePrinted depth around true n → Inside (Printed depth) around true n →
      ∀ m ∈ peelNode values n, LeftOf values (referencesOf n) m
  | lit t, hn, _, m, hm => by
      rw [peelNode] at hm
      exact Or.inl ⟨t, List.mem_singleton.1 hm, hn⟩
  | ref name raw none none, _, _, m, hm => by
      rw [peelNode] at hm
      rw [referencesOf]
      exact leftOf_value hm none
  | ref name raw none (some f), hn, _, _, _ => hn.spelled.elim
  | ref name raw (some op) none, hn, _, _, _ => hn.spelled.elim
  | ref name raw (some op) (some f), _, hin, m, hm => by
      rw [Inside] at hin
      rw [peelNode] at hm
      rw [referencesOf]
      rcases mem_chooseNodes hm with hm | hm
      · exact (leftOf_value hm (some op)).mono (by simp)
      · have hf := mem_peel f hin.1.node hin.2 m hm
        exact hf.mono fun q hq => List.mem_cons_of_mem _ hq
  | command _ _, hn, _, _, _ => nomatch hn.2.1
  | group _, hn, _, _, _ => hn.elim
  | nothing, hn, _, _, _ => hn.elim

/-- **What a pass leaves of clean nodes are literals and the nodes of values.** -/
theorem mem_peel {around : Nat} :
    ∀ ns : List Node, (∀ n ∈ ns, NodePrinted depth around true n) →
      InsideAll (Printed depth) around true ns → ∀ m ∈ peel values ns,
      LeftOf values (references ns) m
  | [], _, _, m, hm => by
      rw [peel] at hm
      cases hm
  | n :: ns, hn, hin, m, hm => by
      rw [InsideAll] at hin
      obtain ⟨hn, hns⟩ := List.forall_mem_cons.1 hn
      rw [references_cons]
      rw [peel] at hm
      rcases List.mem_append.1 hm with hm | hm
      · exact (mem_peelNode n hn hin.1 m hm).mono fun q hq => List.mem_append_left _ hq
      · exact (mem_peel ns hns hin.2 m hm).mono fun q hq => List.mem_append_right _ hq

end

end

/-! ## Values without cycles -/

/-- Values without cycles: every one is written as clean nodes, and refers to variables of lower
rank alone. -/
structure Acyclic (lookup : Text → Option Text) (depth : Int)
    (values : Text → Option (List Node)) (rank : Text → Nat) : Prop where
  lookup_eq : ∀ name, lookup name = (values name).map rawAll
  clean : ∀ name ns, values name = some ns → Clean depth ns
  rank_lt : ∀ name ns, values name = some ns → ∀ r ∈ references ns, rank r.1 < rank name

namespace Acyclic
variable {lookup : Text → Option Text} {depth : Int} {values : Text → Option (List Node)}
  {rank : Text → Nat} {ns : List Node}

theorem leftOf (hns : Clean depth ns) : ∀ m ∈ peel values ns, LeftOf values (references ns) m :=
  mem_peel ns hns.1.node (insideAll_iff.2 hns.2)

/-- Clean nodes leave clean nodes. -/
theorem clean_peel (h : Acyclic lookup depth values rank) (hns : Clean depth ns) :
    Clean depth (peel values ns) := by
  refine everywhere_inLine_iff.2 fun m hm => ?_
  rcases leftOf hns m hm with ⟨t, rfl, ht⟩ | ⟨q, -, ms, hv, hms⟩
  · exact ⟨ht, inside_lit t⟩
  · exact everywhere_inLine_iff.1 (h.clean q.1 ms hv) m hms

/-- **What is left refers to lower ranks.** -/
theorem rank_lt_peel (h : Acyclic lookup depth values rank) (hns : Clean depth ns) :
    ∀ r ∈ references (peel values ns), ∃ q ∈ references ns, rank r.1 < rank q.1 := by
  intro r hr
  obtain ⟨m, hm, hrm⟩ := mem_references.1 hr
  rcases leftOf hns m hm with ⟨t, rfl, -⟩ | ⟨q, hq, ms, hv, hms⟩
  · rw [referencesOf] at hrm
    cases hrm
  · exact ⟨q, hq, h.rank_lt q.1 ms hv r (mem_references.2 ⟨m, hms, hrm⟩)⟩

/-- One layer fewer bounds the ranks of what is left. -/
theorem rank_lt_peel_of_succ (h : Acyclic lookup depth values rank) (hns : Clean depth ns)
    {layers : Nat} (hrank : ∀ r ∈ references ns, rank r.1 < layers + 1) :
    ∀ r ∈ references (peel values ns), rank r.1 < layers := by
  intro r hr
  obtain ⟨q, hq, hlt⟩ := h.rank_lt_peel hns r hr
  exact Nat.lt_of_lt_of_le hlt (Nat.le_of_lt_succ (hrank q hq))

end Acyclic

/-! ## Layers -/

/-- What is chosen among nodes is chosen among what they are substituted by. -/
theorem subst_chooseNodes (value : Text → Option Text) (op : Operator) {v : Option Text}
    {nodes : List Node} (h : subst value nodes = v.getD []) (fallback : List Node) :
    subst value (op.chooseNodes v nodes fallback) = op.choose v (subst value fallback) := by
  unfold Operator.chooseNodes Operator.choose
  cases op.takesFallback v with
  | true => rfl
  | false =>
      cases op.form with
      | otherwise => exact h
      | instead => rfl

namespace Layered
variable {lookup : Text → Option Text} {depth : Int} {values : Text → Option (List Node)}
  {rank : Text → Nat}

/-- Layers have no cycles. -/
theorem acyclic (h : Layered lookup depth values rank) : Acyclic lookup depth values rank :=
  ⟨h.lookup_eq, h.clean, h.rank_lt⟩

/-- The value of a name resolves to what the name does. -/
theorem full_value (h : Layered lookup depth values rank) (name : Text) :
    full values rank ((values name).getD []) = (resolved values rank name).getD [] := by
  rw [resolved_eq h]
  cases values name with
  | none => rfl
  | some ns => rfl

/-- An operator that tests a plain value chooses among what is resolved as among what is
stored. -/
theorem full_choose (h : Layered lookup depth values rank) {name : Text}
    (hplain : ∀ v, lookup name = some v → '$' ∉ v) (op : Operator) (fallback : List Node) :
    full values rank
        (op.chooseNodes ((values name).map rawAll) ((values name).getD []) fallback)
      = op.choose (resolved values rank name) (full values rank fallback) := by
  have htest : resolved values rank name = (values name).map rawAll := by
    rw [resolved_of_plain h hplain, h.lookup_eq]
  rw [htest]
  refine subst_chooseNodes _ op ?_ fallback
  rw [← htest, ← h.full_value name, full]

mutual

theorem full_peelNode (h : Layered lookup depth values rank) :
    ∀ n : Node, (∀ r ∈ referencesOf n, r.2.isSome = true → ∀ v, lookup r.1 = some v → '$' ∉ v) →
      full values rank (peelNode values n) = substNode (resolved values rank) n
  | lit t, _ => by rw [peelNode, full, subst_cons, subst_nil, List.append_nil]
  | ref name _ none _, _ => by rw [peelNode, substNode, h.full_value]
  | ref name _ (some op) none, hplain => by
      rw [referencesOf] at hplain
      rw [peelNode, substNode, h.full_choose (hplain _ List.mem_cons_self rfl), full, subst_nil]
  | ref name _ (some op) (some f), hplain => by
      rw [referencesOf] at hplain
      rw [peelNode, substNode, h.full_choose (hplain _ List.mem_cons_self rfl),
        full_peel h f fun r hr => hplain r (List.mem_cons_of_mem _ hr), full]
  | command _ _, _ => by rw [peelNode, substNode, full, subst_nil]
  | group ns, hplain => by
      rw [referencesOf] at hplain
      rw [peelNode, substNode, full_peel h ns hplain, full]
  | nothing, _ => by rw [peelNode, substNode, full, subst_nil]

/-- **What a pass leaves resolves to what was there.** -/
theorem full_peel (h : Layered lookup depth values rank) :
    ∀ ns : List Node, TestsPlain lookup ns →
      full values rank (peel values ns) = full values rank ns
  | [], _ => by rw [peel]
  | n :: ns, hplain => by
      rw [TestsPlain, references_cons] at hplain
      have hn := full_peelNode h n fun r hr => hplain r (List.mem_append_left _ hr)
      have hns := full_peel h ns fun r hr => hplain r (List.mem_append_right _ hr)
      rw [full] at hn hns
      rw [peel, full, subst_append, hn, hns, full, full, subst_cons]

end

/-- What a pass leaves tests plain values, as the values do. -/
theorem testsPlain_peel (h : Layered lookup depth values rank) {ns : List Node}
    (hns : Clean depth ns) : TestsPlain lookup (peel values ns) := by
  intro r hr
  obtain ⟨m, hm, hrm⟩ := mem_references.1 hr
  rcases Acyclic.leftOf hns m hm with ⟨t, rfl, -⟩ | ⟨q, -, ms, hv, hms⟩
  · rw [referencesOf] at hrm
    cases hrm
  · exact h.testsPlain q.1 ms hv r (mem_references.2 ⟨m, hms, hrm⟩)

end Layered
end Node
end EnvValues
