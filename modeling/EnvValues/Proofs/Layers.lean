import EnvValues.Proofs.Substitution

/-!
# Variables in layers

What a variable stands for is looked up recursively: its value is taken as it is
written, and every name in it is resolved in the same way. `resolved` does that, and
`full` resolves the names in a text.

This needs variables without cycles. Here they are **layered**: every stored value is
clean and refers to variables of lower rank alone, and what an operator tests holds no
reference, so that it is the same stored and resolved (`resolved_of_plain`). Then
`resolved` is what the recursion says (`resolved_eq`).
-/

namespace EnvValues
namespace Node

mutual

/-- The names a node refers to, and the operators they are tested by. -/
def referencesOf : Node → List (Text × Option Operator)
  | lit _ => []
  | ref name _ op none => [(name, op)]
  | ref name _ op (some f) => (name, op) :: references f
  | command line _ => references line
  | group ns => references ns
  | nothing => []

/-- The names that nodes refer to, at every depth, and the operators they are tested by. -/
def references : List Node → List (Text × Option Operator)
  | [] => []
  | n :: ns => referencesOf n ++ references ns

end

@[simp] theorem references_nil : references [] = [] := by rw [references]

@[simp] theorem references_cons (n : Node) (ns : List Node) :
    references (n :: ns) = referencesOf n ++ references ns := by rw [references]

@[simp] theorem references_append (ns ms : List Node) :
    references (ns ++ ms) = references ns ++ references ms := by
  induction ns with
  | nil => simp
  | cons n ns ih => simp [ih]

/-- A name is referred to by one of the nodes. -/
theorem mem_references {r : Text × Option Operator} {ns : List Node} :
    r ∈ references ns ↔ ∃ n ∈ ns, r ∈ referencesOf n := by
  induction ns with
  | nil => simp
  | cons n ns ih => simp [ih]

theorem references_consNode (n : Node) (ns : List Node) :
    references (cons n ns) = references (n :: ns) := by
  fun_cases cons n ns <;> simp [referencesOf]

mutual

theorem referencesOf_joined : ∀ n : Node, referencesOf (joined n) = referencesOf n
  | lit _ => by rw [joined]
  | ref _ _ _ none => by rw [joined]
  | ref _ _ _ (some f) => by rw [joined, referencesOf, referencesOf, references_joinedAll f]
  | command line _ => by rw [joined, referencesOf, referencesOf, references_joinedAll line]
  | group ns => by rw [joined, referencesOf, referencesOf, references_joinedAll ns]
  | nothing => by rw [joined]

/-- Joining literals makes no difference to what nodes refer to. -/
theorem references_joinedAll : ∀ ns : List Node, references (joinedAll ns) = references ns
  | [] => by rw [joinedAll]
  | n :: ns => by
      rw [joinedAll, references_consNode, references_cons, referencesOf_joined n,
        references_joinedAll ns, references]

end

mutual

theorem substNode_congr {value value' : Text → Option Text} :
    ∀ n : Node, (∀ r ∈ referencesOf n, value r.1 = value' r.1) →
      substNode value n = substNode value' n
  | lit _, _ => by rw [substNode, substNode]
  | ref name _ none none, h => by
      rw [substNode, substNode, h (name, none) (by simp [referencesOf])]
  | ref name _ (some op) none, h => by
      rw [substNode, substNode, h (name, some op) (by simp [referencesOf])]
  | ref name _ none (some f), h => by
      rw [substNode, substNode, h (name, none) (by simp [referencesOf])]
  | ref name _ (some op) (some f), h => by
      rw [referencesOf] at h
      have hf := subst_congr f fun r hr => h r (List.mem_cons_of_mem _ hr)
      rw [substNode, substNode, h (name, some op) List.mem_cons_self, hf]
  | command _ _, _ => by rw [substNode, substNode]
  | group ns, h => by
      rw [referencesOf] at h
      rw [substNode, substNode, subst_congr ns h]
  | nothing, _ => by rw [substNode, substNode]

/-- Only the values of the names that are referred to matter. -/
theorem subst_congr {value value' : Text → Option Text} :
    ∀ ns : List Node, (∀ r ∈ references ns, value r.1 = value' r.1) →
      subst value ns = subst value' ns
  | [], _ => by rw [subst, subst]
  | n :: ns, h => by
      rw [references] at h
      rw [subst, subst, substNode_congr n fun r hr => h r (List.mem_append_left _ hr),
        subst_congr ns fun r hr => h r (List.mem_append_right _ hr)]

end

/-! ## What names resolve to -/

/-- What a name resolves to, looking into so many values within values. -/
def resolvedWithin (values : Text → Option (List Node)) : (layers : Nat) → Text → Option Text
  | 0, _ => none
  | layers + 1, name => (values name).map (subst (resolvedWithin values layers))

/-- **What a name resolves to**: its value, with every name in it resolved. No more values
stand within each other than the rank says. -/
def resolved (values : Text → Option (List Node)) (rank : Text → Nat) (name : Text) :
    Option Text :=
  resolvedWithin values (rank name + 1) name

/-- **What nodes resolve to**: literals stay, references become what their name resolves
to, and operators choose as the table says. -/
def full (values : Text → Option (List Node)) (rank : Text → Nat) (ns : List Node) : Text :=
  subst (resolved values rank) ns

/-- Does every name that is tested by an operator have no value, or one that holds no
dollar? -/
def TestsPlain (lookup : Text → Option Text) (ns : List Node) : Prop :=
  ∀ r ∈ references ns, r.2.isSome = true → ∀ v, lookup r.1 = some v → '$' ∉ v

/-- Variables without cycles: every value is written as clean nodes, which refer to
variables of lower rank alone, and operators test plain values. -/
structure Layered (lookup : Text → Option Text) (depth : Int)
    (values : Text → Option (List Node)) (rank : Text → Nat) : Prop where
  lookup_eq : ∀ name, lookup name = (values name).map rawAll
  clean : ∀ name ns, values name = some ns → Clean depth ns
  rank_lt : ∀ name ns, values name = some ns → ∀ r ∈ references ns, rank r.1 < rank name
  testsPlain : ∀ name ns, values name = some ns → TestsPlain lookup ns

section
variable {lookup : Text → Option Text} {depth : Int} {values : Text → Option (List Node)}
  {rank : Text → Nat}

/-- More layers than the rank make no difference. -/
theorem resolvedWithin_eq (hlay : Layered lookup depth values rank) :
    ∀ (layers layers' : Nat) (name : Text), rank name < layers → rank name < layers' →
      resolvedWithin values layers name = resolvedWithin values layers' name := by
  -- on the layers: the names in a value have lower ranks
  intro layers
  induction layers with
  | zero => exact fun layers' name h _ => absurd h (Nat.not_lt_zero _)
  | succ layers ih =>
      intro layers' name h h'
      obtain ⟨layers', rfl⟩ : ∃ l, layers' = l + 1 := ⟨layers' - 1, by omega⟩
      rw [resolvedWithin, resolvedWithin]
      cases hv : values name with
      | none => rfl
      | some ns =>
          rw [Option.map_some, Option.map_some, Option.some.injEq]
          refine subst_congr ns fun r hr => ih layers' r.1 ?_ ?_
          all_goals
            have := hlay.rank_lt name ns hv r hr
            omega

/-- **The recursion**: a name resolves to its value with the names in it resolved. -/
theorem resolved_eq (hlay : Layered lookup depth values rank) (name : Text) :
    resolved values rank name = (values name).map (full values rank) := by
  rw [resolved, resolvedWithin]
  cases hv : values name with
  | none => rfl
  | some ns =>
      rw [Option.map_some, Option.map_some, Option.some.injEq]
      refine subst_congr ns fun r hr => ?_
      exact resolvedWithin_eq hlay _ _ r.1 (hlay.rank_lt name ns hv r hr) (Nat.lt_succ_self _)

/-- Without a dollar, printed nodes are literals. -/
theorem isLit_of_not_mem {around : Nat} {inLine : Bool} {ns : List Node}
    (hn : ∀ n ∈ ns, NodePrinted depth around inLine n) (h : '$' ∉ rawAll ns) :
    ∀ n ∈ ns, n.isLit = true := by
  intro n hmem
  cases hl : n.isLit with
  | true => rfl
  | false =>
      obtain ⟨u, hu⟩ := (hn n hmem).spelled.raw_eq_cons hl
      obtain ⟨before, after, rfl⟩ := List.append_of_mem hmem
      simp [hu] at h

/-- **What an operator tests is resolved already.** -/
theorem resolved_of_plain (hlay : Layered lookup depth values rank) {name : Text}
    (h : ∀ v, lookup name = some v → '$' ∉ v) : resolved values rank name = lookup name := by
  rw [hlay.lookup_eq] at h ⊢
  rw [resolved_eq hlay]
  cases hv : values name with
  | none => rfl
  | some ns =>
      rw [hv] at h
      -- the value holds no dollar, so it is its own substitution
      have hlit := isLit_of_not_mem (hlay.clean name ns hv).1.node (h _ rfl)
      rw [Option.map_some, Option.map_some, full, subst_of_isLit _ hlit]

/-! ## Where no layer is left -/

theorem full_of_not_hasExpansions {ns : List Node} (h : hasExpansions ns = false) :
    full values rank ns = rawAll ns := by
  refine subst_of_isLit _ fun n hn => ?_
  simp only [hasExpansions, List.any_eq_false] at h
  simpa using h n hn

/-- Printed nodes that refer to nothing leave nothing to resolve. -/
theorem not_hasExpansions_of_references {around : Nat} {ns : List Node}
    (hn : ∀ n ∈ ns, NodePrinted depth around true n) (h : ∀ r, r ∉ references ns) :
    hasExpansions ns = false := by
  induction ns with
  | nil => rfl
  | cons n ns ih =>
      obtain ⟨hn, hns⟩ := List.forall_mem_cons.1 hn
      rw [references_cons] at h
      have hrest := ih hns fun r hr => h r (List.mem_append_right _ hr)
      rw [hasExpansions, List.any_cons, ← hasExpansions, hrest, Bool.or_false]
      cases n with
      | lit t => rfl
      | ref name raw op fallback =>
          refine absurd ?_ (h (name, op))
          cases fallback <;> simp [referencesOf]
      | command line raw => cases hn.2.1
      | group ns => exact hn.elim
      | nothing => exact hn.elim

/-- **Ranks fall until no reference is left**: what refers only to lower ranks than its
own refers to nothing. -/
theorem not_mem_of_rank_lt {refs : List (Text × Option Operator)} :
    ∀ bound : Nat, (∀ r ∈ refs, rank r.1 < bound) →
      (∀ r ∈ refs, ∃ q ∈ refs, rank r.1 < rank q.1) → ∀ r, r ∉ refs := by
  -- on the bound: what is lower than something below it is lower by one more
  intro bound
  induction bound with
  | zero => exact fun hb _ r hr => Nat.not_lt_zero _ (hb r hr)
  | succ bound ih =>
      intro hb hlt
      refine ih (fun r hr => ?_) hlt
      obtain ⟨q, hq, hrank⟩ := hlt r hr
      have := hb q hq
      omega

end

end Node
end EnvValues
