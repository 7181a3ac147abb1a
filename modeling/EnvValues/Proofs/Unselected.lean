import EnvValues.Proofs.Account
import EnvValues.Proofs.Tree
import EnvValues.Shell.Scripted

/-!
# Fallbacks that are not selected

A reference with an operator gives either a value or what its fallback gives. The one that it does
not give is not expanded at all. So **a fallback that is not selected is inert**: it may be replaced
by any other, wherever the reference stands, and the expansion of the whole tree is the same step
(`expandAll_of_refills`). No command in such a fallback is run, and no unset name in it noticed.

What is left of a tree without these fallbacks is its pruned form (`prunedAll`). It holds selected
fallbacks only (`everywhere_selected_prunedAll`) and is expanded as the tree is
(`expandAll_prunedAll`), and two trees that differ in fallbacks that are not selected have the same
(`prunedAll_of_refills`).
-/

namespace EnvValues
namespace Node

mutual

/-- The node without fallbacks that are not picked, and without the text it was read from. -/
def pruned (picks : Text → Operator → Bool) : Node → Node
  | lit t => lit t
  | ref name _ none _ => ref name [] none none
  | ref name _ (some op) none => ref name [] (some op) none
  | ref name _ (some op) (some f) =>
    ref name [] (some op) (if picks name op then some (prunedAll picks f) else none)
  | command line _ => command (prunedAll picks line) []
  | group ns => group (prunedAll picks ns)
  | nothing => nothing

/-- The nodes without fallbacks that are not picked. -/
def prunedAll (picks : Text → Operator → Bool) : List Node → List Node
  | [] => []
  | n :: ns => pruned picks n :: prunedAll picks ns

end

section
variable (picks : Text → Operator → Bool)

theorem prunedAll_append (ns ms : List Node) :
    prunedAll picks (ns ++ ms) = prunedAll picks ns ++ prunedAll picks ms := by
  induction ns with
  | nil => rw [prunedAll, List.nil_append, List.nil_append]
  | cons n ns ih => rw [List.cons_append, prunedAll, ih, prunedAll, List.cons_append]

end

end Node

namespace Context

/-- A reference to this name leaves its fallback alone: it has no operator, its operator is not
honoured, `-` finds a value, or `+` finds none. With a colon, an empty value is none. -/
inductive Unselected (ctx : Context) (name : Text) : Option Operator → Prop where
  | plain : Unselected ctx name none
  | defaultsOff {colon : Bool} : ctx.config.features.defaults = false →
      Unselected ctx name (some ⟨.otherwise, colon⟩)
  | alternatesOff {colon : Bool} : ctx.config.features.alternates = false →
      Unselected ctx name (some ⟨.instead, colon⟩)
  | present {colon : Bool} {v : Text} : ctx.lookup name = some v → (colon = true → v ≠ []) →
      Unselected ctx name (some ⟨.otherwise, colon⟩)
  | absent {colon : Bool} : ctx.lookup name = none → Unselected ctx name (some ⟨.instead, colon⟩)
  | empty : ctx.lookup name = some [] → Unselected ctx name (some ⟨.instead, true⟩)

/-- Does an operator pick the fallback of a reference to this name? -/
def picks (ctx : Context) (name : Text) (op : Operator) : Bool :=
  ctx.honours op && op.takesFallback (ctx.lookup name)

section
variable {ctx : Context} {name : Text} {op : Operator}

/-- **A fallback is picked exactly where it is selected.** -/
theorem unselected_iff : ctx.Unselected name (some op) ↔ ctx.picks name op = false := by
  constructor
  · intro h
    cases h with
    | defaultsOff hoff => simp [picks, honours, hoff]
    | alternatesOff hoff => simp [picks, honours, hoff]
    | present hv hcolon =>
        rw [picks, hv, Operator.takesFallback, Operator.holds]
        simpa [Decidable.imp_iff_not_or] using Or.inr hcolon
    | absent hv => simp [picks, hv, Operator.takesFallback, Operator.holds]
    | empty hv => simp [picks, hv, Operator.takesFallback, Operator.holds]
  · intro h
    obtain ⟨form, colon⟩ := op
    cases form with
    | otherwise =>
        rw [picks, Bool.and_eq_false_iff] at h
        rcases h with hoff | hpick
        · exact .defaultsOff hoff
        · cases hv : ctx.lookup name with
          | none => simp [hv, Operator.takesFallback, Operator.holds] at hpick
          | some v =>
              exact .present hv (by simpa [hv, Operator.takesFallback, Operator.holds] using hpick)
    | instead =>
        rw [picks, Bool.and_eq_false_iff] at h
        rcases h with hoff | hpick
        · exact .alternatesOff hoff
        · cases hv : ctx.lookup name with
          | none => exact .absent hv
          | some v =>
              obtain ⟨rfl, rfl⟩ : colon = true ∧ v = [] := by
                simpa [hv, Operator.takesFallback, Operator.holds] using hpick
              exact .empty hv

/-- What is not picked is not expanded. -/
theorem expandChoice_of_not_picks (h : ctx.picks name op = false) (x y : Expansion Text) :
    ctx.expandChoice name op x = ctx.expandChoice name op y := by
  rw [picks] at h
  unfold expandChoice
  cases hon : ctx.honours op with
  | false => rfl
  | true =>
      rw [hon, Bool.true_and] at h
      simp only [h, Bool.not_true, Bool.false_eq_true, if_false]

/-- Nothing happens where nothing is picked. -/
theorem choiceAccount_of_not_picks (h : ctx.picks name op = false) (es : Account) :
    ctx.choiceAccount name op es = .nothing := by
  rw [picks] at h
  rw [choiceAccount, h]
  rfl

end

/-! ## Trees without these fallbacks -/

/-- A fallback that is not selected leaves nothing behind. -/
theorem pruned_ref_of_unselected {ctx : Context} {name : Text} {op : Option Operator}
    (h : ctx.Unselected name op) (raw : Text) (f : Option (List Node)) :
    Node.pruned ctx.picks (.ref name raw op f) = .ref name [] op none := by
  cases op with
  | none => rw [Node.pruned]
  | some op =>
      cases f with
      | none => rw [Node.pruned]
      | some f => rw [Node.pruned, unselected_iff.1 h, if_neg Bool.false_ne_true]

mutual

/-- Pruning changes nothing about the expansion of a node, or about what happens in it. -/
theorem expand_pruned (ctx : Context) (p : Place) : ∀ n : Node,
    ctx.expand p (n.pruned ctx.picks) = ctx.expand p n
      ∧ ctx.account (n.pruned ctx.picks) = ctx.account n
  | .lit t => by rw [Node.pruned]; exact ⟨rfl, rfl⟩
  | .ref name raw none f => by
      rw [Node.pruned, expand, expand, account, account]
      exact ⟨rfl, rfl⟩
  | .ref name raw (some op) none => by
      rw [Node.pruned, expand, expand, account, account]
      exact ⟨rfl, rfl⟩
  | .ref name raw (some op) (some f) => by
      rw [Node.pruned]
      cases hpick : ctx.picks name op with
      | false =>
          rw [if_neg Bool.false_ne_true, expand, expand, account, account,
            choiceAccount_of_not_picks hpick,
            expandChoice_of_not_picks hpick (pure []) (ctx.expandOnto .value [] f)]
          exact ⟨rfl, rfl⟩
      | true =>
          obtain ⟨hexpand, haccount⟩ := expandAll_prunedAll ctx .value f
          rw [expandAll, expandAll] at hexpand
          rw [if_pos rfl, expand, expand, account, account, hexpand, haccount]
          exact ⟨rfl, rfl⟩
  | .command line raw => by
      obtain ⟨hexpand, haccount⟩ := expandAll_prunedAll ctx .line line
      rw [Node.pruned, account, account, hexpand, haccount]
      rw [expandAll, expandAll] at hexpand
      rw [expand, expand, hexpand]
      exact ⟨rfl, rfl⟩
  | .group ns => by
      obtain ⟨hexpand, haccount⟩ := expandAll_prunedAll ctx .value ns
      rw [expandAll, expandAll] at hexpand
      rw [Node.pruned, expand, expand, account, account]
      exact ⟨hexpand, haccount⟩
  | .nothing => by rw [Node.pruned]; exact ⟨rfl, rfl⟩

/-- **Pruning changes nothing about the expansion of nodes**, or about what happens in it. -/
theorem expandAll_prunedAll (ctx : Context) (p : Place) : ∀ ns : List Node,
    ctx.expandAll p (Node.prunedAll ctx.picks ns) = ctx.expandAll p ns
      ∧ ctx.accountAll p (Node.prunedAll ctx.picks ns) = ctx.accountAll p ns
  | [] => by rw [Node.prunedAll]; exact ⟨rfl, rfl⟩
  | n :: ns => by
      obtain ⟨hexpand, haccount⟩ := expand_pruned ctx p n
      obtain ⟨hexpandAll, haccountAll⟩ := expandAll_prunedAll ctx p ns
      rw [Node.prunedAll, expandAll_cons, expandAll_cons, accountAll, accountAll, hexpand, haccount,
        hexpandAll, haccountAll]
      exact ⟨rfl, rfl⟩

end

/-- A fallback that the node has is selected. -/
def Selected (ctx : Context) : Node → Prop
  | .ref name _ op (some _) => ¬ ctx.Unselected name op
  | _ => True

/-- Every fallback among the nodes is selected. -/
def SelectedAll (ctx : Context) : Node.Placed := fun _ _ ns => ∀ n ∈ ns, ctx.Selected n

mutual

theorem selected_pruned (ctx : Context) (a : Nat) (l : Bool) : ∀ n : Node,
    ctx.Selected (n.pruned ctx.picks) ∧ Node.Inside ctx.SelectedAll a l (n.pruned ctx.picks)
  | .lit t => by rw [Node.pruned]; exact ⟨trivial, Node.inside_lit t⟩
  | .ref name raw none f => by rw [Node.pruned]; exact ⟨trivial, Node.inside_ref_none _ _ _⟩
  | .ref name raw (some op) none => by rw [Node.pruned]; exact ⟨trivial, Node.inside_ref_none _ _ _⟩
  | .ref name raw (some op) (some f) => by
      rw [Node.pruned]
      cases hpick : ctx.picks name op with
      | false =>
          rw [if_neg Bool.false_ne_true]
          exact ⟨trivial, Node.inside_ref_none _ _ _⟩
      | true =>
          rw [if_pos rfl, Node.Inside]
          refine ⟨fun hun => ?_, selected_prunedAll ctx (a + 1) l f⟩
          rw [unselected_iff, hpick] at hun
          cases hun
  | .command line raw => by
      rw [Node.pruned, Node.Inside]
      exact ⟨trivial, selected_prunedAll ctx a true line⟩
  | .group ns => by
      rw [Node.pruned, Node.Inside]
      exact ⟨trivial, selected_prunedAll ctx a l ns⟩
  | .nothing => by rw [Node.pruned]; exact ⟨trivial, Node.inside_nothing⟩

theorem selected_prunedAll (ctx : Context) (a : Nat) (l : Bool) : ∀ ns : List Node,
    ctx.SelectedAll a l (Node.prunedAll ctx.picks ns)
      ∧ Node.InsideAll ctx.SelectedAll a l (Node.prunedAll ctx.picks ns)
  | [] => by
      rw [Node.prunedAll, Node.InsideAll]
      exact ⟨fun n hn => absurd hn List.not_mem_nil, trivial⟩
  | n :: ns => by
      obtain ⟨hself, hinside⟩ := selected_pruned ctx a l n
      obtain ⟨hall, hinsideAll⟩ := selected_prunedAll ctx a l ns
      rw [Node.prunedAll, Node.InsideAll]
      exact ⟨List.forall_mem_cons.2 ⟨hself, hall⟩, hinside, hinsideAll⟩

end

/-- **What is left holds selected fallbacks only**, at every depth. -/
theorem everywhere_selected_prunedAll (ctx : Context) (ns : List Node) :
    Node.Everywhere ctx.SelectedAll 0 false (Node.prunedAll ctx.picks ns) := by
  obtain ⟨hall, hinside⟩ := selected_prunedAll ctx 0 false ns
  exact ⟨hall, Node.insideAll_iff.1 hinside⟩

/-! ## Other fallbacks in their place -/

/-- One fallback that is not selected, somewhere in a tree, is replaced by another one, or by none.
The texts that nodes were read from may change with it. -/
inductive Refills (ctx : Context) : List Node → List Node → Prop where
  | here (before behind : List Node) {name raw raw' : Text} {op : Option Operator}
      (f f' : Option (List Node)) : ctx.Unselected name op →
      Refills ctx (before ++ .ref name raw op f :: behind)
        (before ++ .ref name raw' op f' :: behind)
  | fallback (before behind : List Node) {name raw raw' : Text} {op : Option Operator}
      {f f' : List Node} : Refills ctx f f' →
      Refills ctx (before ++ .ref name raw op (some f) :: behind)
        (before ++ .ref name raw' op (some f') :: behind)
  | line (before behind : List Node) {raw raw' : Text} {line line' : List Node} :
      Refills ctx line line' →
      Refills ctx (before ++ .command line raw :: behind) (before ++ .command line' raw' :: behind)
  | group (before behind : List Node) {ns ns' : List Node} : Refills ctx ns ns' →
      Refills ctx (before ++ .group ns :: behind) (before ++ .group ns' :: behind)

/-- Trees that differ in a fallback that is not selected have the same left of them. -/
theorem prunedAll_of_refills {ctx : Context} {ns ms : List Node} (h : ctx.Refills ns ms) :
    Node.prunedAll ctx.picks ms = Node.prunedAll ctx.picks ns := by
  induction h with
  | here before behind f f' hun =>
      simp only [Node.prunedAll_append, Node.prunedAll, pruned_ref_of_unselected hun]
  | @fallback before behind name raw raw' op f f' _ ih =>
      cases op with
      | none => simp only [Node.prunedAll_append, Node.prunedAll, Node.pruned]
      | some op => simp only [Node.prunedAll_append, Node.prunedAll, Node.pruned, ih]
  | line before behind _ ih => simp only [Node.prunedAll_append, Node.prunedAll, Node.pruned, ih]
  | group before behind _ ih => simp only [Node.prunedAll_append, Node.prunedAll, Node.pruned, ih]

/-- **A fallback that is not selected is inert.** Replacing it, wherever it stands, changes nothing
about the expansion of the tree: not its text or why it halts, not what is counted, and not the
notices and the calls, whose order is the same as well. All of it comes from what is left of the
tree without such fallbacks, so from no command and no name inside one. -/
theorem expandAll_of_refills {ctx : Context} {ns ms : List Node} (h : ctx.Refills ns ms)
    (p : Place) :
    ctx.expandAll p ms = ctx.expandAll p ns
    ∧ ctx.accountAll p ms = ctx.accountAll p ns
    ∧ ctx.expandAll p ns = ctx.expandAll p (Node.prunedAll ctx.picks ns)
    ∧ Node.Everywhere ctx.SelectedAll 0 false (Node.prunedAll ctx.picks ns) := by
  have hsame : Node.prunedAll ctx.picks ms = Node.prunedAll ctx.picks ns := prunedAll_of_refills h
  obtain ⟨hns, haccount⟩ := ctx.expandAll_prunedAll p ns
  obtain ⟨hms, haccount'⟩ := ctx.expandAll_prunedAll p ms
  rw [hsame] at hms haccount'
  exact ⟨hms.symm.trans hns, haccount'.symm.trans haccount, hns.symm,
    ctx.everywhere_selected_prunedAll ns⟩

/-- The variable `V` is unset, and unset variables are noticed. -/
def hushed : Context where
  bindings := ∅
  environment := ∅
  config := { warnOnUndefined := true }
  shell := Script.shell { echo := true }

/-- A command with a reference to `V` that has this fallback, for where `V` has a value. -/
def hushedTree (fallback : Option (List Node)) : List Node :=
  [.command [.lit "echo ".toList, .ref ['V'] [] (some ⟨.instead, false⟩) fallback] []]

/-- A fallback with a command and an unset name in it. -/
def loud : List Node := [.command [.lit "boom".toList] [], .ref ['U'] [] none none]

/-- The command in the fallback is not run, and the name in it is not noticed. -/
theorem expandAll_of_refills_hushed :
    hushed.Refills (hushedTree (some loud)) (hushedTree none)
    ∧ hushed.expandAll .value (hushedTree none)
      = hushed.expandAll .value (hushedTree (some loud))
    ∧ ((hushed.expandAll .value (hushedTree (some loud))).after {}).2.calls.map Call.line
      = #["echo ''".toList]
    ∧ ((hushed.expandAll .value (hushedTree (some loud))).after {}).2.notices = #[] := by
  have hunset : hushed.lookup ['V'] = none := by decide +kernel
  have hrefills : hushed.Refills (hushedTree (some loud)) (hushedTree none) :=
    .line [] [] (.here [.lit "echo ".toList] [] (some loud) none (.absent hunset))
  obtain ⟨hsame, -, -, -⟩ := expandAll_of_refills hrefills .value
  refine ⟨hrefills, hsame, ?_, ?_⟩
  · rw [← hsame]
    decide +kernel
  · rw [← hsame]
    decide +kernel

end Context
end EnvValues
