import EnvValues.Text.Basic

/-!
# Nodes

A value is read as a list of nodes: plain text, references to variables, and
commands whose output is substituted. A reference may carry an operator and a
fallback, which is a list of nodes again, and a command carries the nodes of its
command line.

References and commands keep the text they were read from, so that `Node.raw` can
write every node back. Nothing in the type ties that text to the other fields, or a
fallback to an operator: a node may be built by hand, and one that was read is held
together by the laws of reading.

Adjacent literals say no more than one literal, and an empty one says nothing.
`Node.join` puts a list of pieces into the form in which no two literals touch and
none is empty.
-/

namespace EnvValues

/-- The two questions an operator can put to a variable. -/
inductive Operator.Form
  /-- `-`: take the fallback when the variable has no value. -/
  | otherwise
  /-- `+`: take the fallback when the variable has one. -/
  | instead
  deriving DecidableEq, Repr

/-- An operator between the name of a reference and its fallback. -/
structure Operator where
  form : Operator.Form
  /-- Written with a colon: an empty value counts as no value. -/
  colon : Bool
  deriving DecidableEq, Repr

namespace Operator

/-- The operator as it is written. -/
def token (op : Operator) : Text :=
  (if op.colon then [':'] else []) ++ (match op.form with | .otherwise => ['-'] | .instead => ['+'])

/-- The operator a text begins with. -/
def leading? : Text → Option Operator
  | ':' :: '-' :: _ => some ⟨.otherwise, true⟩
  | ':' :: '+' :: _ => some ⟨.instead, true⟩
  | '-' :: _ => some ⟨.otherwise, false⟩
  | '+' :: _ => some ⟨.instead, false⟩
  | _ => none

/-- Does the operator count the variable as one that has a value? -/
def holds (op : Operator) : Option Text → Bool
  | none => false
  | some v => !(op.colon && v.isEmpty)

/-- Does the operator take its fallback, for this value of the variable? -/
def takesFallback (op : Operator) (value : Option Text) : Bool :=
  match op.form with
  | .otherwise => !op.holds value
  | .instead => op.holds value

theorem leading?_token_append (op : Operator) (t : Text) : leading? (op.token ++ t) = some op := by
  obtain ⟨form, colon⟩ := op
  cases form <;> cases colon <;> rfl

/-- Reading an operator off a text loses nothing. -/
theorem eq_append_of_leading? {op : Operator} {t : Text} (h : leading? t = some op) :
    t = op.token ++ t.drop op.token.length := by
  unfold leading? at h
  split at h
  · cases h; rfl
  · cases h; rfl
  · cases h; rfl
  · cases h; rfl
  · exact nomatch h

end Operator

/-- One piece of a value as it was read. -/
inductive Node
  /-- Text that stands for itself. -/
  | lit (text : Text)
  /-- The value of a variable or, where an operator decides so, a fallback. -/
  | ref (name raw : Text) (operator : Option Operator) (fallback : Option (List Node))
  /-- The output of a command. -/
  | command (line : List Node) (raw : Text)
  /-- Nodes taken together. Reading a value makes none of these. -/
  | group (nodes : List Node)
  /-- Nothing at all. Reading a value makes none of these. -/
  | nothing
  deriving Repr, Inhabited

namespace Node

mutual

/-- The text a node was read from. -/
def raw : Node → Text
  | lit t => t
  | ref _ raw _ _ => raw
  | command _ raw => raw
  | group nodes => rawAll nodes
  | nothing => []

/-- The text a list of nodes was read from. -/
def rawAll : List Node → Text
  | [] => []
  | n :: ns => raw n ++ rawAll ns

end

/-- A literal. -/
def isLit : Node → Bool
  | lit _ => true
  | _ => false

/-- Is anything left to be resolved? -/
def hasExpansions (ns : List Node) : Bool := ns.any fun n => !n.isLit

/-- Put a piece in front of nodes, as part of their first literal where it can be. -/
def cons : Node → List Node → List Node
  | lit [], ns => ns
  | lit (c :: t), lit u :: ns => lit (c :: t ++ u) :: ns
  | n, ns => n :: ns

/-- Join pieces so that no literal is empty and no two literals touch. -/
def join (pieces : List Node) : List Node := pieces.foldr cons []

@[simp] theorem rawAll_nil : rawAll [] = [] := by rw [rawAll]

@[simp] theorem rawAll_cons (n : Node) (ns : List Node) :
    rawAll (n :: ns) = raw n ++ rawAll ns := by rw [rawAll]

theorem rawAll_singleton (n : Node) : rawAll [n] = raw n := by
  rw [rawAll_cons, rawAll_nil, List.append_nil]

@[simp] theorem rawAll_append (ns ms : List Node) : rawAll (ns ++ ms) = rawAll ns ++ rawAll ms := by
  induction ns with
  | nil => simp
  | cons n ns ih => simp [ih]

/-- The text of a node is a piece of the text of the nodes around it. -/
theorem raw_isInfix_of_mem {n : Node} {ns : List Node} (h : n ∈ ns) : n.raw <:+: rawAll ns := by
  obtain ⟨before, behind, rfl⟩ := List.append_of_mem h
  rw [rawAll_append, rawAll_cons]
  exact ⟨rawAll before, rawAll behind, by rw [List.append_assoc]⟩

@[simp] theorem join_nil : join [] = [] := rfl

@[simp] theorem join_cons (n : Node) (ns : List Node) : join (n :: ns) = cons n (join ns) := rfl

theorem rawAll_consNode (n : Node) (ns : List Node) : rawAll (cons n ns) = raw n ++ rawAll ns := by
  fun_cases cons n ns <;> simp [raw]

/-- **Joining pieces changes nothing about what they are written as.** -/
@[simp] theorem rawAll_join (ns : List Node) : rawAll (join ns) = rawAll ns := by
  induction ns with
  | nil => rfl
  | cons n ns ih => rw [join_cons, rawAll_consNode, ih, rawAll_cons]

end Node
end EnvValues
