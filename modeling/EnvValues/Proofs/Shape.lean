import EnvValues.Proofs.Reading

/-!
# The shape of what was read

Whoever works on nodes that were read relies on their shape without a look at it: that
literals never touch, that a fallback comes with an operator, that a command line holds
no command, that a feature that is off leaves no node of its kind, and that no region
is nested deeper than the limit.

All of this holds at every depth of every value, and whatever is wrong with the value.
-/

namespace EnvValues
namespace Node

/-- Is a reference with this text written with braces? -/
def isBraced (raw : Text) : Bool := ['$', '{'].isPrefixOf raw

theorem isBraced_bare {name : Text} (h : Name.isName name = true) :
    isBraced ('$' :: name) = false := by
  cases name with
  | nil => rfl
  | cons c u =>
      -- a name begins with no brace
      have hc : '{' ≠ c := by
        rintro rfl
        simp [Name.isName, Name.isStart] at h
      simp [isBraced, List.isPrefixOf, hc]

/-- A reference as reading makes it, with so many references around it. -/
structure RefShaped (f : Features) (bareNames : Bool) (depth : Int) (around : Nat)
    (inLine : Bool) (name raw : Text) (op : Option Operator) (fallback : Option (List Node)) :
    Prop where
  name : Name.isName name = true
  operator : op = none ↔ fallback = none
  enabled : f.references = true
  /-- Only outside command lines are there references without braces. -/
  braced : isBraced raw = true ∨ (bareNames = true ∧ inLine = false)
  within : isBraced raw = true → (around : Int) < depth

/-- A node as reading makes it, with so many references around it: no sequence stands
directly in a sequence, and no command in a command line. -/
def NodeShaped (f : Features) (bareNames : Bool) (depth : Int) (around : Nat) (inLine : Bool) :
    Node → Prop
  | lit _ => True
  | ref name raw op fallback => RefShaped f bareNames depth around inLine name raw op fallback
  | command _ _ => f.commands = true ∧ inLine = false ∧ (around : Int) < depth
  | group _ => False
  | nothing => False

/-- A sequence as reading makes it. -/
def Shaped (f : Features) (bareNames : Bool) (depth : Int) : Placed := fun around inLine ns =>
  Separated ns ∧ ∀ n ∈ ns, NodeShaped f bareNames depth around inLine n

/-- With room left for nesting, the limit is not reached yet. -/
theorem around_lt {depth : Int} {room : Nat} (h : room + 1 ≤ depth.toNat) :
    ((depth.toNat - (room + 1) : Nat) : Int) < depth := by
  omega

/-- What a grammar reads in its place has the shape of that place. -/
theorem Grammar.Reads.shaped {f : Features} {bareNames inLine : Bool} {depth : Int} {room : Nat}
    {t rest : Text} {n : Node} (hroom : room ≤ depth.toNat)
    (h : (Grammar.ofPlace f bareNames inLine).Reads room t n rest) :
    NodeShaped f bareNames depth (depth.toNat - room) inLine n := by
  have hreferences : (Grammar.ofPlace f bareNames inLine).references = f.references := by
    cases inLine <;> rfl
  cases h with
  | kept => trivial
  | braced hv hn =>
      exact ⟨hn, by simp, hreferences ▸ hv, Or.inl rfl, fun _ => around_lt hroom⟩
  | fallback hv hn hs hraw =>
      have hb := congrArg isBraced (hs.raw_eq hraw)
      exact ⟨hn, by simp, hreferences ▸ hv, Or.inl hb, fun _ => around_lt hroom⟩
  | line h =>
      obtain ⟨hl, hc, -⟩ := Grammar.line_ofPlace h
      exact ⟨hc, hl, around_lt hroom⟩
  | @bare room name rest hv hb hn =>
      have hplace : bareNames = true ∧ inLine = false := by
        cases inLine with
        | true => exact nomatch hb
        | false => exact ⟨hb, rfl⟩
      exact ⟨hn, by simp, hreferences ▸ hv, Or.inr hplace, by simp [isBraced_bare hn]⟩

/-- **What is read has its shape at every depth**, for every value, all features, every
limit and with bare names or without. -/
theorem everywhere_shaped_parse (f : Features) (bareNames : Bool) (depth : Int) (t : Text) :
    Everywhere (Shaped f bareNames depth) 0 false (parse f bareNames depth t) := by
  refine everywhere_parse (fun room hroom inLine ns hg => ⟨hg.separated, fun n hn => ?_⟩) t
  cases hl : n.isLit with
  | true =>
      obtain ⟨u, rfl⟩ := exists_lit_of_isLit hl
      trivial
  | false =>
      obtain ⟨u, rest, hr⟩ := hg.reads n hn hl
      exact hr.shaped hroom

end Node
end EnvValues
