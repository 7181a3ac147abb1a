import EnvValues.Proofs.Reading

/-!
# The text of what was read

References and commands keep the text they were read from. That text is cut out of the
value by counting, and here it is tied to the parts of the node: it is how these parts
are written, at every depth.

Reading is total, so **whatever is wrong with a value, nothing of it is lost**: the
nodes that are read, written one after the other, are the value again.
-/

namespace EnvValues
namespace Node

/-- Is the text of a node how its parts are written? A reference has an operator and a
fallback or neither, and one that has neither is written with braces or without. -/
def Spelled : Node → Prop
  | lit _ => True
  | ref name raw none none => raw = '$' :: name ∨ raw = '$' :: '{' :: (name ++ ['}'])
  | ref name raw (some op) (some f) =>
    raw = '$' :: '{' :: (name ++ (op.token ++ (rawAll f ++ ['}'])))
  | command line raw => raw = '$' :: '(' :: (rawAll line ++ [')'])
  | _ => False

/-- Spelled out, every node but a literal begins with a dollar. -/
theorem Spelled.raw_eq_cons {n : Node} (h : Spelled n) (hl : n.isLit = false) :
    ∃ u, n.raw = '$' :: u := by
  cases n with
  | lit t => exact nomatch hl
  | group ns => exact h.elim
  | nothing => exact h.elim
  | command line raw => exact ⟨_, h⟩
  | ref name raw op fallback =>
      cases op <;> cases fallback
      · rcases h with h | h
        · exact ⟨_, h⟩
        · exact ⟨_, h⟩
      · exact h.elim
      · exact h.elim
      · exact ⟨_, h⟩

/-- A node that is read is spelled as its parts are, if command lines are. -/
theorem Grammar.Reads.spelled {g : Grammar} {room : Nat} {t rest : Text} {n : Node}
    (hline : ∀ line, g.line = some line → ∀ r u, rawAll (line r u) = u)
    (h : g.Reads room t n rest) : Spelled n := by
  cases h with
  | kept => trivial
  | braced => exact Or.inr rfl
  | fallback _ _ hs hraw => exact hs.raw_eq hraw
  | line h => rw [Spelled, hline _ h]
  | bare => exact Or.inl rfl

/-- **Reading keeps the text.** For every value, all features, every depth and with bare
names or without, what is read is written as the value, and at every depth the text of
a node is how its parts are written. -/
theorem rawAll_parse_and_spelled (f : Features) (bareNames : Bool) (depth : Int) (t : Text) :
    rawAll (parse f bareNames depth t) = t ∧
      Everywhere (fun _ _ ns => ∀ n ∈ ns, Spelled n) 0 false (parse f bareNames depth t) := by
  refine ⟨Grammar.rawAll_nodes _ _ t, everywhere_parse (fun room _ inLine ns hg n hn => ?_) t⟩
  cases hl : n.isLit with
  | true =>
      obtain ⟨u, rfl⟩ := exists_lit_of_isLit hl
      trivial
  | false =>
      obtain ⟨u, rest, hr⟩ := hg.reads n hn hl
      refine hr.spelled fun line h r v => ?_
      obtain ⟨-, -, rfl⟩ := Grammar.line_ofPlace h
      exact Grammar.rawAll_nodes _ r v

end Node
end EnvValues
