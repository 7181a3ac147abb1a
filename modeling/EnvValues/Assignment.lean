import EnvValues.Text.Basic
import Std.Data.ExtTreeMap

/-!
# Assignments

An assignment gives some names a value each. Two assignments that give the same
names the same values are equal: the order in which they were written down is no
part of them.
-/

namespace EnvValues

/-- Values by name. -/
abbrev Assignment (α : Type) := Std.ExtTreeMap Text α

namespace Assignment

/-- The assignment a list of pairs writes down. Of two values for a name the later
one counts. -/
def ofList {α : Type} (l : List (Text × α)) : Assignment α := Std.ExtTreeMap.ofList l

/-- Where no name has two values, the pairs that are written down are the assignment. -/
theorem getElem?_ofList_eq_some {α : Type} {l : List (Text × α)} (h : (l.map Prod.fst).Nodup)
    {name : Text} {v : α} : (ofList l)[name]? = some v ↔ (name, v) ∈ l := by
  have hdistinct : l.Pairwise fun p q => ¬ compare p.1 q.1 = .eq := by
    refine (List.pairwise_map.1 h).imp fun hne heq => hne ?_
    exact Std.LawfulEqCmp.eq_of_compare heq
  have hmem : ∀ {v}, (name, v) ∈ l → (ofList l)[name]? = some v := fun hv =>
    Std.ExtTreeMap.getElem?_ofList_of_mem Std.ReflCmp.compare_self hdistinct hv
  refine ⟨fun hv => ?_, hmem⟩
  cases hc : (l.map Prod.fst).contains name with
  | false =>
      rw [ofList, Std.ExtTreeMap.getElem?_ofList_of_contains_eq_false hc] at hv
      exact nomatch hv
  | true =>
      obtain ⟨⟨name', u⟩, hu, rfl⟩ := List.mem_map.1 (List.contains_iff_mem.1 hc)
      obtain rfl : u = v := Option.some.inj ((hmem hu).symm.trans hv)
      exact hu

/-- Both assignments in one; a name with two values takes the one of `upper`. -/
def overlay {α : Type} (base upper : Assignment α) : Assignment α := base ∪ upper

@[simp] theorem getElem?_overlay {α : Type} (base upper : Assignment α) (name : Text) :
    (base.overlay upper)[name]? = upper[name]?.or base[name]? := by
  rw [overlay, Std.ExtTreeMap.getElem?_union]

end Assignment

/-- The variables that a process starts with. -/
abbrev Environment := Assignment Text

end EnvValues
