import EnvValues.Proofs.Locality

/-!
# Where braced regions end

There are two ways to the end of a braced region. What is kept as text is gone over by a count of
its braces (`Region.braced?`), which ends at the first closing brace that balances
(`braced?_eq_some_iff`). What has an operator is read: nodes inside it are read in turn, each up to
an end of its own, and only the braces between them are counted.

Without commands, the two are the same. A count of braces goes over a region inside as if it stood
behind it, and does not come to an end where a region inside does not (`Construct.Counted`). So
along a fallback **the reader's count is the flat one** (`fallbackFrom_counted`), and by induction
on the room for nesting **every braced region ends where its braces balance**, whichever way it is
taken, as long as there is room for all the regions that the text opens (`braced_ends_alike`).
-/

namespace EnvValues
namespace Region

/-! ## The count of braces -/

/-- How many braces a text leaves open is told by counting them. -/
theorem count_of_balanceFrom {opened d : Nat} {t : Text} (h : balanceFrom opened t = some d) :
    d + t.count '}' = opened + t.count '{' := by
  fun_induction balanceFrom opened t with
  | case1 opened =>
      obtain rfl := Option.some.inj h
      rfl
  | case2 opened t ih =>
      have hrest := ih h
      rw [List.count_cons_of_ne (by decide), List.count_cons_self]
      omega
  | case3 => cases h
  | case4 opened t ih =>
      have hrest := ih h
      rw [List.count_cons_self, List.count_cons_of_ne (by decide)]
      omega
  | case5 opened c t hopen hend hclose ih =>
      rw [List.count_cons_of_ne (ne_close hend hclose), List.count_cons_of_ne hopen, ih h]

/-- A count comes to an end at a brace before which as many are closed as were opened, or before. -/
theorem exists_bracedFrom {u : Text} (opened : Nat) (h : opened + u.count '{' ≤ u.count '}')
    (n : Nat) (v : Text) :
    ∃ k, bracedFrom opened n (u ++ '}' :: v) = some k ∧ k ≤ n + u.length + 1 := by
  induction u generalizing opened n with
  | nil =>
      obtain rfl : opened = 0 := by simpa using h
      exact ⟨n + 1, rfl, Nat.le_refl _⟩
  | cons c u ih =>
      rw [List.cons_append, List.length_cons]
      by_cases hopen : c = '{'
      · subst hopen
        rw [List.count_cons_self, List.count_cons_of_ne (by decide)] at h
        obtain ⟨k, hk, hle⟩ := ih (opened + 1) (by omega) (n + 1)
        exact ⟨k, by rw [bracedFrom, hk], by omega⟩
      by_cases hclose : c = '}'
      · subst hclose
        rw [List.count_cons_of_ne (by decide), List.count_cons_self] at h
        cases opened with
        | zero => exact ⟨n + 1, by rw [bracedFrom], by omega⟩
        | succ opened =>
            obtain ⟨k, hk, hle⟩ := ih opened (by omega) (n + 1)
            exact ⟨k, by rw [bracedFrom, hk], by omega⟩
      · rw [List.count_cons_of_ne hopen, List.count_cons_of_ne hclose] at h
        obtain ⟨k, hk, hle⟩ := ih opened h (n + 1)
        exact ⟨k, by rw [bracedFrom_char hopen hclose, hk], by omega⟩

/-- What is not closed is not closed either with more braces open. -/
theorem bracedFrom_add_eq_none {opened n : Nat} {t : Text} (h : bracedFrom opened n t = none)
    (m n' : Nat) : bracedFrom (opened + m) n' t = none := by
  rw [Option.eq_none_iff_forall_ne_some]
  intro k hk
  obtain ⟨inner, rest, rfl, -, hinner⟩ := exists_balanceFrom_of_bracedFrom hk
  have hcount := count_of_balanceFrom hinner
  obtain ⟨k', hk', -⟩ := exists_bracedFrom (u := inner) opened (by omega) n rest
  rw [h] at hk'
  cases hk'

/-- **A count goes over a region**: behind it, as many braces are open as before it. -/
theorem bracedFrom_region {t : Text} {k : Nat} (h : braced? t = some k) (opened n : Nat) :
    bracedFrom opened n ('{' :: t) = bracedFrom opened (n + (k + 1)) (t.drop k) := by
  obtain ⟨inner, rest, rfl, hk, hinner⟩ := exists_balanceFrom_of_bracedFrom h
  have hopened : balanceFrom (opened + 1) inner = some (opened + 1) := by
    simpa [Nat.add_comm] using balanceFrom_add hinner (opened + 1)
  have hdrop : (inner ++ '}' :: rest).drop k = rest := by
    rw [hk, Nat.zero_add, ← List.drop_drop, List.drop_left']
    · rfl
    · rfl
  rw [hdrop, bracedFrom, bracedFrom_append_of_balanceFrom hopened, bracedFrom, hk]
  congr 1
  omega

/-- Behind a text that leaves no brace open, the braces balance where they do without it. -/
theorem braced?_append {u : Text} (h : balanceFrom 0 u = some 0) (t : Text) :
    braced? (u ++ t) = (braced? t).map (· + u.length) := by
  rw [braced?, bracedFrom_append_of_balanceFrom h, bracedFrom_add]
  rfl

/-- The text begins with `inner` and the first closing brace that balances: an opening brace before
`inner` would be closed there, and nowhere further to the left. -/
structure FirstBalance (t inner rest : Text) : Prop where
  split : t = inner ++ '}' :: rest
  balanced : inner.count '}' = inner.count '{'
  first : ∀ u v, t = u ++ '}' :: v → u.count '}' = u.count '{' → inner.length ≤ u.length

/-- No closing brace balances. -/
def Unbalanced (t : Text) : Prop := ∀ u v, t = u ++ '}' :: v → u.count '}' ≠ u.count '{'

/-- **A braced region that is gone over by counting ends at the first brace that balances.** -/
theorem braced?_eq_some_iff {t : Text} {k : Nat} :
    braced? t = some k ↔ ∃ inner rest, FirstBalance t inner rest ∧ k = inner.length + 1 := by
  -- a brace that balances is an end, and there is none behind it
  have hend : ∀ u v : Text, u.count '}' = u.count '{' →
      ∃ j, braced? (u ++ '}' :: v) = some j ∧ j ≤ u.length + 1 := by
    intro u v hu
    obtain ⟨j, hj, hle⟩ := exists_bracedFrom (u := u) 0 (by omega) 0 v
    exact ⟨j, hj, by omega⟩
  have hfirst : ∀ {j : Nat}, braced? t = some j →
      ∃ inner rest, FirstBalance t inner rest ∧ j = inner.length + 1 := by
    intro j h
    obtain ⟨inner, rest, rfl, hj, hinner⟩ := exists_balanceFrom_of_bracedFrom h
    have hcount := count_of_balanceFrom hinner
    refine ⟨inner, rest, ⟨rfl, by omega, fun u v heq hu => ?_⟩, by omega⟩
    obtain ⟨i, hi, hle⟩ := hend u v hu
    rw [← heq, h] at hi
    have := Option.some.inj hi
    omega
  refine ⟨hfirst, ?_⟩
  rintro ⟨inner, rest, hbalance, rfl⟩
  obtain ⟨j, hj, -⟩ := hend inner rest hbalance.balanced
  rw [← hbalance.split] at hj
  obtain ⟨inner', rest', hbalance', rfl⟩ := hfirst hj
  -- both are first
  have hle := hbalance.first inner' rest' hbalance'.split hbalance'.balanced
  have hge := hbalance'.first inner rest hbalance.split hbalance.balanced
  rw [hj]
  congr 1
  omega

/-- **It does not end where no brace balances.** -/
theorem braced?_eq_none_iff {t : Text} : braced? t = none ↔ Unbalanced t := by
  constructor
  · rintro h u v rfl hu
    obtain ⟨k, hk, -⟩ := exists_bracedFrom (u := u) 0 (by omega) 0 v
    rw [braced?, hk] at h
    cases h
  · intro h
    rw [Option.eq_none_iff_forall_ne_some]
    intro k hk
    obtain ⟨inner, rest, hbalance, -⟩ := braced?_eq_some_iff.1 hk
    exact h inner rest hbalance.split hbalance.balanced

end Region

namespace Node

/-! ## Readers that keep the count -/

/-- How much a construct takes, where it is a node. -/
def Construct.taken? : Construct → Option Nat
  | .node _ k => some k
  | _ => none

theorem Construct.taken?_eq_some_iff {c : Construct} {k : Nat} :
    c.taken? = some k ↔ ∃ n, c = .node n k := by
  cases c <;> simp [Construct.taken?]

theorem Construct.taken?_eq_none_iff {c : Construct} (h : c ≠ .plain) :
    c.taken? = none ↔ c = .unterminated := by
  cases c with
  | plain => exact absurd rfl h
  | unterminated => simp [Construct.taken?]
  | node n k => simp [Construct.taken?]

/-- A count of the braces of a text goes over what the text begins with as if it stood behind it,
and does not come to an end where a region at the beginning does not. -/
def Construct.Counted (t : Text) : Construct → Prop
  | .plain => True
  | .unterminated => ∀ opened n, Region.bracedFrom opened n t = none
  | .node _ k => ∀ opened n,
      Region.bracedFrom opened n t = Region.bracedFrom opened (n + k) (t.drop k)

section
variable {read : Text → Construct} {t : Text}

/-- **Along a fallback, the braces that the reader counts are closed where all of them are**, if the
count goes over whatever it reads. -/
theorem fallbackFrom_counted {done : List Node} {opened n skip : Nat}
    (h : ∀ u, '$' :: u <:+ t → (read u).Counted u) :
    (fallbackFrom read done opened n skip t).map Prod.snd
      = Region.bracedFrom opened (n + skip) (t.drop skip) := by
  have hbehind : ∀ {c : Char} {t : Text}, (∀ u, '$' :: u <:+ c :: t → (read u).Counted u) →
      ∀ u, '$' :: u <:+ t → (read u).Counted u :=
    fun h u hu => h u (hu.trans (List.suffix_cons _ _))
  fun_induction fallbackFrom read done opened n skip t with
  | case1 => rw [List.drop_nil]; rfl
  | case2 done opened n skip c t ih =>
      rw [ih (hbehind h), List.drop_succ_cons]
      congr 1
      omega
  | case3 done opened n t hr ih =>
      rw [ih (hbehind h), List.drop_zero, List.drop_zero,
        Region.bracedFrom_char (by decide) (by decide)]
  | case4 done opened n t hr =>
      have hcounted := h t (List.suffix_refl _)
      rw [hr] at hcounted
      rw [List.drop_zero, Region.bracedFrom_char (by decide) (by decide), hcounted]
      rfl
  | case5 done opened n t m k hr ih =>
      have hcounted := h t (List.suffix_refl _)
      rw [hr] at hcounted
      rw [ih (hbehind h), List.drop_zero, Region.bracedFrom_char (by decide) (by decide), hcounted]
  | case6 done opened n t _ ih =>
      rw [ih (hbehind h), List.drop_zero, List.drop_zero, Region.bracedFrom]
  | case7 done n t _ _ => rw [List.drop_zero, Region.bracedFrom]; rfl
  | case8 done n t m _ _ ih =>
      rw [ih (hbehind h), List.drop_zero, List.drop_zero, Region.bracedFrom]
  | case9 done opened n c t _ hopen hclose ih =>
      rw [ih (hbehind h), List.drop_zero, List.drop_zero, Region.bracedFrom_char hopen hclose]

/-- A fallback ends where its braces balance. -/
theorem fallback?_counted (h : ∀ u, '$' :: u <:+ t → (read u).Counted u) :
    (fallback? read t).map Prod.snd = Region.braced? t := by
  rw [fallback?, fallbackFrom_counted h]
  rfl

end

/-! ## Braced regions that are read -/

/-- What is kept is gone over by counting. -/
theorem taken?_kept (t : Text) : (kept t).taken? = (Region.braced? t).map (· + 1) := by
  unfold kept
  cases Region.braced? t <;> rfl

/-- **Whichever way a region is taken, it ends where its braces balance**, if a fallback does. -/
theorem taken?_braced {read : Text → Construct} {name after : Text}
    (hname : Name.isName name = true)
    (h : ∀ u, '$' :: u <:+ after → (read u).Counted u) :
    (braced read name after (name ++ after)).taken?
      = (Region.braced? (name ++ after)).map (· + 1) := by
  have hnamed : Region.braced? (name ++ after) = (Region.braced? after).map (· + name.length) :=
    Region.braced?_append (balanceFrom_name hname 0) after
  cases hop : Operator.leading? after with
  | some op =>
      -- the fallback is behind the operator
      have hbehind : ∀ u, '$' :: u <:+ after.drop op.token.length → (read u).Counted u :=
        fun u hu => h u (hu.trans (List.drop_suffix _ _))
      have hend : Region.braced? after = (Region.braced? (after.drop op.token.length)).map
          (· + op.token.length) := by
        rw [← Region.braced?_append (balanceFrom_token op), ← Operator.eq_append_of_leading? hop]
      rw [braced_operator hop, hnamed, hend, ← fallback?_counted hbehind]
      cases fallback? read (after.drop op.token.length) with
      | none => rfl
      | some r =>
          simp only [Construct.taken?, Option.map_some]
          congr 1
          omega
  | none =>
      by_cases hclose : after.head? = some '}'
      · -- a plain reference
        obtain ⟨rest, rfl⟩ := List.head?_eq_some_iff.1 hclose
        have hend : Region.braced? ('}' :: rest) = some 1 := rfl
        rw [hnamed, hend, braced, Construct.taken?, Option.map_some, Option.map_some]
        congr 1
        omega
      · rw [braced_kept hclose hop, taken?_kept]

/-- The number of places of a text where a braced region begins, as far as one can tell by two
characters. -/
def bracedOpenings : Text → Nat
  | [] => 0
  | c :: t => (if ['$', '{'].isPrefixOf (c :: t) then 1 else 0) + bracedOpenings t

theorem bracedOpenings_open (t : Text) :
    bracedOpenings ('$' :: '{' :: t) = bracedOpenings t + 1 := by
  simp [bracedOpenings, List.isPrefixOf, Nat.add_comm]

theorem bracedOpenings_le_of_suffix {t u : Text} (h : u <:+ t) :
    bracedOpenings u ≤ bracedOpenings t := by
  obtain ⟨v, rfl⟩ := h
  induction v with
  | nil => exact Nat.le_refl _
  | cons c v ih =>
      rw [List.cons_append, bracedOpenings]
      omega

namespace Grammar
variable {g : Grammar} {room : Nat}

/-- A region that takes what a count of its braces goes over is gone over by any count. -/
theorem counted_open {t : Text}
    (h : (g.construct room ('{' :: t)).taken? = (Region.braced? t).map (· + 1)) :
    (g.construct room ('{' :: t)).Counted ('{' :: t) := by
  cases hc : g.construct room ('{' :: t) with
  | plain => trivial
  | unterminated =>
      rw [hc] at h
      have hnone : Region.braced? t = none := Option.map_eq_none_iff.1 h.symm
      intro opened n
      rw [Region.bracedFrom, ← Nat.zero_add (opened + 1)]
      exact Region.bracedFrom_add_eq_none hnone _ _
  | node m k =>
      rw [hc] at h
      obtain ⟨j, hj, rfl⟩ := Option.map_eq_some_iff.1 h.symm
      intro opened n
      rw [Region.bracedFrom_region hj, List.drop_succ_cons]

/-- A name is gone over by any count. -/
theorem counted_name {c : Char} (hbrace : c ≠ '{') (hparen : c ≠ '(') (t : Text) :
    (g.construct room (c :: t)).Counted (c :: t) := by
  rw [construct_name hbrace hparen]
  split
  · next name after _ hleading =>
    intro opened n
    have hname : Name.isName name = true := Name.isName_of_leading? hleading
    rw [Name.eq_append_of_leading? hleading, List.drop_left,
      Region.bracedFrom_append_of_balanceFrom (balanceFrom_name hname opened)]
  · trivial

/-- **Without commands, every braced region ends where its braces balance**, if there is room for
all the regions that the text opens. -/
theorem taken?_construct_open (hline : g.line = none) {t : Text}
    (h : bracedOpenings ('$' :: '{' :: t) ≤ room) :
    (g.construct room ('{' :: t)).taken? = (Region.braced? t).map (· + 1) := by
  -- on the room: a fallback is read with less of it
  induction room generalizing t with
  | zero =>
      rw [bracedOpenings_open] at h
      omega
  | succ room ih =>
      rcases g.kept_or_reference t with hkept | ⟨name, after, hv, hleading⟩
      · rw [construct_kept hkept, taken?_kept]
      · obtain rfl := Name.eq_append_of_leading? hleading
        rw [construct_reference hv hleading]
        refine taken?_braced (Name.isName_of_leading? hleading) fun u hu => ?_
        rw [bracedOpenings_open] at h
        have hopenings := bracedOpenings_le_of_suffix (hu.trans (List.suffix_append name after))
        cases u using behind_cases with
        | nil => rw [construct_nil]; trivial
        | brace u => exact counted_open (ih (by omega))
        | paren u => rw [construct_paren_of_none hline]; trivial
        | other c u hbrace hparen => exact counted_name hbrace hparen u

end Grammar

/-- **Both ways to the end of a braced region lead to the same brace.** Let commands be off, and let
a text be behind `${`, with so many regions around it that the limit leaves room for as many more as
the text opens with these two characters. Then what is read is a node that ends just where the count
of braces does, whether it is a reference, with a fallback or without, or a literal, and it is
unterminated just where the count does not come to an end. The end of the count is the first closing
brace that balances, and where no brace balances there is none. -/
theorem braced_ends_alike {f : Features} (hoff : f.commands = false) (bareNames : Bool)
    {limit : Int} {around : Nat} {t : Text}
    (hroom : (bracedOpenings ('$' :: '{' :: t) : Int) ≤ limit - around) :
    let region := (Grammar.ofValue f.references f.commands bareNames).construct
      (limit.toNat - around) ('{' :: t)
    region ≠ .plain
    ∧ (∀ k, (∃ n, region = .node n (k + 1)) ↔ Region.braced? t = some k)
    ∧ (region = .unterminated ↔ Region.braced? t = none)
    ∧ (∀ k, Region.braced? t = some k
        ↔ ∃ inner rest, Region.FirstBalance t inner rest ∧ k = inner.length + 1)
    ∧ (Region.braced? t = none ↔ Region.Unbalanced t) := by
  intro region
  have hline : (Grammar.ofValue f.references f.commands bareNames).line = none := by
    rw [Grammar.ofValue, hoff]
    rfl
  have htaken : region.taken? = (Region.braced? t).map (· + 1) :=
    Grammar.taken?_construct_open hline (by omega)
  have hplain : region ≠ .plain := Grammar.construct_open_ne_plain
  refine ⟨hplain, fun k => ?_, ?_, fun k => Region.braced?_eq_some_iff, Region.braced?_eq_none_iff⟩
  · rw [← Construct.taken?_eq_some_iff, htaken, Option.map_eq_some_iff]
    constructor
    · rintro ⟨j, hj, hjk⟩
      obtain rfl : j = k := Nat.succ.inj hjk
      exact hj
    · intro hk
      exact ⟨k, hk, rfl⟩
  · rw [← Construct.taken?_eq_none_iff hplain, htaken, Option.map_eq_none_iff]

/-- Behind `${`: a fallback with a pair of braces, in which there is a name, and a region with a
pair of braces again; and a region behind them that is no reference. -/
def laced : Text := "A:-x\x7b$B$\x7bC+\x7by\x7d\x7d\x7d$\x7b1\x7dz\x7d.".toList

/-- There is room for three regions, and the one around the others ends with the brace before the
dot. Without that brace it does not end, though the regions in it do. -/
theorem braced_ends_alike_laced :
    (bracedOpenings ('$' :: '{' :: laced) : Int) ≤ 5 - (2 : Nat)
    ∧ Region.braced? laced = some 22
    ∧ (∃ n, (Grammar.ofValue true false true).construct 3 ('{' :: laced) = .node n 23)
    ∧ (∃ inner rest, Region.FirstBalance laced inner rest ∧ 22 = inner.length + 1)
    ∧ (bracedOpenings ('$' :: '{' :: laced.take 21) : Int) ≤ 5 - (2 : Nat)
    ∧ (Grammar.ofValue true false true).construct 3 ('{' :: laced.take 21) = .unterminated := by
  let f : Features := { commands := false }
  have hroom : (bracedOpenings ('$' :: '{' :: laced) : Int) ≤ 5 - (2 : Nat) := by decide +kernel
  have hroom' : (bracedOpenings ('$' :: '{' :: laced.take 21) : Int) ≤ 5 - (2 : Nat) := by
    decide +kernel
  have hend : Region.braced? laced = some 22 := by decide +kernel
  have hend' : Region.braced? (laced.take 21) = none := by decide +kernel
  obtain ⟨-, hnode, -, hfirst, -⟩ := braced_ends_alike (f := f) rfl true hroom
  obtain ⟨-, -, hopen, -, -⟩ := braced_ends_alike (f := f) rfl true hroom'
  exact ⟨hroom, hend, (hnode 22).2 hend, (hfirst 22).1 hend, hroom', hopen.2 hend'⟩

end Node
end EnvValues
