import EnvValues.Proofs.Locality

/-!
# Names without braces

A value may be read without bare names, as the line of a command always is. Then `$NAME` is text,
and the reader goes over it character by character where it would have taken it in one piece. A name
holds no dollar and no brace, so both readers come out behind it with the same regions open, and
**nothing but the bare references differs**: without bare names, a value is read as the nodes that
it is read as with them, with the text of each bare reference in its place
(`parse_without_bareNames`).

The two readers are compared at one dollar (`Unbares`), along a text (`sequence_withoutBare`) and
along a fallback (`fallback?_withoutBare`), and then in the room for nesting.
-/

namespace EnvValues
namespace Node

mutual

/-- The node with its text in its place if it is a bare reference, and with the bare references in
its fallback so replaced. A command is left as it is. -/
def withoutBare : Node → Node
  | lit t => lit t
  | ref name raw op none => if isBraced raw then ref name raw op none else lit raw
  | ref name raw op (some f) => ref name raw op (some (withoutBareAll f))
  | command line raw => command line raw
  | group ns => group ns
  | nothing => nothing

/-- The nodes with the text of each bare reference in its place, joined to the literals that it
touches. -/
def withoutBareAll : List Node → List Node
  | [] => []
  | n :: ns => cons (withoutBare n) (withoutBareAll ns)

end

/-- The pieces that a piece is read as without bare names: a bare reference is its characters. -/
def spread : Node → List Node
  | ref name raw op none => if isBraced raw then [ref name raw op none] else chars raw
  | n => [withoutBare n]

/-! ## Pieces in place of bare references -/

theorem cons_lit_lit (t u : Text) (ns : List Node) :
    cons (lit t) (cons (lit u) ns) = cons (lit (t ++ u)) ns := by
  induction t with
  | nil => rfl
  | cons c t ih => rw [← cons_cons_lit, ih, cons_cons_lit, List.cons_append]

theorem withoutBareAll_cons (n : Node) (ns : List Node) :
    withoutBareAll (cons n ns) = cons (withoutBare n) (withoutBareAll ns) := by
  fun_cases cons n ns with
  | case1 => rw [withoutBare, cons]
  | case2 c t u ns => simp only [withoutBareAll, withoutBare, cons_lit_lit]
  | case3 => rw [withoutBareAll]

/-- The pieces of a node are joined to the node. -/
theorem join_spread_append (n : Node) (ns : List Node) :
    join (spread n ++ ns) = cons (withoutBare n) (join ns) := by
  cases n with
  | ref name raw op fallback =>
      cases fallback with
      | some f => rfl
      | none =>
          rw [spread, withoutBare]
          split
          · rfl
          · exact join_chars_append raw ns
  | _ => rfl

/-- **Joining the pieces of nodes joins their texts** to what they touch. -/
theorem join_flatMap_spread (ps : List Node) :
    join (ps.flatMap spread) = withoutBareAll (join ps) := by
  induction ps with
  | nil => rw [List.flatMap_nil, join_nil, withoutBareAll]
  | cons p ps ih =>
      rw [List.flatMap_cons, join_spread_append, ih, join_cons, withoutBareAll_cons]

/-! ## One dollar -/

/-- What stands behind a dollar, read with bare names and without: the same but for a bare name,
which is none without. -/
inductive Unbares : Text → Construct → Construct → Prop where
  | plain {t : Text} : Unbares t .plain .plain
  | unterminated {t : Text} : Unbares t .unterminated .unterminated
  | node {t : Text} {n m : Node} {k : Nat} : spread n = [m] → Unbares t (.node n k) (.node m k)
  | bare {name rest : Text} {n : Node} : Name.isName name = true → spread n = chars ('$' :: name) →
      Unbares (name ++ rest) (.node n name.length) .plain

theorem Unbares.eq_plain {t : Text} {c : Construct} (h : Unbares t .plain c) : c = .plain := by
  cases h
  rfl

theorem Unbares.eq_unterminated {t : Text} {c : Construct} (h : Unbares t .unterminated c) :
    c = .unterminated := by
  cases h
  rfl

/-- Where a node is read, a node is read without bare names too, or nothing is read there. -/
theorem Unbares.node_or_bare {t : Text} {n : Node} {k : Nat} {c : Construct}
    (h : Unbares t (.node n k) c) :
    (∃ m, c = .node m k ∧ spread n = [m])
    ∨ ∃ name rest, t = name ++ rest ∧ k = name.length ∧ c = .plain ∧ Name.isName name = true
      ∧ spread n = chars ('$' :: name) := by
  cases h with
  | node hn => exact Or.inl ⟨_, rfl, hn⟩
  | bare hname hn => exact Or.inr ⟨_, _, rfl, rfl, rfl, hname, hn⟩

section
variable {read read' : Text → Construct}

/-! ## Along a text -/

theorem sequence_withoutBare (h : ∀ u, Unbares u (read u) (read' u)) (t : Text) :
    sequence read' t = (sequence read t).flatMap spread := by
  obtain ⟨ps, tail, rest, hs, ht, -⟩ := sequence_scans read t
  induction hs with
  | nil =>
      cases ht with
      | done => rfl
      | @unterminated t hr =>
          have hr' : read' t = .unterminated := (hr ▸ h t).eq_unterminated
          rw [sequence_unterminated hr, sequence_unterminated hr']
          rfl
  | char hc _ ih =>
      rw [sequence_char hc, sequence_char hc, ih ht]
      rfl
  | @dollar t _ _ hr _ ih =>
      have hr' : read' t = .plain := (hr ▸ h t).eq_plain
      rw [sequence_plain hr, sequence_plain hr', ih ht]
      rfl
  | @node t _ n k _ hr _ ih =>
      rw [sequence_node hr, List.flatMap_cons]
      obtain ⟨m, hr', hn⟩ | ⟨name, rest, rfl, rfl, hr', hname, hn⟩ := (hr ▸ h t).node_or_bare
      · rw [sequence_node hr', ih ht, hn]
        rfl
      · have hdollar : '$' ∉ name := Name.not_mem_of_isName hname rfl
        rw [List.drop_left] at ih
        rw [sequence_plain hr', sequence_chars hdollar, ih ht, List.drop_left, hn]
        rfl

/-! ## Along a fallback -/

theorem fallbackFrom_withoutBare (h : ∀ u, Unbares u (read u) (read' u))
    {done done' : List Node} {opened n skip : Nat} {t : Text}
    (hdone : done'.reverse = done.reverse.flatMap spread) :
    fallbackFrom read' done' opened n skip t
      = (fallbackFrom read done opened n skip t).map fun r => (r.1.flatMap spread, r.2) := by
  have hlit : ∀ {done done' : List Node} (c : Char),
      done'.reverse = done.reverse.flatMap spread →
      (lit [c] :: done').reverse = (lit [c] :: done).reverse.flatMap spread := by
    intro done done' c hdone
    simp [hdone, spread, withoutBare]
  fun_induction fallbackFrom read done opened n skip t generalizing done' with
  | case1 => rfl
  | case2 done opened n skip c t ih => rw [fallbackFrom]; exact ih hdone
  | case3 done opened n t hr ih =>
      have hr' : read' t = .plain := (hr ▸ h t).eq_plain
      rw [fallbackFrom.eq_def]
      simp only [if_true, hr']
      exact ih (hlit '$' hdone)
  | case4 done opened n t hr =>
      have hr' : read' t = .unterminated := (hr ▸ h t).eq_unterminated
      rw [fallbackFrom.eq_def]
      simp only [if_true, hr']
      rfl
  | case5 done opened n t m taken hr ih =>
      rw [fallbackFrom.eq_def]
      obtain ⟨m', hr', hm⟩ | ⟨name, rest, rfl, rfl, hr', hname, hm⟩ := (hr ▸ h t).node_or_bare
      · simp only [if_true, hr']
        exact ih (by simp [hdone, hm])
      · -- the name is gone over character by character, and leaves the same braces open
        have hdollar : '$' ∉ name := Name.not_mem_of_isName hname rfl
        simp only [if_true, hr']
        rw [fallbackFrom_chars hdollar (balanceFrom_name hname opened), ← fallbackFrom_skip]
        exact ih (by simp [hdone, hm, chars])
  | case6 done opened n t _ ih => rw [fallbackFrom.eq_def]; exact ih (hlit '{' hdone)
  | case7 done n t _ _ => rw [fallbackFrom.eq_def]; simp [hdone]
  | case8 done n t m _ _ ih => rw [fallbackFrom.eq_def]; exact ih (hlit '}' hdone)
  | case9 done opened n c t hdollar hopen hclose ih =>
      rw [fallbackFrom.eq_def]
      simp only [if_neg hdollar, if_neg hopen, if_neg hclose]
      exact ih (hlit c hdone)

theorem fallback?_withoutBare (h : ∀ u, Unbares u (read u) (read' u)) (t : Text) :
    fallback? read' t = (fallback? read t).map fun r => (r.1.flatMap spread, r.2) :=
  fallbackFrom_withoutBare h rfl

/-! ## Behind a dollar -/

theorem unbares_kept (u t : Text) : Unbares u (kept t) (kept t) := by
  unfold kept
  split
  · exact .unterminated
  · exact .node rfl

theorem unbares_braced (h : ∀ u, Unbares u (read u) (read' u)) (v name after t : Text) :
    Unbares v (braced read name after t) (braced read' name after t) := by
  cases hop : Operator.leading? after with
  | some op =>
      rw [braced_operator hop, braced_operator hop, fallback?_withoutBare h]
      cases fallback? read (after.drop op.token.length) with
      | none => exact .unterminated
      | some r =>
          refine .node ?_
          rw [join_flatMap_spread]
          rfl
  | none =>
      by_cases hclose : after.head? = some '}'
      · obtain ⟨rest, rfl⟩ := List.head?_eq_some_iff.1 hclose
        exact .node rfl
      · rw [braced_kept hclose hop, braced_kept hclose hop]
        exact unbares_kept v t

end

namespace Grammar

/-- The grammar without bare names. -/
def withoutBareNames (g : Grammar) : Grammar := { g with bareNames := false }

section
variable {g : Grammar} {room : Nat}

theorem unbares_paren (t : Text) : Unbares ('(' :: t) (g.construct room ('(' :: t))
    (g.withoutBareNames.construct room ('(' :: t)) := by
  cases hl : g.line with
  | none =>
      have hl' : g.withoutBareNames.line = none := hl
      rw [construct_paren_of_none hl, construct_paren_of_none hl']
      exact .plain
  | some line =>
      have hl' : g.withoutBareNames.line = some line := hl
      cases room with
      | zero =>
          rw [construct_paren_zero hl, construct_paren_zero hl']
          exact .unterminated
      | succ room =>
          cases hk : Region.command? t with
          | none =>
              rw [construct_paren_open hl hk, construct_paren_open hl' hk]
              exact .unterminated
          | some k =>
              rw [construct_line hl hk, construct_line hl' hk]
              exact .node rfl

theorem unbares_name {c : Char} (hbrace : c ≠ '{') (hparen : c ≠ '(') (t : Text) :
    Unbares (c :: t) (g.construct room (c :: t)) (g.withoutBareNames.construct room (c :: t)) := by
  have hoff : (g.withoutBareNames.references && g.withoutBareNames.bareNames) = false :=
    Bool.and_false _
  rw [construct_name hbrace hparen, construct_name hbrace hparen, hoff]
  split
  · next name after _ hname =>
    have hisName : Name.isName name = true := Name.isName_of_leading? hname
    rw [Name.eq_append_of_leading? hname]
    refine .bare hisName ?_
    rw [spread, isBraced_bare hisName, if_neg Bool.false_ne_true]
  · exact .plain

/-- **At a dollar, nothing but a bare name is read otherwise.** -/
theorem unbares_construct (t : Text) :
    Unbares t (g.construct room t) (g.withoutBareNames.construct room t) := by
  -- on the room: a fallback is read with less of it
  induction room generalizing t with
  | zero =>
      cases t using behind_cases with
      | nil => rw [construct_nil, construct_nil]; exact .plain
      | brace t => rw [construct_open_zero, construct_open_zero]; exact .unterminated
      | paren t => exact unbares_paren t
      | other c t hbrace hparen => exact unbares_name hbrace hparen t
  | succ room ih =>
      cases t using behind_cases with
      | nil => rw [construct_nil, construct_nil]; exact .plain
      | brace t =>
          rcases kept_or_reference g t with hnone | ⟨name, after, hv, hname⟩
          · have hnone' : g.withoutBareNames.references = true → Name.leading? t = none := hnone
            rw [construct_kept hnone, construct_kept hnone']
            exact unbares_kept _ t
          · have hv' : g.withoutBareNames.references = true := hv
            rw [construct_reference hv hname, construct_reference hv' hname]
            exact unbares_braced ih _ name after t
      | paren t => exact unbares_paren t
      | other c t hbrace hparen => exact unbares_name hbrace hparen t

theorem nodes_withoutBareNames (t : Text) :
    g.withoutBareNames.nodes room t = withoutBareAll (g.nodes room t) := by
  rw [nodes, sequence_withoutBare unbares_construct t, join_flatMap_spread]
  rfl

end

end Grammar

/-- **Without bare names, only bare names are read otherwise.** For every text, all features and
every limit on nesting, what is read without bare names is what is read with them, with every bare
reference, at the top and in every fallback at any depth, replaced by its text and joined to the
literals around it. -/
theorem parse_without_bareNames (f : Features) (depth : Int) (t : Text) :
    parse f false depth t = withoutBareAll (parse f true depth t) := by
  have hgrammar : Grammar.ofValue f.references f.commands false
      = (Grammar.ofValue f.references f.commands true).withoutBareNames := rfl
  rw [parse, hgrammar, Grammar.nodes_withoutBareNames]
  rfl

/-- A bare name at the top is text, and one in a command is text in either case. -/
example : (parse {} true 3 "a$B-${C:-x$D}$(e $F)".toList).map raw
      = [['a'], "$B".toList, ['-'], "${C:-x$D}".toList, "$(e $F)".toList]
    ∧ (parse {} false 3 "a$B-${C:-x$D}$(e $F)".toList).map raw
      = ["a$B-".toList, "${C:-x$D}".toList, "$(e $F)".toList] := by
  decide +kernel

end Node
end EnvValues
