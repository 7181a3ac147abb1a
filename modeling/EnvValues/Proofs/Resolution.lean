import EnvValues.Interpolation
import EnvValues.Proofs.Passes
import EnvValues.Proofs.Peeling

/-!
# Variables without cycles are resolved

A pass looks into no value: it puts the values that are stored in place of their
references, and the next pass reads the text all over again. Here that is held against
what it is for, which is looked up recursively (`Node.full`).

A pass over a clean text is its substitution (`pass_of_clean`), which is read in turn as the
nodes of the next layer (`Node.peel`). The references behind a pass have lower ranks than those
in front of it, so no pass ends the passes too soon by changing nothing, and **as many passes as
there are ranks leave nothing to resolve** (`passes_of_acyclic`). What they leave is what the text
resolves to, where operators test values that are resolved already (`textAfter_eq_full`).
-/

namespace EnvValues
namespace Context
open Node

/-- The text after so many passes, were there no limits and no commands. -/
def textAfter (ctx : Context) : (passes : Nat) → Text → Text
  | 0, t => t
  | passes + 1, t => ctx.textAfter passes (subst ctx.lookup (ctx.nodes t))

section
variable {ctx : Context} {values : Text → Option (List Node)} {rank : Text → Nat}

/-- A clean text is read as the nodes it is written with. -/
theorem nodes_of_clean (hv : ctx.config.features.references = true) {ns : List Node}
    (h : Clean ctx.config.limits.nestingDepth ns) : ctx.nodes (rawAll ns) = joinedAll ns := by
  refine Grammar.nodes_printed (Grammar.suits_of_references hv) (Nat.le_refl _) ?_
  rwa [Nat.sub_self]

/-- A pass over a clean text is its substitution. -/
theorem pass_of_clean (hops : ∀ op, ctx.honours op = true) {ns : List Node}
    (h : Clean ctx.config.limits.nestingDepth ns)
    (hlen : ((subst ctx.lookup ns).length : Int) ≤ ctx.config.limits.outputLength) (s : Trace) :
    ∃ s', ctx.pass (joinedAll ns) s = (.ok (subst ctx.lookup ns), s') ∧ ctx.Quiet s s' := by
  obtain ⟨s', ha, -, hq⟩ := produces_joinedAll hops h { s with written := 0 } (by simpa using hlen)
  exact ⟨s', ha, hq.calls, hq.notices⟩

/-- **A pass changes what has references**: otherwise they would have lower ranks than
they have. -/
theorem rawAll_ne_of_rank_lt (hv : ctx.config.features.references = true) {ns ms : List Node}
    (hclean : Clean ctx.config.limits.nestingDepth ns) (hexp : hasExpansions ns = true)
    {layers : Nat} (hrank : ∀ r ∈ references ns, rank r.1 < layers)
    (hms : Clean ctx.config.limits.nestingDepth ms)
    (hlower : ∀ r ∈ references ms, ∃ q ∈ references ns, rank r.1 < rank q.1) :
    rawAll ms ≠ rawAll ns := by
  intro heq
  -- the same text is read as the same nodes
  have hjoined : joinedAll ms = joinedAll ns := by
    rw [← nodes_of_clean hv hms, heq, nodes_of_clean hv hclean]
  have hrefs : references ms = references ns := by
    rw [← references_joinedAll, hjoined, references_joinedAll]
  have hnone : ∀ r, r ∉ references ns := not_mem_of_rank_lt layers hrank (hrefs ▸ hlower)
  rw [not_hasExpansions_of_references hclean.1.node hnone] at hexp
  exact nomatch hexp

/-- A clean text has something left to resolve where its nodes do. -/
theorem pending_of_clean (hv : ctx.config.features.references = true) {ns : List Node}
    (h : Clean ctx.config.limits.nestingDepth ns) :
    ctx.Pending (rawAll ns) ↔ hasExpansions ns = true := by
  rw [Pending, nodes_of_clean hv h, hasExpansions_joinedAll]

/-- The first of the passes over a clean text. -/
theorem textAfter_succ_of_clean (hv : ctx.config.features.references = true) {ns : List Node}
    (h : Clean ctx.config.limits.nestingDepth ns) (passes : Nat) :
    ctx.textAfter (passes + 1) (rawAll ns) = ctx.textAfter passes (subst ctx.lookup ns) := by
  rw [textAfter, nodes_of_clean hv h, subst_joinedAll]

/-- Where nothing is left to resolve, passes change nothing. -/
theorem textAfter_of_not_hasExpansions (hv : ctx.config.features.references = true)
    {ns : List Node} (h : Clean ctx.config.limits.nestingDepth ns)
    (hexp : hasExpansions ns = false) (passes : Nat) :
    ctx.textAfter passes (rawAll ns) = rawAll ns := by
  have hlit : ∀ n ∈ ns, n.isLit = true := by
    intro n hn
    simp only [hasExpansions, List.any_eq_false] at hexp
    simpa using hexp n hn
  induction passes with
  | zero => rfl
  | succ passes ih => rw [textAfter_succ_of_clean hv h, subst_of_isLit _ hlit, ih]

/-- **Passes over values without cycles come to an end**, if there are as many of them as there
are ranks: nothing is left to resolve. -/
theorem passes_of_acyclic (hv : ctx.config.features.references = true)
    (hops : ∀ op, ctx.honours op = true)
    (hac : Acyclic ctx.lookup ctx.config.limits.nestingDepth values rank) :
    ∀ (layers budget : Nat) (ns : List Node) (done : Nat) (s : Trace),
      Clean ctx.config.limits.nestingDepth ns → (∀ r ∈ references ns, rank r.1 < layers) →
      layers ≤ budget →
      (∀ j, j < layers →
        ((ctx.textAfter (j + 1) (rawAll ns)).length : Int) ≤ ctx.config.limits.outputLength) →
      ∃ k s', ctx.passes budget (rawAll ns) done s
          = ⟨.settled, ctx.textAfter layers (rawAll ns), done + k, s'⟩
        ∧ k ≤ layers ∧ ctx.Quiet s s' := by
  -- on the layers: what a pass leaves refers to lower ranks
  intro layers
  induction layers with
  | zero =>
      intro budget ns done s hclean hrank _ _
      have hnone : hasExpansions ns = false :=
        not_hasExpansions_of_references hclean.1.node
          fun r hr => Nat.not_lt_zero _ (hrank r hr)
      have hsettled : ¬ ctx.Pending (rawAll ns) := by
        rw [pending_of_clean hv hclean, hnone]
        exact Bool.false_ne_true
      exact ⟨0, s, passes_of_not_pending hsettled, Nat.le_refl _, .of_eq rfl rfl⟩
  | succ layers ih =>
      intro budget ns done s hclean hrank hbudget hlen
      by_cases hexp : hasExpansions ns = true
      · obtain ⟨budget, rfl⟩ : ∃ b, budget = b + 1 := ⟨budget - 1, by omega⟩
        have hraw : rawAll (peel values ns) = subst ctx.lookup ns := rawAll_peel hac.lookup_eq ns
        have hpeel : Clean ctx.config.limits.nestingDepth (peel values ns) := hac.clean_peel hclean
        have htext : ∀ j, ctx.textAfter (j + 1) (rawAll ns)
            = ctx.textAfter j (rawAll (peel values ns)) := by
          intro j
          rw [hraw, textAfter_succ_of_clean hv hclean]
        have hfirst : ((subst ctx.lookup ns).length : Int) ≤ ctx.config.limits.outputLength := by
          have h0 := hlen 0 (Nat.succ_pos layers)
          rwa [htext, hraw] at h0
        obtain ⟨s₁, hpass, hq₁⟩ := pass_of_clean hops hclean hfirst s
        have hpassOver : ctx.passOver (rawAll ns) s = (.ok (rawAll (peel values ns)), s₁) := by
          rw [passOver, nodes_of_clean hv hclean, hpass, hraw]
        have hchanged : rawAll (peel values ns) ≠ rawAll ns :=
          rawAll_ne_of_rank_lt hv hclean hexp hrank hpeel (hac.rank_lt_peel hclean)
        obtain ⟨k, s₂, hrest, hk, hq₂⟩ := ih budget (peel values ns) (done + 1) s₁ hpeel
          (hac.rank_lt_peel_of_succ hclean hrank) (by omega) fun j hj => by
            rw [← htext]
            exact hlen (j + 1) (by omega)
        refine ⟨k + 1, s₂, ?_, by omega, hq₁.trans hq₂⟩
        rw [passes_of_changed ((pending_of_clean hv hclean).2 hexp) hpassOver hchanged, hrest,
          htext, Nat.add_assoc, Nat.add_comm 1 k]
      · have hnone : hasExpansions ns = false := Bool.eq_false_iff.2 hexp
        have hsettled : ¬ ctx.Pending (rawAll ns) := by
          rwa [pending_of_clean hv hclean]
        refine ⟨0, s, ?_, Nat.zero_le _, .of_eq rfl rfl⟩
        rw [passes_of_not_pending hsettled, textAfter_of_not_hasExpansions hv hclean hnone]
        rfl

/-- Nodes that so many passes resolve: they are clean, test plain values, and refer to
names of lower rank. -/
structure Resolvable (ctx : Context) (rank : Text → Nat) (layers : Nat) (ns : List Node) :
    Prop where
  clean : Clean ctx.config.limits.nestingDepth ns
  testsPlain : TestsPlain ctx.lookup ns
  rank_lt : ∀ r ∈ references ns, rank r.1 < layers

/-- **As many passes as there are layers give what nodes resolve to**: each takes one away. -/
theorem textAfter_eq_full (hv : ctx.config.features.references = true)
    (hlay : Layered ctx.lookup ctx.config.limits.nestingDepth values rank) :
    ∀ (layers : Nat) (ns : List Node), Resolvable ctx rank layers ns →
      ctx.textAfter layers (rawAll ns) = full values rank ns := by
  intro layers
  induction layers with
  | zero =>
      intro ns h
      have hnone : hasExpansions ns = false :=
        not_hasExpansions_of_references h.clean.1.node
          fun r hr => Nat.not_lt_zero _ (h.rank_lt r hr)
      exact (full_of_not_hasExpansions hnone).symm
  | succ layers ih =>
      intro ns h
      have hrank : ∀ r ∈ references (peel values ns), rank r.1 < layers :=
        hlay.acyclic.rank_lt_peel_of_succ h.clean h.rank_lt
      rw [textAfter_succ_of_clean hv h.clean, ← rawAll_peel hlay.lookup_eq,
        ih _ ⟨hlay.acyclic.clean_peel h.clean, hlay.testsPlain_peel h.clean, hrank⟩,
        hlay.full_peel ns h.testsPlain]

/-- **Passes resolve a clean text**, if there are as many of them as there are layers. -/
theorem passes_of_layered (hv : ctx.config.features.references = true)
    (hops : ∀ op, ctx.honours op = true)
    (hlay : Layered ctx.lookup ctx.config.limits.nestingDepth values rank)
    (layers budget : Nat) (ns : List Node) (done : Nat) (s : Trace)
    (h : Resolvable ctx rank layers ns) (hbudget : layers ≤ budget)
    (hlen : ∀ j, j < layers →
      ((ctx.textAfter (j + 1) (rawAll ns)).length : Int) ≤ ctx.config.limits.outputLength) :
    ∃ k s', ctx.passes budget (rawAll ns) done s = ⟨.settled, full values rank ns, done + k, s'⟩
      ∧ k ≤ layers ∧ ctx.Quiet s s' := by
  obtain ⟨k, s', hpasses, hk, hquiet⟩ :=
    passes_of_acyclic hv hops hlay.acyclic layers budget ns done s h.clean h.rank_lt hbudget hlen
  exact ⟨k, s', textAfter_eq_full hv hlay layers ns h ▸ hpasses, hk, hquiet⟩

/-- **Variables without cycles are resolved in full.** Where they are layered, and the
passes and the limits reach as far as the layers do, expanding a clean text that is not
between single quotes gives what it resolves to. It does not fail, leaves nothing over,
makes no more passes than there are layers and calls no command. -/
theorem interpolate_of_layered (hv : ctx.config.features.references = true)
    (hdefaults : ctx.config.features.defaults = true)
    (halternates : ctx.config.features.alternates = true)
    (hlay : Layered ctx.lookup ctx.config.limits.nestingDepth values rank)
    {text inner : Text} {quote : Option Quote} (hsplit : OuterQuotes.split text = (quote, inner))
    (hquote : quote ≠ some .single) {ns : List Node} (hraw : rawAll ns = inner)
    (hclean : Clean ctx.config.limits.nestingDepth ns) (hplain : TestsPlain ctx.lookup ns)
    {layers : Nat} (hrank : ∀ r ∈ references ns, rank r.1 < layers)
    (hbudget : (layers : Int) ≤ ctx.config.maxIterations)
    (hinput : (inner.length : Int) ≤ ctx.config.limits.inputLength)
    (houtput : ∀ j, j < layers →
      ((ctx.textAfter (j + 1) inner).length : Int) ≤ ctx.config.limits.outputLength)
    (s : Trace) :
    ∃ k s', ctx.interpolate text s
        = (.ok { value := Escape.decodeIf ctx.config.features.escapes (full values rank ns),
                 iterations := k }, s')
      ∧ k ≤ layers ∧ ctx.Quiet s s' := by
  subst hraw
  have hops := honours_of_enabled hdefaults halternates
  have hlayers : layers ≤ ctx.config.budget := by
    rw [Config.budget]
    omega
  obtain ⟨k, s', hpasses, hk, hq⟩ :=
    passes_of_layered hv hops hlay layers ctx.config.budget ns 0 s ⟨hclean, hplain, hrank⟩ hlayers
      houtput
  refine ⟨k, s', ?_, hk, hq⟩
  have hinner : ctx.interpolate text s = ctx.interpolateInner (rawAll ns) s := by
    rw [interpolate_eq, hsplit, if_neg hquote]
  rw [hinner, interpolateInner_of_le hinput, hpasses, Nat.zero_add]
  rfl

end

/-! ## A chain of variables -/

/-- The variable `A` is `x${B}`, and `B` in the environment is `y${C:-{z}}`. -/
def chain : Context where
  bindings := Assignment.ofList [(['A'], { value := "x${B}".toList })]
  environment := Assignment.ofList [(['B'], "y${C:-{z}}".toList)]
  config := {}
  shell := ⟨fun t => t, fun _ _ => .ok {}⟩

/-- The nodes of `x${B}`. -/
def chainA : List Node := [lit ['x'], ref ['B'] "${B}".toList none none]

/-- The nodes of `y${C:-{z}}`. -/
def chainB : List Node :=
  [lit ['y'], ref ['C'] "${C:-{z}}".toList (some ⟨.otherwise, true⟩) (some [lit "{z}".toList])]

def chainValues (name : Text) : Option (List Node) :=
  if name = ['A'] then some chainA else if name = ['B'] then some chainB else none

def chainRank (name : Text) : Nat :=
  if name = ['A'] then 2 else if name = ['B'] then 1 else 0

theorem lookup_chain (name : Text) : chain.lookup name = (chainValues name).map rawAll := by
  simp only [lookup, chain, Assignment.ofList, Std.ExtTreeMap.ofList_singleton,
    Std.ExtTreeMap.getElem?_insert, Std.LawfulEqCmp.compare_eq_iff_eq,
    Std.ExtTreeMap.getElem?_empty]
  rw [chainValues]
  by_cases hA : name = ['A']
  · subst hA
    decide
  · by_cases hB : name = ['B']
    · subst hB
      decide
    · simp [hA, hB, eq_comm]

theorem chainValues_cases {name : Text} {ns : List Node} (h : chainValues name = some ns) :
    (name = ['A'] ∧ ns = chainA) ∨ (name = ['B'] ∧ ns = chainB) := by
  rw [chainValues] at h
  split at h
  · next hname => exact Or.inl ⟨hname, (Option.some.inj h).symm⟩
  · split at h
    · next hname => exact Or.inr ⟨hname, (Option.some.inj h).symm⟩
    · exact nomatch h

theorem clean_chainA : Clean 100 chainA := by
  simp only [chainA, everywhere_inLine_iff, List.mem_cons, List.not_mem_nil, or_false,
    forall_eq_or_imp, forall_eq, inside_lit, inside_ref_none, and_true]
  exact ⟨by simp [NodePrinted], nodePrinted_braced rfl (by decide)⟩

theorem clean_chainB : Clean 100 chainB := by
  simp only [chainB, everywhere_inLine_iff, List.mem_cons, List.not_mem_nil, or_false,
    forall_eq_or_imp, forall_eq, inside_lit, inside_ref_some, and_true, NodePrinted]
  refine ⟨by decide, ⟨rfl, rfl, fun _ => rfl, fun _ => by decide, ?_⟩, by decide⟩
  rintro f ⟨⟩
  decide

theorem layered_chain : Layered chain.lookup 100 chainValues chainRank := by
  refine ⟨lookup_chain, fun name ns h => ?_, fun name ns h => ?_, fun name ns h => ?_⟩
  · obtain ⟨rfl, rfl⟩ | ⟨rfl, rfl⟩ := chainValues_cases h
    · exact clean_chainA
    · exact clean_chainB
  · obtain ⟨rfl, rfl⟩ | ⟨rfl, rfl⟩ := chainValues_cases h <;> decide
  · -- `C` is tested and has no value
    have hC : chain.lookup ['C'] = none := by
      rw [lookup_chain]
      rfl
    obtain ⟨rfl, rfl⟩ | ⟨rfl, rfl⟩ := chainValues_cases h
    · simp [TestsPlain, chainA, referencesOf]
    · simp [TestsPlain, chainB, referencesOf, hC]

/-- The nodes of `<${A}>`. -/
def chainText : List Node := [lit ['<'], ref ['A'] "${A}".toList none none, lit ['>']]

theorem interpolate_chain :
    ∃ k s', chain.interpolate "\"<${A}>\"".toList {}
        = (.ok { value := "<xy{z}>".toList, iterations := k }, s')
      ∧ k ≤ 3 ∧ chain.Quiet {} s' := by
  have hsplit : OuterQuotes.split "\"<${A}>\"".toList = (some .double, "<${A}>".toList) := by decide
  have hclean : Clean 100 chainText := by
    simp only [chainText, everywhere_inLine_iff, List.mem_cons, List.not_mem_nil, or_false,
      forall_eq_or_imp, forall_eq, inside_lit, inside_ref_none, and_true]
    exact ⟨by simp [NodePrinted], nodePrinted_braced rfl (by decide), by simp [NodePrinted]⟩
  have hplain : TestsPlain chain.lookup chainText := by
    simp [TestsPlain, chainText, referencesOf]
  have hrank : ∀ r ∈ references chainText, chainRank r.1 < 3 := by decide
  exact interpolate_of_layered rfl rfl rfl layered_chain hsplit (by decide) rfl hclean hplain hrank
    (by decide) (by decide) (by decide +kernel) {}

end Context
end EnvValues
