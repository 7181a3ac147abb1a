import EnvValues.Proofs.Resolution

/-!
# What the colon operators test

A pass looks into no value, and an operator is decided in a pass. So the colon operators test the
value **that is stored**, and whether it is empty as it stands there. A value that refers to
another is not empty, whatever the other one holds.

Where nothing is left to resolve in the end, this is the whole difference
(`colon_operators_test_stored_value`): a fallback that is taken resolves as it does alone, and a
value that is taken resolves as a plain reference does. The two questions, whether a value is
stored empty and whether it resolves to an empty text, have the same answer unless a stored value
is not empty and comes to nothing (`default_of_hollow`).
-/

namespace EnvValues

/-! ## References as they are written -/

namespace Node

/-- A reference between braces. -/
def plainly (name : Text) : Node := ref name ('$' :: '{' :: (name ++ ['}'])) none none

/-- A reference with an operator and a fallback. -/
def choosing (name : Text) (op : Operator) (fallback : List Node) : Node :=
  ref name ('$' :: '{' :: (name ++ (op.token ++ (rawAll fallback ++ ['}'])))) (some op)
    (some fallback)

/-- Clean nodes that may stand as a fallback: they close the braces that they open. -/
structure CleanFallback (depth : Int) (ns : List Node) : Prop where
  balanced : Region.Balanced (literalText ns)
  printed : Everywhere (Printed depth) 1 true ns

section
variable {depth : Int} {name : Text} {ns : List Node}

theorem clean_plainly (hname : Name.isName name = true) (hdepth : 0 < depth) :
    Clean depth [plainly name] := by
  refine everywhere_inLine_iff.2 fun n hn => ?_
  obtain rfl := List.mem_singleton.1 hn
  exact ⟨nodePrinted_braced hname hdepth, inside_ref_none _ _ _⟩

theorem clean_choosing (hname : Name.isName name = true) (hdepth : 0 < depth)
    (h : CleanFallback depth ns) (op : Operator) : Clean depth [choosing name op ns] := by
  refine everywhere_inLine_iff.2 fun n hn => ?_
  obtain rfl := List.mem_singleton.1 hn
  refine ⟨⟨rfl, hname, fun _ => rfl, fun _ => hdepth, ?_⟩, inside_ref_some.2 h.printed⟩
  rintro f ⟨⟩
  exact h.balanced

/-- What may stand inside a reference may stand outside of it. -/
theorem NodePrinted.outward {around : Nat} {inLine : Bool} {n : Node}
    (h : NodePrinted depth (around + 1) inLine n) : NodePrinted depth around inLine n := by
  cases n with
  | lit t => exact h
  | ref name raw op fallback =>
      exact ⟨h.spelled, h.name, h.braced, fun hb => Int.lt_trans (by omega) (h.within hb),
        h.balanced⟩
  | command line raw => exact ⟨h.1, h.2.1, by have := h.2.2.1; omega, h.2.2.2⟩
  | group ns => exact h
  | nothing => exact h

/-- A fallback is a clean text of its own. -/
theorem CleanFallback.clean (h : CleanFallback depth ns) : Clean depth ns :=
  h.printed.outward fun _ _ _ hp => ⟨fun n hn => (hp.node n hn).outward, hp.apart⟩

end

/-! ## How long references are -/

section
variable (name : Text) (op : Operator) (ns : List Node)

theorem length_raw_plainly_le : (plainly name).raw.length ≤ (choosing name op ns).raw.length := by
  simp only [plainly, choosing, raw, List.length_cons, List.length_append]
  omega

theorem length_rawAll_le_choosing : (rawAll ns).length ≤ (choosing name op ns).raw.length := by
  simp only [choosing, raw, List.length_cons, List.length_append]
  omega

/-- All operators with a colon are of one length. -/
theorem length_raw_choosing {op : Operator} (h : op.colon = true) :
    (choosing name op ns).raw.length = (choosing name ⟨.otherwise, true⟩ ns).raw.length := by
  obtain ⟨form, colon⟩ := op
  obtain rfl : colon = true := h
  cases form <;> simp only [choosing, raw, Operator.token, List.length_cons, List.length_append]

end

/-! ## What operators choose -/

section
variable (lookup : Text → Option Text) {name v : Text}

theorem substNode_plainly (h : lookup name = some v) : substNode lookup (plainly name) = v := by
  rw [plainly, substNode_ref_none, h, Option.getD_some]

theorem substNode_default_empty (h : lookup name = some []) (ns : List Node) :
    substNode lookup (choosing name ⟨.otherwise, true⟩ ns) = subst lookup ns := by
  rw [choosing, substNode_ref_some, h]
  rfl

theorem substNode_alternate_empty (h : lookup name = some []) (ns : List Node) :
    substNode lookup (choosing name ⟨.instead, true⟩ ns) = [] := by
  rw [choosing, substNode_ref_some, h]
  rfl

theorem substNode_default (h : lookup name = some v) (hv : v ≠ []) (ns : List Node) :
    substNode lookup (choosing name ⟨.otherwise, true⟩ ns) = v := by
  rw [choosing, substNode_ref_some, h]
  cases v with
  | nil => exact absurd rfl hv
  | cons c v => rfl

theorem substNode_alternate (h : lookup name = some v) (hv : v ≠ []) (ns : List Node) :
    substNode lookup (choosing name ⟨.instead, true⟩ ns) = subst lookup ns := by
  rw [choosing, substNode_ref_some, h]
  cases v with
  | nil => exact absurd rfl hv
  | cons c v => rfl

end
end Node

/-- A text that begins with a dollar is not between quotes. -/
theorem OuterQuotes.split_dollar (t : Text) : split ('$' :: t) = (none, '$' :: t) := by
  unfold split
  cases hs : split? ('$' :: t) with
  | none => rfl
  | some r =>
      obtain ⟨q, inner⟩ := r
      have htrim := (split?_eq_some_iff.1 hs).1
      -- the text with its blanks trimmed still begins with the dollar
      have hprefix : Text.trim ('$' :: t) <+: '$' :: t := by
        rw [Text.trim, List.dropWhile_cons_of_neg (by decide), Text.trimEnd]
        have hsuffix := List.dropWhile_suffix Text.isBlankChar (l := ('$' :: t).reverse)
        rwa [← List.reverse_prefix, List.reverse_reverse] at hsuffix
      rw [htrim] at hprefix
      have hquote : q.char = '$' := (List.cons_prefix_cons.1 hprefix).1
      cases q <;> exact absurd hquote (by decide)

namespace Context
open Node
variable {ctx : Context} {values : Text → Option (List Node)} {rank : Text → Nat}

/-- Passes leave nothing of nothing. -/
theorem textAfter_nil (hv : ctx.config.features.references = true) (passes : Nat) :
    ctx.textAfter passes [] = [] := by
  have hclean : Clean ctx.config.limits.nestingDepth ([] : List Node) :=
    everywhere_inLine_iff.2 fun n hn => absurd hn List.not_mem_nil
  have hnothing := textAfter_of_not_hasExpansions hv hclean rfl passes
  rwa [rawAll_nil] at hnothing

theorem interpolate_dollar (t : Text) (s : Trace) :
    ctx.interpolate ('$' :: t) s = ctx.interpolateInner ('$' :: t) s := by
  rw [interpolate_eq, OuterQuotes.split_dollar, if_neg (by simp)]

/-- A run gives a value, whatever was before it, leaves nothing to resolve, and makes no call. -/
def Resolves (ctx : Context) (run : Trace → Except Refusal Result × Trace) (v : Text) : Prop :=
  ∀ s, ∃ k s', run s = (.ok { value := v, iterations := k }, s') ∧ ctx.Quiet s s'

/-- **A clean text over values without cycles resolves** to what the passes leave of it. -/
theorem resolves_of_clean (hv : ctx.config.features.references = true)
    (hops : ∀ op, ctx.honours op = true)
    (hac : Acyclic ctx.lookup ctx.config.limits.nestingDepth values rank) {ns : List Node}
    (hclean : Clean ctx.config.limits.nestingDepth ns) {layers : Nat}
    (hrank : ∀ r ∈ references ns, rank r.1 < layers)
    (hbudget : (layers : Int) ≤ ctx.config.maxIterations)
    (hinput : ((rawAll ns).length : Int) ≤ ctx.config.limits.inputLength)
    (houtput : ∀ j, j < layers →
      ((ctx.textAfter (j + 1) (rawAll ns)).length : Int) ≤ ctx.config.limits.outputLength) :
    ctx.Resolves (ctx.interpolateInner (rawAll ns))
      (Escape.decodeIf ctx.config.features.escapes (ctx.textAfter layers (rawAll ns))) := by
  intro s
  have hlayers : layers ≤ ctx.config.budget := by
    rw [Config.budget]
    omega
  obtain ⟨k, s', hpasses, -, hquiet⟩ :=
    passes_of_acyclic hv hops hac layers ctx.config.budget ns 0 s hclean hrank hlayers houtput
  refine ⟨k, s', ?_, hquiet⟩
  rw [interpolateInner_of_le hinput, hpasses, Nat.zero_add]
  rfl

/-- A reference resolves as the text does that the first pass puts in its place. -/
theorem resolves_of_reference (hv : ctx.config.features.references = true)
    (hops : ∀ op, ctx.honours op = true)
    (hac : Acyclic ctx.lookup ctx.config.limits.nestingDepth values rank) {n : Node} {t u : Text}
    (hraw : n.raw = '$' :: t) (hclean : Clean ctx.config.limits.nestingDepth [n])
    (hsubst : substNode ctx.lookup n = u) {layers : Nat}
    (hrank : ∀ r ∈ referencesOf n, rank r.1 < layers + 1)
    (hbudget : ((layers + 1 : Nat) : Int) ≤ ctx.config.maxIterations)
    (hinput : (n.raw.length : Int) ≤ ctx.config.limits.inputLength)
    (houtput : ∀ j, j < layers + 1 →
      ((ctx.textAfter j u).length : Int) ≤ ctx.config.limits.outputLength) :
    ctx.Resolves (ctx.interpolate n.raw)
      (Escape.decodeIf ctx.config.features.escapes (ctx.textAfter layers u)) := by
  have hwritten : rawAll [n] = n.raw := rawAll_singleton n
  have hfirst : ∀ j, ctx.textAfter (j + 1) (rawAll [n]) = ctx.textAfter j u := by
    intro j
    rw [textAfter_succ_of_clean hv hclean, subst_cons, subst_nil, List.append_nil, hsubst]
  have hresolves := resolves_of_clean hv hops hac hclean
    (by simpa only [references_cons, references_nil, List.append_nil] using hrank) hbudget
    (by rwa [hwritten]) fun j hj => by
      rw [hfirst]
      exact houtput j hj
  intro s
  obtain ⟨k, s', hrun, hquiet⟩ := hresolves s
  refine ⟨k, s', ?_, hquiet⟩
  rw [hfirst, hwritten, hraw] at hrun
  rw [hraw, interpolate_dollar, hrun]

section
variable {name v : Text} {fallback : List Node} {layers : Nat}

/-- A set variable resolves as the value does that is stored. -/
theorem resolves_of_plainly (hv : ctx.config.features.references = true)
    (hops : ∀ op, ctx.honours op = true)
    (hac : Acyclic ctx.lookup ctx.config.limits.nestingDepth values rank)
    (hdepth : 0 < ctx.config.limits.nestingDepth) (hname : Name.isName name = true)
    (hset : ctx.lookup name = some v) (hrank : rank name < layers + 1)
    (hbudget : ((layers + 1 : Nat) : Int) ≤ ctx.config.maxIterations)
    (hinput : ((plainly name).raw.length : Int) ≤ ctx.config.limits.inputLength)
    (houtput : ∀ j, j < layers + 1 →
      ((ctx.textAfter j v).length : Int) ≤ ctx.config.limits.outputLength) :
    ctx.Resolves (ctx.interpolate (plainly name).raw)
      (Escape.decodeIf ctx.config.features.escapes (ctx.textAfter layers v)) := by
  refine resolves_of_reference hv hops hac rfl (clean_plainly hname hdepth)
    (substNode_plainly _ hset) (fun q hq => ?_) hbudget hinput houtput
  rw [plainly, referencesOf] at hq
  obtain rfl := List.mem_singleton.1 hq
  exact hrank

/-- A reference with an operator resolves as what the operator chooses. -/
theorem resolves_of_choosing (hv : ctx.config.features.references = true)
    (hops : ∀ op, ctx.honours op = true)
    (hac : Acyclic ctx.lookup ctx.config.limits.nestingDepth values rank)
    (hdepth : 0 < ctx.config.limits.nestingDepth) (hname : Name.isName name = true)
    (hfallback : CleanFallback ctx.config.limits.nestingDepth fallback)
    (hrank : rank name < layers + 1) (hranks : ∀ q ∈ references fallback, rank q.1 < layers + 1)
    (hbudget : ((layers + 1 : Nat) : Int) ≤ ctx.config.maxIterations)
    (hinput : ((choosing name ⟨.otherwise, true⟩ fallback).raw.length : Int)
      ≤ ctx.config.limits.inputLength)
    {op : Operator} {u : Text} (hcolon : op.colon = true)
    (hsubst : substNode ctx.lookup (choosing name op fallback) = u)
    (houtput : ∀ j, j < layers + 1 →
      ((ctx.textAfter j u).length : Int) ≤ ctx.config.limits.outputLength) :
    ctx.Resolves (ctx.interpolate (choosing name op fallback).raw)
      (Escape.decodeIf ctx.config.features.escapes (ctx.textAfter layers u)) := by
  refine resolves_of_reference hv hops hac rfl (clean_choosing hname hdepth hfallback op) hsubst
    (fun q hq => ?_) hbudget ?_ houtput
  · rw [choosing, referencesOf] at hq
    rcases List.mem_cons.1 hq with rfl | hq
    · exact hrank
    · exact hranks q hq
  · rwa [length_raw_choosing name fallback hcolon]

end

/-- **The colon operators test the value that is stored.** Over values without cycles, and with
room for their ranks, let `r` be what a variable resolves to and `d` what a fallback does, expanded
as a text that no quotes were taken off (`interpolateInner`): quotes around a fallback stay where
they are. Where the variable is stored empty, `:-` gives `d` and `:+` gives nothing, and `r` is
empty too. Where it is not, `:-` gives `r` and `:+` gives `d`; so it is in particular where `r` is
not empty. -/
theorem colon_operators_test_stored_value (hv : ctx.config.features.references = true)
    (hdefaults : ctx.config.features.defaults = true)
    (halternates : ctx.config.features.alternates = true)
    (hac : Acyclic ctx.lookup ctx.config.limits.nestingDepth values rank)
    (hdepth : 0 < ctx.config.limits.nestingDepth) {name v : Text}
    (hname : Name.isName name = true) (hset : ctx.lookup name = some v) {fallback : List Node}
    (hfallback : CleanFallback ctx.config.limits.nestingDepth fallback) {layers : Nat}
    (hrank : rank name < layers) (hranks : ∀ q ∈ references fallback, rank q.1 < layers)
    (hbudget : (layers : Int) ≤ ctx.config.maxIterations)
    (hinput : ((choosing name ⟨.otherwise, true⟩ fallback).raw.length : Int)
      ≤ ctx.config.limits.inputLength)
    (houtput : ∀ j, j < layers →
      ((ctx.textAfter (j + 1) (plainly name).raw).length : Int) ≤ ctx.config.limits.outputLength
      ∧ ((ctx.textAfter (j + 1) (rawAll fallback)).length : Int)
        ≤ ctx.config.limits.outputLength) :
    ∃ r d, ctx.Resolves (ctx.interpolate (plainly name).raw) r
      ∧ ctx.Resolves (ctx.interpolateInner (rawAll fallback)) d
      ∧ (v = [] → r = []
        ∧ ctx.Resolves (ctx.interpolate (choosing name ⟨.otherwise, true⟩ fallback).raw) d
        ∧ ctx.Resolves (ctx.interpolate (choosing name ⟨.instead, true⟩ fallback).raw) [])
      ∧ (v ≠ [] →
        ctx.Resolves (ctx.interpolate (choosing name ⟨.otherwise, true⟩ fallback).raw) r
        ∧ ctx.Resolves (ctx.interpolate (choosing name ⟨.instead, true⟩ fallback).raw) d)
      ∧ (r ≠ [] → v ≠ []) := by
  obtain ⟨layers, rfl⟩ : ∃ l, layers = l + 1 := ⟨layers - 1, by omega⟩
  have hops := honours_of_enabled hdefaults halternates
  have hplain := clean_plainly hname hdepth
  have hwritten : rawAll [plainly name] = (plainly name).raw := rawAll_singleton _
  -- what is left of the variable and of the fallback is never too long
  have hvalue : ∀ j, j < layers + 1 →
      ((ctx.textAfter j v).length : Int) ≤ ctx.config.limits.outputLength := by
    intro j hj
    have hlen := (houtput j hj).1
    rwa [← hwritten, textAfter_succ_of_clean hv hplain, subst_cons, subst_nil, List.append_nil,
      substNode_plainly _ hset] at hlen
  have htaken : ∀ j, j < layers + 1 →
      ((ctx.textAfter j (subst ctx.lookup fallback)).length : Int)
        ≤ ctx.config.limits.outputLength := by
    intro j hj
    have hlen := (houtput j hj).2
    rwa [textAfter_succ_of_clean hv hfallback.clean] at hlen
  have hchoosing : ∀ {op : Operator} {u : Text}, op.colon = true →
      substNode ctx.lookup (choosing name op fallback) = u → _ → ctx.Resolves _ _ :=
    resolves_of_choosing hv hops hac hdepth hname hfallback hrank hranks hbudget hinput
  have hreference := resolves_of_plainly hv hops hac hdepth hname hset hrank hbudget
    (Int.le_trans (Int.ofNat_le.2 (length_raw_plainly_le _ _ _)) hinput) hvalue
  have halone : ctx.Resolves (ctx.interpolateInner (rawAll fallback)) _ :=
    resolves_of_clean hv hops hac hfallback.clean hranks hbudget
      (Int.le_trans (Int.ofNat_le.2 (length_rawAll_le_choosing _ _ _)) hinput)
      fun j hj => (houtput j hj).2
  rw [textAfter_succ_of_clean hv hfallback.clean] at halone
  refine ⟨_, _, hreference, halone, fun hstored => ?_, fun hstored => ?_, fun hr hstored => ?_⟩
  · subst hstored
    have hnothing := hchoosing rfl (substNode_alternate_empty _ hset fallback) hvalue
    rw [textAfter_nil hv, Escape.decodeIf_nil] at hnothing ⊢
    exact ⟨rfl, hchoosing rfl (substNode_default_empty _ hset fallback) htaken, hnothing⟩
  · exact ⟨hchoosing rfl (substNode_default _ hset hstored fallback) hvalue,
      hchoosing rfl (substNode_alternate _ hset hstored fallback) htaken⟩
  · subst hstored
    rw [textAfter_nil hv, Escape.decodeIf_nil] at hr
    exact hr rfl

/-! ## A value that comes to nothing -/

/-- The variable `A` is `${B}`, and `B` is empty. -/
def hollow : Context where
  bindings := Assignment.ofList [(['A'], { value := "${B}".toList }), (['B'], { value := [] })]
  environment := ∅
  config := {}
  shell := ⟨fun t => t, fun _ _ => .ok {}⟩

def hollowValues (name : Text) : Option (List Node) :=
  if name = ['A'] then some [plainly ['B']] else if name = ['B'] then some [] else none

def hollowRank (name : Text) : Nat := if name = ['A'] then 1 else 0

theorem lookup_hollow (name : Text) : hollow.lookup name = (hollowValues name).map rawAll := by
  rw [hollowValues]
  by_cases hA : name = ['A']
  · subst hA
    decide +kernel
  by_cases hB : name = ['B']
  · subst hB
    decide +kernel
  · have hunset : hollow.bindings[name]? = none :=
      Std.ExtTreeMap.getElem?_ofList_of_contains_eq_false (by simp [hA, hB])
    rw [lookup, hunset, if_neg hA, if_neg hB]
    exact Std.ExtTreeMap.getElem?_empty

theorem acyclic_hollow : Acyclic hollow.lookup 100 hollowValues hollowRank := by
  have hcases : ∀ {name ns}, hollowValues name = some ns →
      (name = ['A'] ∧ ns = [plainly ['B']]) ∨ (name = ['B'] ∧ ns = []) := by
    intro name ns h
    rw [hollowValues] at h
    split at h
    · next hname => exact Or.inl ⟨hname, (Option.some.inj h).symm⟩
    · split at h
      · next hname => exact Or.inr ⟨hname, (Option.some.inj h).symm⟩
      · cases h
  refine ⟨lookup_hollow, fun name ns h => ?_, fun name ns h => ?_⟩
  · obtain ⟨-, rfl⟩ | ⟨-, rfl⟩ := hcases h
    · exact clean_plainly rfl (by decide)
    · exact everywhere_inLine_iff.2 fun n hn => absurd hn List.not_mem_nil
  · obtain ⟨rfl, rfl⟩ | ⟨rfl, rfl⟩ := hcases h <;> decide

theorem cleanFallback_x : CleanFallback 100 [lit ['x']] := by
  refine ⟨by decide, everywhere_inLine_iff.2 fun n hn => ?_⟩
  obtain rfl := List.mem_singleton.1 hn
  exact ⟨by simp [NodePrinted], inside_lit _⟩

/-- The variable `A` is not stored empty, so `${A:-x}` gives what `${A}` does, and `${A:+x}` gives
what the fallback does. -/
theorem colon_operators_hollow :
    ∃ r d, hollow.Resolves (hollow.interpolate "${A}".toList) r
      ∧ hollow.Resolves (hollow.interpolateInner "x".toList) d
      ∧ hollow.Resolves (hollow.interpolate "${A:-x}".toList) r
      ∧ hollow.Resolves (hollow.interpolate "${A:+x}".toList) d := by
  have hset : hollow.lookup ['A'] = some "${B}".toList := lookup_hollow ['A']
  obtain ⟨r, d, hr, hd, -, hstored, -⟩ :=
    colon_operators_test_stored_value rfl rfl rfl acyclic_hollow (by decide) rfl hset
      cleanFallback_x (by decide : hollowRank ['A'] < 2) (by decide) (by decide) (by decide)
      (by decide +kernel)
  obtain ⟨hdefault, halternate⟩ := hstored (by decide)
  exact ⟨r, d, hr, hd, hdefault, halternate⟩

/-- **What resolves to nothing need not be empty for an operator.** `${A}` resolves to an empty
text, and still `${A:-x}` does not give the fallback, while `${A:+x}` does. -/
theorem default_of_hollow :
    Acyclic hollow.lookup 100 hollowValues hollowRank ∧ CleanFallback 100 [lit ['x']]
    ∧ (hollow.interpolate "${A}".toList {}).1.toOption = some { value := [], iterations := 2 }
    ∧ (hollow.interpolate "x".toList {}).1.toOption = some { value := "x".toList }
    ∧ (hollow.interpolate "${A:-x}".toList {}).1.toOption = some { value := [], iterations := 2 }
    ∧ (hollow.interpolate "${A:+x}".toList {}).1.toOption
      = some { value := "x".toList, iterations := 1 } := by
  refine ⟨acyclic_hollow, cleanFallback_x, ?_, ?_, ?_, ?_⟩ <;> decide +kernel

end Context
end EnvValues
