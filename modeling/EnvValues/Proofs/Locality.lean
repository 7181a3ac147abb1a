import EnvValues.Proofs.RoundTrip
import Mathlib.Data.List.Basic

/-!
# Texts one behind the other

A value is put together from texts, and between two passes it is read again. What was read
of a text stays what it was where another text follows, under three conditions: no region of
it is left open, no dollar stands at its end, and no bare name there goes on in what follows.
Then **the nodes of both texts in a row are the nodes of the one and of the other**
(`parse_append`), but for literals that touch.

Every search for an end stops at the end (`bracedFrom_append`, `commandFrom_append`,
`fallbackFrom_append`), so a construct is `Settled` by the text up to its own closer. The
searches only ever see more text, and count the same.
-/

namespace EnvValues
namespace Region

/-- What closes a braced region is found, whatever stands behind it. -/
theorem bracedFrom_append {opened n k : Nat} {u : Text} (h : bracedFrom opened n u = some k)
    (t : Text) : bracedFrom opened n (u ++ t) = some k := by
  fun_induction bracedFrom opened n u with
  | case1 => cases h
  | case2 opened n u ih => rw [List.cons_append, bracedFrom, ih h]
  | case3 n u => rw [List.cons_append, bracedFrom, h]
  | case4 n u opened ih => rw [List.cons_append, bracedFrom, ih h]
  | case5 opened n c u hopen hend hclose ih =>
      rw [List.cons_append, bracedFrom.eq_5 opened n c _ hopen hend hclose, ih h]

/-- What closes a command is found, whatever stands behind it. -/
theorem commandFrom_append {quote : Option Quote} {opened n k : Nat} {u : Text}
    (h : commandFrom quote opened n u = some k) (t : Text) :
    commandFrom quote opened n (u ++ t) = some k := by
  fun_induction commandFrom quote opened n u with
  | case1 => cases h
  | case2 => cases h
  | case3 quote opened n c hc d u ih =>
      obtain ⟨rfl, hquote⟩ := hc
      rw [List.cons_append, List.cons_append, commandFrom_escape hquote, ih h]
  | case4 opened n c u q hc ih =>
      rw [List.cons_append, commandFrom.eq_def]
      simp only [if_neg hc]
      exact ih h
  | case5 opened n u _ ih => rw [List.cons_append, commandFrom_paren, ih h]
  | case6 n u _ => rw [List.cons_append, commandFrom_end, h]
  | case7 n u m _ _ ih => rw [List.cons_append, commandFrom_paren_close, ih h]
  | case8 opened n c u hc hopen hclose ih =>
      rw [List.cons_append, commandFrom.eq_def]
      simp only [if_neg hc, if_neg hopen, if_neg hclose]
      exact ih h

end Region

namespace Operator

/-- Where a closing brace is in sight, no operator comes of what stands behind it. -/
theorem leading?_append_of_none {u : Text} (h : leading? u = none) (hu : '}' ∈ u) (t : Text) :
    leading? (u ++ t) = none := by
  match u, hu with
  | [c], hu =>
      obtain rfl := List.mem_singleton.1 hu
      rfl
  | c :: d :: u, _ =>
      unfold leading? at h ⊢
      split at h <;> simp_all

theorem leading?_append {u : Text} {op : Operator} (h : leading? u = some op) (t : Text) :
    leading? (u ++ t) = some op := by
  rw [eq_append_of_leading? h, List.append_assoc, leading?_token_append]

end Operator

namespace Name

theorem leading?_append_of_none {u : Text} (hu : u ≠ []) (h : leading? u = none) (t : Text) :
    leading? (u ++ t) = none := by
  cases u with
  | nil => exact absurd rfl hu
  | cons c u =>
      rw [leading?] at h
      rw [List.cons_append, leading?]
      split at h
      · cases h
      · next hc => rw [if_neg hc]

theorem not_mem_of_isName {name : Text} (h : isName name = true) {c : Char}
    (hc : isPart c = false) : c ∉ name := by
  intro hmem
  have hpart : isPart c = true := by
    cases name with
    | nil => cases hmem
    | cons d u =>
        rw [isName, Bool.and_eq_true, List.all_eq_true] at h
        rcases List.mem_cons.1 hmem with rfl | hmem
        · exact isPart_of_isStart h.1
        · exact h.2 c hmem
  rw [hc] at hpart
  cases hpart

/-- A name that ends before the text does is read, whatever stands behind the text. -/
theorem leading?_append_of_some {u name after : Text} (h : leading? u = some (name, after))
    (t : Text) (ht : after = [] → ∀ c ∈ t.head?, isPart c = false) :
    leading? (u ++ t) = some (name, after ++ t) := by
  rw [eq_append_of_leading? h, List.append_assoc]
  refine leading?_append (isName_of_leading? h) fun c hc => ?_
  cases after with
  | nil => exact ht rfl c hc
  | cons d r => exact rest_of_leading? h c hc

end Name

namespace Node

/-- A name opens and closes no brace. -/
theorem balanceFrom_name {name : Text} (h : Name.isName name = true) (opened : Nat) :
    Region.balanceFrom opened name = some opened := by
  have hbalanced := Region.balanceFrom_of_not_mem (Name.not_mem_of_isName h (c := '{') rfl)
    (Name.not_mem_of_isName h (c := '}') rfl)
  simpa using Region.balanceFrom_add hbalanced opened

/-- Neither does an operator. -/
theorem balanceFrom_token (op : Operator) : Region.balanceFrom 0 op.token = some 0 := by
  obtain ⟨form, colon⟩ := op
  cases form <;> cases colon <;> rfl

/-- What is read behind a dollar stays what it is with `t` behind the text, unless it is a
name that `t` goes on with. -/
structure Settled (read : Text → Construct) (t : Text) : Prop where
  within : ∀ {u : Text} {n : Node} {k : Nat}, read u = .node n k → k ≤ u.length
  plain : ∀ {u : Text}, u ≠ [] → read u = .plain → read (u ++ t) = .plain
  node : ∀ {u : Text} {n : Node} {k : Nat}, read u = .node n k →
    (n.isBare = true → k = u.length → ∀ c ∈ t.head?, Name.isPart c = false) →
    read (u ++ t) = .node n k

section
variable {read : Text → Construct} {t : Text}

/-- Behind what belongs to the last piece, there is more of a fallback. -/
theorem lt_length_of_fallbackFrom {done : List Node} {opened n skip : Nat} {u : Text}
    {r : List Node × Nat} (h : fallbackFrom read done opened n skip u = some r) :
    skip < u.length := by
  obtain ⟨qs, k⟩ := r
  obtain ⟨ps, rest, hs, -, -⟩ := fallbackFrom_scans h
  have hlength := hs.suffix.length_le
  rw [List.length_cons, List.length_drop] at hlength
  omega

/-- **A fallback ends where it did**, whatever stands behind it. -/
theorem fallbackFrom_append (hread : Settled read t) {done : List Node} {opened n skip : Nat}
    {u : Text} {r : List Node × Nat} (h : fallbackFrom read done opened n skip u = some r) :
    fallbackFrom read done opened n skip (u ++ t) = some r := by
  fun_induction fallbackFrom read done opened n skip u with
  | case1 => cases h
  | case2 done opened n skip c u ih => rw [List.cons_append, fallbackFrom, ih h]
  | case3 done opened n u hr ih =>
      have hne : u ≠ [] := List.ne_nil_of_length_pos (lt_length_of_fallbackFrom h)
      rw [List.cons_append, fallbackFrom.eq_def]
      simp only [if_true, hread.plain hne hr]
      exact ih h
  | case4 => cases h
  | case5 done opened n u m taken hr ih =>
      -- the node is not the last of the text, so nothing goes on with it
      have hlt := lt_length_of_fallbackFrom h
      have hnode := hread.node hr fun _ hend => absurd hend (Nat.ne_of_lt hlt)
      rw [List.cons_append, fallbackFrom.eq_def]
      simp only [if_true, hnode]
      exact ih h
  | case6 done opened n u _ ih => rw [List.cons_append, fallbackFrom_open, ih h]
  | case7 done n u _ _ => rw [List.cons_append, fallbackFrom_end, h]
  | case8 done n u m _ _ ih => rw [List.cons_append, fallbackFrom_close, ih h]
  | case9 done opened n c u hdollar hopen hclose ih =>
      rw [List.cons_append, fallbackFrom_char (by simp [hdollar, hopen, hclose]), ih h]

theorem fallback?_append (hread : Settled read t) {u : Text} {r : List Node × Nat}
    (h : fallback? read u = some r) : fallback? read (u ++ t) = some r :=
  fallbackFrom_append hread h

/-- A region that is kept as it is written holds its closing brace. -/
theorem mem_of_kept {u : Text} {n : Node} {k : Nat} (h : kept u = .node n k) : '}' ∈ u := by
  unfold kept at h
  split at h
  · exact nomatch h
  · next hk =>
    obtain ⟨inner, rest, rfl, -⟩ := Region.braced?_eq_some hk
    simp

theorem kept_append {u : Text} {n : Node} {k : Nat} (h : kept u = .node n k) (t : Text) :
    kept (u ++ t) = .node n k := by
  unfold kept at h ⊢
  split at h
  · exact nomatch h
  · next j hj =>
    obtain ⟨inner, rest, rfl, hlength⟩ := Region.braced?_eq_some hj
    rw [Region.braced?, Region.bracedFrom_append hj t, ← h]
    simp only
    rw [List.take_append_of_le_length (by simp [hlength])]

/-- Something stands behind the name in a braced region. -/
theorem after_ne_nil_of_braced {name after : Text} (hname : '}' ∉ name) {n : Node} {k : Nat}
    (h : braced read name after (name ++ after) = .node n k) : after ≠ [] := by
  rintro rfl
  rw [braced_kept (by simp) rfl, List.append_nil] at h
  exact hname (mem_of_kept h)

/-- A braced region is read as it was, whatever stands behind it. -/
theorem braced_append (hread : Settled read t) {name after : Text} (hname : '}' ∉ name) {n : Node}
    {k : Nat} (h : braced read name after (name ++ after) = .node n k) :
    braced read name (after ++ t) (name ++ after ++ t) = .node n k := by
  have htake : ∀ j ≤ (name ++ after).length,
      (name ++ after ++ t).take j = (name ++ after).take j :=
    fun j hj => List.take_append_of_le_length hj
  cases hop : Operator.leading? after with
  | some op =>
      rw [braced_operator hop] at h
      rw [braced_operator (Operator.leading?_append hop t)]
      cases hf : fallback? read (after.drop op.token.length) with
      | none => rw [hf] at h; exact nomatch h
      | some r =>
          obtain ⟨pieces, j⟩ := r
          obtain ⟨rest, hs, hj⟩ := fallback?_scans hf
          have hlength := congrArg List.length (Operator.eq_append_of_leading? hop)
          rw [List.length_append] at hlength
          have hdrop : (after ++ t).drop op.token.length = after.drop op.token.length ++ t :=
            List.drop_append_of_le_length (by omega)
          rw [← h, hf, hdrop, fallback?_append hread hf]
          simp only
          rw [htake]
          simp only [List.length_append]
          omega
  | none =>
      obtain ⟨c, r, rfl⟩ := List.exists_cons_of_ne_nil (after_ne_nil_of_braced hname h)
      by_cases hc : c = '}'
      · subst hc
        rw [← h, List.cons_append, braced, braced, htake _ (by simp)]
      · rw [braced_kept (by simpa using hc) hop] at h
        have hmem : '}' ∈ c :: r := (List.mem_append.1 (mem_of_kept h)).resolve_left hname
        have hop' := Operator.leading?_append_of_none hop hmem t
        exact (braced_kept (by simpa using hc) hop').trans (kept_append h t)

end

namespace Grammar

section
variable {g : Grammar} {room : Nat} {u : Text}

/-- Behind an opening brace, something begins. -/
theorem construct_open_ne_plain : g.construct room ('{' :: u) ≠ .plain := by
  have hkept : kept u ≠ .plain := by
    unfold kept
    split <;> simp
  cases room with
  | zero => rw [construct_open_zero]; simp
  | succ room =>
      rw [construct]
      split
      · unfold braced
        split
        · simp
        · split
          · exact hkept
          · split <;> simp
      · exact hkept

/-- Behind an opening parenthesis, only a grammar without commands finds nothing. -/
theorem line_of_construct_plain (h : g.construct room ('(' :: u) = .plain) : g.line = none := by
  cases hline : g.line with
  | none => rfl
  | some line =>
      cases room with
      | zero => rw [construct_paren_zero hline] at h; exact nomatch h
      | succ room =>
          cases hk : Region.command? u with
          | none => rw [construct_paren_open hline hk] at h; exact nomatch h
          | some k => rw [construct_line hline hk] at h; exact nomatch h

theorem construct_append_of_plain (hu : u ≠ []) (h : g.construct room u = .plain) (t : Text) :
    g.construct room (u ++ t) = .plain := by
  cases u using behind_cases with
  | nil => exact absurd rfl hu
  | brace u => exact absurd h construct_open_ne_plain
  | paren u => exact construct_paren_of_none (line_of_construct_plain h)
  | other c u hbrace hparen =>
      rw [construct_name hbrace hparen] at h
      rw [List.cons_append, construct_name hbrace hparen]
      cases hrefs : g.references && g.bareNames with
      | false => rfl
      | true =>
          cases hname : Name.leading? (c :: u) with
          | none =>
              have := Name.leading?_append_of_none hu hname t
              rw [List.cons_append] at this
              rw [this]
          | some r => rw [hrefs, hname] at h; exact nomatch h

theorem construct_open_append (hread : Settled (g.construct room) t) {n : Node} {k : Nat}
    (h : g.construct (room + 1) ('{' :: u) = .node n k) :
    g.construct (room + 1) ('{' :: (u ++ t)) = .node n k := by
  rcases kept_or_reference g u with hnone | ⟨name, after, hv, hname⟩
  · rw [construct_kept hnone] at h
    have hu : u ≠ [] := List.ne_nil_of_mem (mem_of_kept h)
    rw [construct_kept fun hv => Name.leading?_append_of_none hu (hnone hv) t]
    exact kept_append h t
  · rw [construct_reference hv hname] at h
    have hclose : '}' ∉ name := Name.not_mem_of_isName (Name.isName_of_leading? hname) rfl
    rw [Name.eq_append_of_leading? hname] at h
    have hafter : after ≠ [] := after_ne_nil_of_braced hclose h
    have hname' := Name.leading?_append_of_some hname t fun hnil => absurd hnil hafter
    rw [construct_reference hv hname', Name.eq_append_of_leading? hname]
    exact braced_append hread hclose h

theorem construct_line_append {n : Node} {k : Nat}
    (h : g.construct room ('(' :: u) = .node n k) (t : Text) :
    g.construct room ('(' :: (u ++ t)) = .node n k := by
  cases hline : g.line with
  | none => rw [construct_paren_of_none hline] at h; exact nomatch h
  | some line =>
      cases room with
      | zero => rw [construct_paren_zero hline] at h; exact nomatch h
      | succ room =>
          cases hj : Region.command? u with
          | none => rw [construct_paren_open hline hj] at h; exact nomatch h
          | some j =>
              rw [construct_line hline hj] at h
              obtain ⟨inner, rest, rfl, hlength⟩ := Region.command?_eq_some hj
              have htake : ∀ i ≤ j, (inner ++ ')' :: rest ++ t).take i
                  = (inner ++ ')' :: rest).take i :=
                fun i hi => List.take_append_of_le_length
                  (by simp only [List.length_append, List.length_cons]; omega)
              rw [construct_line hline (Region.commandFrom_append hj t), htake _ (Nat.sub_le j 1),
                htake j (Nat.le_refl j), h]

theorem construct_name_append {c : Char} (hbrace : c ≠ '{') (hparen : c ≠ '(') {n : Node}
    {k : Nat} (h : g.construct room (c :: u) = .node n k)
    (ht : n.isBare = true → k = (c :: u).length → ∀ d ∈ t.head?, Name.isPart d = false) :
    g.construct room (c :: (u ++ t)) = .node n k := by
  rw [construct_name hbrace hparen] at h ⊢
  cases hrefs : g.references && g.bareNames with
  | false => rw [hrefs] at h; exact nomatch h
  | true =>
      cases hname : Name.leading? (c :: u) with
      | none => rw [hrefs, hname] at h; exact nomatch h
      | some r =>
          obtain ⟨name, after⟩ := r
          rw [hrefs, hname] at h
          obtain ⟨rfl, rfl⟩ := Construct.node.inj h
          have hbare : isBare (ref name ('$' :: name) none none) = true := by
            rw [isBare, isBraced_bare (Name.isName_of_leading? hname)]
            rfl
          have hlength := congrArg List.length (Name.eq_append_of_leading? hname)
          -- the name ends before the text, or the text behind does not go on with it
          have hname' := Name.leading?_append_of_some hname t fun hafter => by
            subst hafter
            exact ht hbare (by simpa using hlength.symm)
          rw [List.cons_append] at hname'
          rw [hname']

/-- Only behind an opening brace does it matter how a fallback is read. -/
theorem settled_of_open (hopen : ∀ {u : Text} {n : Node} {k : Nat},
      g.construct room ('{' :: u) = .node n k → g.construct room ('{' :: (u ++ t)) = .node n k) :
    Settled (g.construct room) t where
  within {u n k} h := by
    obtain ⟨rest, -, hk⟩ := reads_of_construct h
    omega
  plain hu h := construct_append_of_plain hu h t
  node {u n k} h ht := by
    cases u using behind_cases with
    | nil => rw [construct_nil] at h; exact nomatch h
    | brace u => exact hopen h
    | paren u => exact construct_line_append h t
    | other c u hbrace hparen => exact construct_name_append hbrace hparen h ht

end

/-- **No reader looks past its own closer.** What a dollar begins is settled by the text up
to where it ends. -/
theorem settled_construct (g : Grammar) (room : Nat) (t : Text) :
    Settled (g.construct room) t := by
  -- on the room: a fallback is read with less of it
  induction room with
  | zero => exact settled_of_open fun h => by rw [construct_open_zero] at h; exact nomatch h
  | succ room ih => exact settled_of_open fun h => construct_open_append ih h

end Grammar

/-! ## Texts one behind the other -/

/-- A text that closes every region it opens at the top. -/
def Closes (read : Text → Construct) (s : Text) : Prop := ∃ ps, Scans read ps s []

/-- Going along a closed text gives the same pieces with `t` behind it. -/
theorem Scans.append {read : Text → Construct} {t s rest : Text} (hread : Settled read t)
    {ps : List Node} (h : Scans read ps s rest) (hrest : rest = []) (hend : ¬ ['$'] <:+ s)
    (ht : ∀ n ∈ ps.getLast?, n.isBare = true → ∀ c ∈ t.head?, Name.isPart c = false) :
    Scans read ps (s ++ t) t := by
  induction h with
  | nil => rw [hrest]; exact .nil
  | char hc _ ih =>
      exact .char hc (ih hrest (fun h => hend (h.trans (List.suffix_cons _ _)))
        fun n hn => ht n (List.mem_getLast?_cons hn))
  | @dollar s rest ps hr _ ih =>
      have hne : s ≠ [] := by
        rintro rfl
        exact hend (List.suffix_refl _)
      exact .dollar (hread.plain hne hr) (ih hrest (fun h => hend (h.trans (List.suffix_cons _ _)))
        fun n hn => ht n (List.mem_getLast?_cons hn))
  | @node s rest n k ps hr hs ih =>
      have hk : k ≤ s.length := hread.within hr
      have hnode : read (s ++ t) = .node n k := by
        refine hread.node hr fun hbare hlength => ht n ?_ hbare
        -- the node is the last piece
        rw [hlength, List.drop_length] at hs
        rw [hs.eq_nil]
        rfl
      have hdrop : (s ++ t).drop k = s.drop k ++ t := List.drop_append_of_le_length hk
      have hsuffix : s.drop k <:+ '$' :: s := (List.drop_suffix _ _).trans (List.suffix_cons _ _)
      refine .node hnode (hdrop ▸ ih hrest (fun h => hend (h.trans hsuffix)) fun n hn => ?_)
      exact ht n (List.mem_getLast?_cons hn)

/-- Two sequences in a row, with a literal at the end of one and a literal at the front of
the other taken together. -/
def merge : List Node → List Node → List Node
  | [], ms => ms
  | [lit t], lit u :: ms => lit (t ++ u) :: ms
  | n :: ns, ms => n :: merge ns ms

theorem merge_cons {n : Node} (hn : n.isLit = false) (ns ms : List Node) :
    merge (n :: ns) ms = n :: merge ns ms := by
  rw [merge]
  rintro t u ms' rfl rfl -
  exact nomatch hn

theorem merge_cons_cons (n m : Node) (ns ms : List Node) :
    merge (n :: m :: ns) ms = n :: merge (m :: ns) ms := by
  rw [merge]
  nofun

theorem cons_merge (n : Node) (ns ms : List Node) :
    cons n (merge ns ms) = merge (cons n ns) ms := by
  fun_cases cons n ns with
  | case1 => rfl
  | case2 c t u ns =>
      cases ns with
      | cons m ns => rw [merge_cons_cons, merge_cons_cons, cons]
      | nil =>
          cases ms with
          | nil => rfl
          | cons m ms => cases m <;> simp [merge, cons]
  | case3 n ns hempty hlits =>
      cases hn : n.isLit with
      | false => rw [cons_of_not_lit hn, merge_cons hn]
      | true =>
          obtain ⟨t, rfl⟩ := exists_lit_of_isLit hn
          obtain ⟨c, t, rfl⟩ := List.exists_cons_of_ne_nil fun ht => hempty (congrArg lit ht)
          cases ns with
          | nil => cases ms with
            | nil => rfl
            | cons m ms => cases m <;> rfl
          | cons m ns =>
              cases m with
              | lit u => exact absurd rfl (hlits c t u ns rfl)
              | _ => rfl

/-- **Joining goes piece by piece**, but for literals that touch in the middle. -/
theorem join_append (ps qs : List Node) : join (ps ++ qs) = merge (join ps) (join qs) := by
  induction ps with
  | nil => rfl
  | cons p ps ih => rw [List.cons_append, join_cons, ih, cons_merge, join_cons]

/-- The last node of a sequence is the last one joined, unless it is a literal. -/
theorem getLast?_join {ps : List Node} {n : Node} (h : n ∈ ps.getLast?) (hn : n.isLit = false) :
    (join ps).getLast? = some n := by
  obtain ⟨qs, rfl⟩ := List.getLast?_eq_some_iff.1 h
  have hmerge : ∀ ns, merge ns [n] = ns ++ [n] := by
    intro ns
    induction ns with
    | nil => rfl
    | cons m ns ih =>
        rw [merge, ih, List.cons_append]
        rintro t u ms h - -
        injection h with h
        subst h
        exact nomatch hn
  rw [join_append, join_cons, join_nil, cons_of_not_lit hn, hmerge, List.getLast?_concat]

/-- How a value is read behind a dollar. -/
def reader (f : Features) (bareNames : Bool) (depth : Int) : Text → Construct :=
  (Grammar.ofValue f.references f.commands bareNames).construct depth.toNat

theorem isLit_of_isBare {n : Node} (h : n.isBare = true) : n.isLit = false := by
  cases n with
  | lit t => exact nomatch h
  | _ => rfl

/-- **What is read of a closed text is settled**, whatever follows it: the nodes of two texts
in a row are the nodes of the one and the nodes of the other, but for literals that touch. A
region that does not end, behind the closed text, is a literal. -/
theorem parse_append (f : Features) (bareNames : Bool) (depth : Int) (s t : Text)
    (hclosed : Closes (reader f bareNames depth) s) (hend : ¬ ['$'] <:+ s)
    (hname : ∀ n ∈ (parse f bareNames depth s).getLast?, n.isBare = true →
      ∀ c ∈ t.head?, Name.isPart c = false) :
    parse f bareNames depth (s ++ t) = merge (parse f bareNames depth s) (parse f bareNames depth t)
      ∧ ∀ u, t = '$' :: u → reader f bareNames depth u = .unterminated →
        parse f bareNames depth t = [lit t] := by
  refine ⟨?_, fun u ht hu => ?_⟩
  · obtain ⟨ps, hs⟩ := hclosed
    have hnodes : parse f bareNames depth s = join ps := by
      have := hs.sequence
      rw [show Node.sequence (reader f bareNames depth) [] = [] from rfl, List.append_nil] at this
      exact congrArg join this
    have happend : Scans (reader f bareNames depth) ps (s ++ t) t := by
      refine hs.append (Grammar.settled_construct _ _ t) rfl hend fun n hn hbare => ?_
      exact hname n (hnodes ▸ getLast?_join hn (isLit_of_isBare hbare)) hbare
    calc parse f bareNames depth (s ++ t)
        = join (ps ++ Node.sequence (reader f bareNames depth) t) := congrArg join happend.sequence
      _ = merge (join ps) (parse f bareNames depth t) := join_append ps _
      _ = merge (parse f bareNames depth s) (parse f bareNames depth t) := by rw [hnodes]
  · subst ht
    exact congrArg join (sequence_unterminated hu)

/-- A closed text with a bare name at its end. -/
def bareEnd : Text := "x${A:-$B}$C".toList

/-- A region that does not end. -/
def openEnd : Text := ['$', '{', 'D']

/-- The bare name ends where the region begins, and the region is text. -/
theorem parse_append_bareEnd_openEnd :
    Closes (reader {} true 2) bareEnd ∧ ¬ ['$'] <:+ bareEnd
    ∧ parse {} true 2 (bareEnd ++ openEnd)
      = [lit ['x'], ref ['A'] "${A:-$B}".toList (some ⟨.otherwise, true⟩)
          (some [ref ['B'] "$B".toList none none]),
        ref ['C'] "$C".toList none none, lit openEnd] := by
  have hclosed : Closes (reader {} true 2) bareEnd :=
    ⟨_, .char (by decide) (.node rfl (.node rfl .nil))⟩
  have hend : ¬ ['$'] <:+ bareEnd := by decide
  obtain ⟨happend, htail⟩ := parse_append {} true 2 bareEnd openEnd hclosed hend
    fun _ _ _ c hc => by
      obtain rfl : '$' = c := Option.some.inj hc
      decide
  refine ⟨hclosed, hend, happend.trans ?_⟩
  rw [htail _ rfl rfl]
  rfl

end Node
end EnvValues
