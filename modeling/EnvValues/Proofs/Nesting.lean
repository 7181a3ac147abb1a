import EnvValues.Proofs.Printing
import Mathlib.Data.List.Forall2

/-!
# What the limit on nesting does

A region that is nested deeper than there is room for is not read, and with it goes all that
stands behind it in the text or in the command line that it stands in. Of two limits, the
lower one therefore gives **what the higher one gives, cut short** (`cutShort_parse`): the
first nodes are the same but for the lines of commands, which are cut short in turn, and a
literal stands for the others. Fallbacks are never cut: where one cannot be read to its end,
the whole reference is not read.

The readers for two limits are compared construct by construct (`Curtails`). A text is cut
where the lower limit does not end a region, and as long as both read on they are at the same
place, since a node is as long as its text. A limit that is no lower than the number of
regions a text opens is no limit at all.
-/

namespace EnvValues
namespace Node

/-- The sequence `ns` is `ms` cut short: the nodes that are kept are related, and a literal
holds the text of the others, if there are any. -/
inductive CutShort (R : Node → Node → Prop) : (ns ms : List Node) → Prop where
  | nil : CutShort R [] []
  | cut {ms : List Node} : ms ≠ [] → CutShort R [lit (rawAll ms)] ms
  | cons {n m : Node} {ns ms : List Node} :
      R n m → CutShort R ns ms → CutShort R (n :: ns) (m :: ms)

/-- The node `n` is `m` with the lines of commands cut short. -/
inductive Pruned : (n m : Node) → Prop where
  | lit {t : Text} : Pruned (lit t) (lit t)
  | plain {name raw : Text} {op : Option Operator} :
      Pruned (ref name raw op none) (ref name raw op none)
  | fallback {name raw : Text} {op : Option Operator} {f f' : List Node} :
      List.Forall₂ Pruned f f' → Pruned (ref name raw op (some f)) (ref name raw op (some f'))
  | command {line line' : List Node} {raw : Text} :
      CutShort Pruned line line' → Pruned (command line raw) (command line' raw)

section
variable {n m : Node} {ns ms : List Node}

theorem Pruned.raw_eq (h : Pruned n m) : n.raw = m.raw := by
  cases h with
  | lit => rfl
  | plain => rfl
  | fallback => rfl
  | command => rfl

theorem Pruned.isLit_eq (h : Pruned n m) : n.isLit = m.isLit := by
  cases h with
  | lit => rfl
  | plain => rfl
  | fallback => rfl
  | command => rfl

/-- **What is cut short is some of the first nodes** and, where these are not all, one literal
with the text of the rest. -/
theorem cutShort_iff {R : Node → Node → Prop} :
    CutShort R ns ms ↔ ∃ k kept, k ≤ ms.length ∧ List.Forall₂ R kept (ms.take k)
      ∧ ns = kept ++ if k < ms.length then [lit (rawAll (ms.drop k))] else [] := by
  constructor
  · intro h
    induction h with
    | nil => exact ⟨0, [], Nat.le_refl _, .nil, rfl⟩
    | @cut ms hms =>
        exact ⟨0, [], Nat.zero_le _, .nil, by simp [List.length_pos_iff.2 hms]⟩
    | @cons n m ns ms hn _ ih =>
        obtain ⟨k, kept, hk, hkept, rfl⟩ := ih
        exact ⟨k + 1, n :: kept, Nat.succ_le_succ hk, .cons hn hkept, by simp⟩
  · rintro ⟨k, kept, hk, hkept, rfl⟩
    induction ms generalizing k kept with
    | nil =>
        obtain rfl : k = 0 := Nat.le_zero.1 hk
        cases hkept
        exact .nil
    | cons m ms ih =>
        cases k with
        | zero =>
            cases hkept
            exact .cut (List.cons_ne_nil m ms)
        | succ k =>
            cases hkept with
            | cons hn hkept =>
                have := ih k _ (Nat.le_of_succ_le_succ hk) hkept
                simpa using CutShort.cons hn this

theorem cutShort_of_forall₂ {R : Node → Node → Prop} (h : List.Forall₂ R ns ms) :
    CutShort R ns ms := by
  induction h with
  | nil => exact .nil
  | cons hn _ ih => exact .cons hn ih

/-! ## Joining pieces -/

/-- A literal is not joined to a node of another kind. -/
theorem cons_lit_cons (hn : n.isLit = false) (c : Char) (t : Text) :
    cons (lit (c :: t)) (n :: ns) = lit (c :: t) :: n :: ns := by
  cases n with
  | lit u => exact nomatch hn
  | _ => rfl

/-! Related nodes are literals both or neither, so they are joined alike. That is all that
joining asks of a relation of sequences that goes on through related nodes. -/

section
variable {S : List Node → List Node → Prop}
  (hS : ∀ {n m ns ms}, Pruned n m → S ns ms → S (n :: ns) (m :: ms))
include hS

theorem related_cons_lit (h : Pruned n m) (hs : S ns ms) (c : Char) (t : Text) :
    S (cons (lit (c :: t)) (n :: ns)) (cons (lit (c :: t)) (m :: ms)) := by
  cases hn : n.isLit with
  | false =>
      rw [cons_lit_cons hn, cons_lit_cons (h.isLit_eq ▸ hn)]
      exact hS .lit (hS h hs)
  | true =>
      obtain ⟨u, rfl⟩ := exists_lit_of_isLit hn
      cases h
      exact hS .lit hs

theorem related_cons (hlit : ∀ c t, S (cons (lit (c :: t)) ns) (cons (lit (c :: t)) ms))
    (h : Pruned n m) (hs : S ns ms) : S (cons n ns) (cons m ms) := by
  cases hn : n.isLit with
  | false =>
      rw [cons_of_not_lit hn, cons_of_not_lit (h.isLit_eq ▸ hn)]
      exact hS h hs
  | true =>
      obtain ⟨t, rfl⟩ := exists_lit_of_isLit hn
      cases h
      cases t with
      | nil => exact hs
      | cons c t => exact hlit c t

end

theorem forall₂_cons (h : Pruned n m) (hs : List.Forall₂ Pruned ns ms) :
    List.Forall₂ Pruned (cons n ns) (cons m ms) := by
  refine related_cons .cons (fun c t => ?_) h hs
  cases hs with
  | nil => exact .cons .lit .nil
  | cons hp hs => exact related_cons_lit .cons hp hs c t

theorem forall₂_join (h : List.Forall₂ Pruned ns ms) :
    List.Forall₂ Pruned (join ns) (join ms) := by
  induction h with
  | nil => exact .nil
  | cons hn _ ih => exact forall₂_cons hn ih

/-- What is cut off is a literal with the text of it, for anything that has a text. -/
theorem cutShort_of_rawAll {t : Text} (hms : rawAll ms = t) (ht : t ≠ []) :
    CutShort Pruned [lit t] ms := by
  subst hms
  refine .cut fun hnil => ht ?_
  rw [hnil, rawAll_nil]

/-- The literal at the cut is joined to one in front of it. -/
theorem CutShort.consNode (h : Pruned n m) (hs : CutShort Pruned ns ms) :
    CutShort Pruned (Node.cons n ns) (Node.cons m ms) := by
  refine related_cons .cons (fun c t => ?_) h hs
  cases hs with
  | nil => exact .cons .lit .nil
  | cut =>
      exact cutShort_of_rawAll (rawAll_consNode (lit (c :: t)) ms) (List.cons_ne_nil c _)
  | cons hp hs => exact related_cons_lit .cons hp hs c t

end

/-! ## Two readers -/

/-- What is found as `c` is found as `c'` too, and is as long: a node is related to the other
one, and nothing is said of a region that does not end. -/
def Curtails (R : Node → Node → Prop) : (c c' : Construct) → Prop
  | .plain, c' => c' = .plain
  | .unterminated, _ => True
  | .node n k, c' => ∃ m, c' = .node m k ∧ R n m

section
variable {read read' : Text → Construct}

/-- **A text is read on until the lower limit does not end a region**, and cut there. -/
theorem cutShort_sequence (h : ∀ u, Curtails Pruned (read u) (read' u))
    (hraw : ∀ u, rawAll (join (sequence read' u)) = u) (t : Text) :
    CutShort Pruned (join (sequence read t)) (join (sequence read' t)) := by
  obtain ⟨ps, tail, rest, hs, ht, -⟩ := sequence_scans read t
  induction hs with
  | @nil t =>
      cases ht with
      | done => exact .nil
      | unterminated hr =>
          rw [sequence_unterminated hr]
          exact cutShort_of_rawAll (hraw _) (List.cons_ne_nil _ _)
  | char hc _ ih =>
      rw [sequence_char hc, sequence_char hc]
      exact (ih ht).consNode .lit
  | @dollar t _ _ hr _ ih =>
      have hr' : read' t = .plain := by simpa [hr, Curtails] using h t
      rw [sequence_plain hr, sequence_plain hr']
      exact (ih ht).consNode .lit
  | @node t _ n k _ hr _ ih =>
      obtain ⟨m, hr', hn⟩ : ∃ m, read' t = .node m k ∧ Pruned n m := by
        simpa [hr, Curtails] using h t
      rw [sequence_node hr, sequence_node hr']
      exact (ih ht).consNode hn

/-- **A fallback that is read to its end is read alike with a reader that finds more.** -/
theorem fallbackFrom_curtails {R : Node → Node → Prop} (hlit : ∀ t, R (lit t) (lit t))
    {done done' qs : List Node} {opened n k skip : Nat} {t : Text}
    (h : ∀ u, '$' :: u <:+ t → Curtails R (read u) (read' u))
    (hdone : List.Forall₂ R done done')
    (hf : fallbackFrom read done opened n skip t = some (qs, k)) :
    ∃ qs', fallbackFrom read' done' opened n skip t = some (qs', k) ∧ List.Forall₂ R qs qs' := by
  have hstep : ∀ {c : Char} {t : Text}, (∀ u, '$' :: u <:+ c :: t → Curtails R (read u) (read' u)) →
      ∀ u, '$' :: u <:+ t → Curtails R (read u) (read' u) :=
    fun h u hu => h u (hu.trans (List.suffix_cons _ _))
  fun_induction fallbackFrom read done opened n skip t generalizing done' with
  | case1 => cases hf
  | case2 done opened n skip c t ih =>
      rw [fallbackFrom]
      exact ih (hstep h) hdone hf
  | case3 done opened n t hr ih =>
      have hr' : read' t = .plain := by simpa [hr, Curtails] using h t (List.suffix_refl _)
      rw [fallbackFrom.eq_def]
      simp only [if_true, hr']
      exact ih (hstep h) (.cons (hlit _) hdone) hf
  | case4 => cases hf
  | case5 done opened n t m taken hr ih =>
      obtain ⟨m', hr', hm⟩ : ∃ m', read' t = .node m' taken ∧ R m m' := by
        simpa [hr, Curtails] using h t (List.suffix_refl _)
      rw [fallbackFrom.eq_def]
      simp only [if_true, hr']
      exact ih (hstep h) (.cons hm hdone) hf
  | case6 done opened n t _ ih =>
      rw [fallbackFrom.eq_def]
      exact ih (hstep h) (.cons (hlit _) hdone) hf
  | case7 done n t _ _ =>
      obtain ⟨rfl, rfl⟩ := Prod.mk.inj (Option.some.inj hf)
      exact ⟨done'.reverse, by rw [fallbackFrom.eq_def]; rfl, List.rel_reverse hdone⟩
  | case8 done n t m _ _ ih =>
      rw [fallbackFrom.eq_def]
      exact ih (hstep h) (.cons (hlit _) hdone) hf
  | case9 done opened n c t hdollar hopen hclose ih =>
      rw [fallbackFrom.eq_def]
      simp only [if_neg hdollar, if_neg hopen, if_neg hclose]
      exact ih (hstep h) (.cons (hlit _) hdone) hf

/-- A construct that holds no commands is found alike. -/
theorem curtails_self {R : Node → Node → Prop} {c : Construct}
    (h : ∀ n k, c = .node n k → R n n) : Curtails R c c := by
  cases c with
  | plain => rfl
  | unterminated => trivial
  | node n k => exact ⟨n, rfl, h n k rfl⟩

theorem curtails_kept (t : Text) : Curtails Pruned (kept t) (kept t) := by
  refine curtails_self fun n k h => ?_
  unfold kept at h
  split at h
  · exact nomatch h
  · injection h with hn
    exact hn ▸ .lit

theorem curtails_braced (h : ∀ u, Curtails Pruned (read u) (read' u)) (name after t : Text) :
    Curtails Pruned (braced read name after t) (braced read' name after t) := by
  cases hop : Operator.leading? after with
  | some op =>
      rw [braced_operator hop, braced_operator hop]
      cases hf : fallback? read (after.drop op.token.length) with
      | none => trivial
      | some r =>
          obtain ⟨qs', hf', hqs⟩ :=
            fallbackFrom_curtails (fun _ => .lit) (fun u _ => h u) .nil hf
          rw [← fallback?] at hf'
          rw [hf']
          exact ⟨_, rfl, .fallback (forall₂_join hqs)⟩
  | none =>
      by_cases hclose : after.head? = some '}'
      · obtain ⟨rest, rfl⟩ := List.head?_eq_some_iff.1 hclose
        exact ⟨_, rfl, .plain⟩
      · rw [braced_kept hclose hop, braced_kept hclose hop]
        exact curtails_kept t

end

namespace Grammar

/-- Are the lines of commands cut short, where there is less room? -/
def LinesCut (g : Grammar) : Prop :=
  ∀ line, g.line = some line → ∀ r r', r ≤ r' → ∀ t, CutShort Pruned (line r t) (line r' t)

section
variable {g : Grammar} {room room' : Nat}

theorem curtails_paren (hline : g.LinesCut) (hroom : room ≤ room') (t : Text) :
    Curtails Pruned (g.construct room ('(' :: t)) (g.construct room' ('(' :: t)) := by
  cases hl : g.line with
  | none =>
      rw [construct_paren_of_none hl, construct_paren_of_none hl]
      rfl
  | some line =>
      cases room with
      | zero => rw [construct_paren_zero hl]; trivial
      | succ r =>
          obtain ⟨r', rfl⟩ : ∃ r', room' = r' + 1 := ⟨room' - 1, by omega⟩
          cases hk : Region.command? t with
          | none => rw [construct_paren_open hl hk]; trivial
          | some k =>
              rw [construct_line hl hk, construct_line hl hk]
              exact ⟨_, rfl, .command (hline line hl _ _ hroom _)⟩

theorem curtails_name {c : Char} (hbrace : c ≠ '{') (hparen : c ≠ '(') (t : Text) :
    Curtails Pruned (g.construct room (c :: t)) (g.construct room' (c :: t)) := by
  rw [construct_name hbrace hparen, construct_name hbrace hparen]
  refine curtails_self fun n k h => ?_
  split at h
  · injection h with hn
    exact hn ▸ .plain
  · exact nomatch h

theorem curtails_open (h : ∀ u, Curtails Pruned (g.construct room u) (g.construct room' u))
    (t : Text) :
    Curtails Pruned (g.construct (room + 1) ('{' :: t)) (g.construct (room' + 1) ('{' :: t)) := by
  rcases kept_or_reference g t with hnone | ⟨name, after, hv, hname⟩
  · rw [construct_kept hnone, construct_kept hnone]
    exact curtails_kept t
  · rw [construct_reference hv hname, construct_reference hv hname]
    exact curtails_braced h name after t

/-- **With less room, less is found.** -/
theorem curtails_construct (hline : g.LinesCut) (hroom : room ≤ room') (t : Text) :
    Curtails Pruned (g.construct room t) (g.construct room' t) := by
  -- on the room: a fallback is read with less of it
  induction room using Nat.strongRecOn generalizing room' t with
  | ind room ih =>
    cases t using behind_cases with
    | nil => rw [construct_nil, construct_nil]; rfl
    | brace t =>
        cases room with
        | zero => rw [construct_open_zero]; trivial
        | succ r =>
            obtain ⟨r', rfl⟩ : ∃ r', room' = r' + 1 := ⟨room' - 1, by omega⟩
            exact curtails_open (ih r (Nat.lt_succ_self r) (Nat.le_of_succ_le_succ hroom)) t
    | paren t => exact curtails_paren hline hroom t
    | other c t hbrace hparen => exact curtails_name hbrace hparen t

theorem cutShort_nodes (hline : g.LinesCut) (hroom : room ≤ room') (t : Text) :
    CutShort Pruned (g.nodes room t) (g.nodes room' t) :=
  cutShort_sequence (curtails_construct hline hroom) (rawAll_nodes g room') t

end

/-- No line holds a line. -/
theorem linesCut_ofLine (references : Bool) : (ofLine references).LinesCut :=
  fun _ h => nomatch h

theorem linesCut_ofValue (f : Features) (bareNames : Bool) :
    (ofValue f.references f.commands bareNames).LinesCut := by
  intro line h r r' hr t
  have hplace : (ofPlace f bareNames false).line = some line := h
  obtain ⟨-, -, rfl⟩ := line_ofPlace hplace
  exact cutShort_nodes (linesCut_ofLine f.references) hr t

end Grammar

/-! ## Where nodes stand -/

/-- The node `n` stands somewhere in a sequence, at any depth, behind the text `u`. -/
inductive Stands (n : Node) : (u : Text) → List Node → Prop where
  | here {ns : List Node} : Stands n [] (n :: ns)
  | later {m : Node} {u : Text} {ns : List Node} :
      Stands n u ns → Stands n (m.raw ++ u) (m :: ns)
  | fallback {name raw u : Text} {op : Operator} {f ns : List Node} :
      Stands n u f →
      Stands n ('$' :: '{' :: (name ++ (op.token ++ u))) (ref name raw (some op) (some f) :: ns)
  | line {raw u : Text} {line ns : List Node} :
      Stands n u line → Stands n ('$' :: '(' :: u) (command line raw :: ns)

/-- **Cutting short moves nothing and adds nothing but literals.** -/
theorem Stands.of_cutShort {n : Node} (hn : n.isLit = false) {u : Text} {ns : List Node}
    (h : Stands n u ns) :
    ∀ {ms : List Node}, CutShort Pruned ns ms → ∃ m, Pruned n m ∧ Stands m u ms := by
  induction h with
  | here =>
      intro ms hs
      cases hs with
      | cut => exact nomatch hn
      | cons hm _ => exact ⟨_, hm, .here⟩
  | later h ih =>
      intro ms hs
      cases hs with
      | cut => exact nomatch h
      | cons hm hs =>
          obtain ⟨m, hnm, hm'⟩ := ih hs
          exact ⟨m, hnm, hm.raw_eq ▸ hm'.later⟩
  | fallback _ ih =>
      intro ms hs
      cases hs with
      | cons hm hs =>
          cases hm with
          | fallback hf =>
              obtain ⟨m, hnm, hm'⟩ := ih (cutShort_of_forall₂ hf)
              exact ⟨m, hnm, hm'.fallback⟩
  | line _ ih =>
      intro ms hs
      cases hs with
      | cons hm hs =>
          cases hm with
          | command hl =>
              obtain ⟨m, hnm, hm'⟩ := ih hl
              exact ⟨m, hnm, hm'.line⟩

/-! ## Room enough -/

/-- Does the text begin with a region? -/
def opens (t : Text) : Bool := ['$', '{'].isPrefixOf t || ['$', '('].isPrefixOf t

/-- The number of places where a region begins in a text, as far as one can tell by two
characters. -/
def openings : Text → Nat
  | [] => 0
  | c :: t => (if opens (c :: t) then 1 else 0) + openings t

theorem openings_le_of_suffix {t u : Text} (h : u <:+ t) : openings u ≤ openings t := by
  obtain ⟨v, rfl⟩ := h
  induction v with
  | nil => exact Nat.le_refl _
  | cons c v ih =>
      rw [List.cons_append, openings]
      omega

theorem openings_le_append (t u : Text) : openings t ≤ openings (t ++ u) := by
  induction t with
  | nil => exact Nat.zero_le _
  | cons c t ih =>
      have hopens : opens (c :: t) = true → opens (c :: t ++ u) = true := by
        simp only [opens, Bool.or_eq_true, List.isPrefixOf_iff_prefix]
        rintro (h | h)
        · exact Or.inl (h.trans (List.prefix_append _ _))
        · exact Or.inr (h.trans (List.prefix_append _ _))
      rw [List.cons_append, openings, openings]
      cases hc : opens (c :: t) with
      | false =>
          simp only [Bool.false_eq_true, if_false]
          omega
      | true =>
          rw [List.cons_append] at hopens
          simp only [hopens hc, if_true]
          omega

theorem openings_open (t : Text) : openings ('$' :: '{' :: t) = openings t + 1 := by
  simp [openings, opens, List.isPrefixOf, Nat.add_comm]

theorem openings_paren (t : Text) : openings ('$' :: '(' :: t) = openings t + 1 := by
  simp [openings, opens, List.isPrefixOf, Nat.add_comm]

section
variable {read read' : Text → Construct} {t : Text}

theorem sequence_congr (h : ∀ u, '$' :: u <:+ t → read u = read' u) :
    sequence read t = sequence read' t := by
  obtain ⟨ps, tail, rest, hs, ht, -⟩ := sequence_scans read t
  induction hs with
  | nil =>
      cases ht with
      | done => rfl
      | unterminated hr =>
          have hr' := h _ (List.suffix_refl _) ▸ hr
          rw [sequence_unterminated hr, sequence_unterminated hr']
  | char hc _ ih =>
      rw [sequence_char hc, sequence_char hc,
        ih (fun u hu => h u (hu.trans (List.suffix_cons _ _))) ht]
  | dollar hr _ ih =>
      have hr' := h _ (List.suffix_refl _) ▸ hr
      rw [sequence_plain hr, sequence_plain hr',
        ih (fun u hu => h u (hu.trans (List.suffix_cons _ _))) ht]
  | @node t _ n k _ hr _ ih =>
      have hr' := h _ (List.suffix_refl _) ▸ hr
      have hsuffix : t.drop k <:+ '$' :: t := (List.drop_suffix _ _).trans (List.suffix_cons _ _)
      rw [sequence_node hr, sequence_node hr', ih (fun u hu => h u (hu.trans hsuffix)) ht]

/-- A fallback that one reader reads to its end, the other does as well. -/
theorem fallback?_of_congr {r : List Node × Nat} (h : ∀ u, '$' :: u <:+ t → read u = read' u)
    (hr : fallback? read t = some r) : fallback? read' t = some r := by
  have hcurtails : ∀ u, '$' :: u <:+ t → Curtails Eq (read u) (read' u) :=
    fun u hu => h u hu ▸ curtails_self fun _ _ _ => rfl
  obtain ⟨qs', hr', hqs⟩ := fallbackFrom_curtails (fun _ => rfl) hcurtails .nil hr
  rw [List.forall₂_eq_eq_eq] at hqs
  rw [fallback?, hr', ← hqs]

theorem fallback?_congr (h : ∀ u, '$' :: u <:+ t → read u = read' u) :
    fallback? read t = fallback? read' t :=
  Option.ext fun _ => ⟨fallback?_of_congr h, fallback?_of_congr fun u hu => (h u hu).symm⟩

theorem braced_congr {name after u : Text} (h : ∀ v, '$' :: v <:+ after → read v = read' v) :
    braced read name after u = braced read' name after u := by
  cases hop : Operator.leading? after with
  | some op =>
      have hdrop : ∀ v, '$' :: v <:+ after.drop op.token.length → read v = read' v :=
        fun v hv => h v (hv.trans (List.drop_suffix _ _))
      rw [braced_operator hop, braced_operator hop, fallback?_congr hdrop]
  | none =>
      by_cases hclose : after.head? = some '}'
      · obtain ⟨rest, rfl⟩ := List.head?_eq_some_iff.1 hclose
        rfl
      · rw [braced_kept hclose hop, braced_kept hclose hop]

end

namespace Grammar

/-- Are the lines of commands read alike, where there is room enough? -/
def LinesFit (g : Grammar) : Prop :=
  ∀ line, g.line = some line → ∀ r r' t, openings t ≤ r → r ≤ r' → line r t = line r' t

section
variable {g : Grammar} {room room' : Nat}

theorem construct_open_congr {t : Text}
    (h : ∀ u, '$' :: u <:+ t → g.construct room u = g.construct room' u) :
    g.construct (room + 1) ('{' :: t) = g.construct (room' + 1) ('{' :: t) := by
  rcases kept_or_reference g t with hnone | ⟨name, after, hv, hname⟩
  · rw [construct_kept hnone, construct_kept hnone]
  · rw [construct_reference hv hname, construct_reference hv hname]
    have hafter : after <:+ t := ⟨name, (Name.eq_append_of_leading? hname).symm⟩
    exact braced_congr fun u hu => h u (hu.trans hafter)

theorem construct_paren_congr {t : Text}
    (h : ∀ line, g.line = some line →
      ∀ k, line (room + 1) (t.take k) = line (room' + 1) (t.take k)) :
    g.construct (room + 1) ('(' :: t) = g.construct (room' + 1) ('(' :: t) := by
  cases hl : g.line with
  | none => rw [construct_paren_of_none hl, construct_paren_of_none hl]
  | some line =>
      cases hk : Region.command? t with
      | none => rw [construct_paren_open hl hk, construct_paren_open hl hk]
      | some k => rw [construct_line hl hk, construct_line hl hk, h line hl]

/-- **A construct needs no more room than there are regions in its text.** -/
theorem construct_of_openings_le (hline : g.LinesFit) (hroom : room ≤ room') {t : Text}
    (ht : openings ('$' :: t) ≤ room) : g.construct room t = g.construct room' t := by
  -- on the room: a fallback is read with less of it
  induction room using Nat.strongRecOn generalizing room' t with
  | ind room ih =>
    cases t using behind_cases with
    | nil => rw [construct_nil, construct_nil]
    | brace t =>
        rw [openings_open] at ht
        obtain ⟨r, rfl⟩ : ∃ r, room = r + 1 := ⟨room - 1, by omega⟩
        obtain ⟨r', rfl⟩ : ∃ r', room' = r' + 1 := ⟨room' - 1, by omega⟩
        refine construct_open_congr fun u hu => ?_
        have hopenings := openings_le_of_suffix hu
        exact ih r (Nat.lt_succ_self r) (by omega) (by omega)
    | paren t =>
        rw [openings_paren] at ht
        obtain ⟨r, rfl⟩ : ∃ r, room = r + 1 := ⟨room - 1, by omega⟩
        obtain ⟨r', rfl⟩ : ∃ r', room' = r' + 1 := ⟨room' - 1, by omega⟩
        refine construct_paren_congr fun line hl k => ?_
        have hopenings := openings_le_append (t.take k) (t.drop k)
        rw [List.take_append_drop] at hopenings
        exact hline line hl _ _ _ (by omega) hroom
    | other c t hbrace hparen => rw [construct_name hbrace hparen, construct_name hbrace hparen]

theorem nodes_of_openings_le (hline : g.LinesFit) (hroom : room ≤ room') {t : Text}
    (ht : openings t ≤ room) : g.nodes room t = g.nodes room' t := by
  refine congrArg join (sequence_congr fun u hu => construct_of_openings_le hline hroom ?_)
  exact Nat.le_trans (openings_le_of_suffix hu) ht

end

theorem linesFit_ofLine (references : Bool) : (ofLine references).LinesFit :=
  fun _ h => nomatch h

theorem linesFit_ofValue (f : Features) (bareNames : Bool) :
    (ofValue f.references f.commands bareNames).LinesFit := by
  intro line h r r' t ht hr
  have hplace : (ofPlace f bareNames false).line = some line := h
  obtain ⟨-, -, rfl⟩ := line_ofPlace hplace
  exact nodes_of_openings_le (linesFit_ofLine f.references) hr ht

end Grammar

/-- **The limit on nesting only cuts short.** Of two limits, the lower one gives what the
higher one gives, cut short: every reference and command that it gives, at any depth, stands
at the same place with the higher limit, with the same text. And a limit that is no lower than
the number of regions that the text opens gives all there is. -/
theorem cutShort_parse (f : Features) (bareNames : Bool) {d D : Int} (h : d ≤ D) (t : Text) :
    CutShort Pruned (parse f bareNames d t) (parse f bareNames D t)
    ∧ (∀ n u, Stands n u (parse f bareNames d t) → n.isLit = false →
      ∃ m, Pruned n m ∧ m.raw = n.raw ∧ Stands m u (parse f bareNames D t))
    ∧ ((openings t : Int) ≤ d → parse f bareNames d t = parse f bareNames D t) := by
  have hroom : d.toNat ≤ D.toNat := Int.toNat_le_toNat h
  have hcut : CutShort Pruned (parse f bareNames d t) (parse f bareNames D t) :=
    Grammar.cutShort_nodes (Grammar.linesCut_ofValue f bareNames) hroom t
  refine ⟨hcut, fun n u hs hn => ?_, fun ht => ?_⟩
  · obtain ⟨m, hm, hms⟩ := hs.of_cutShort hn hcut
    exact ⟨m, hm, hm.raw_eq.symm, hms⟩
  · exact Grammar.nodes_of_openings_le (Grammar.linesFit_ofValue f bareNames) hroom (by omega)

/-- A line with a reference in a fallback, a reference, and a reference in a fallback. -/
def nested : Text := "$(c ${A:-${B}})${C}${D:-${E}}.".toList

/-- With room for one region, the second fallback cannot be read to its end, so a literal
stands for its reference and for what stands behind it. -/
theorem cutShort_parse_nested :
    (1 : Int) ≤ 2
    ∧ CutShort Pruned (parse {} true 1 nested) (parse {} true 2 nested)
    ∧ (parse {} true 1 nested).map raw
      = ["$(c ${A:-${B}})".toList, "${C}".toList, "${D:-${E}}.".toList]
    ∧ (parse {} true 2 nested).map raw
      = ["$(c ${A:-${B}})".toList, "${C}".toList, "${D:-${E}}".toList, ['.']] := by
  exact ⟨by decide, (cutShort_parse {} true (by decide) nested).1, by decide +kernel,
    by decide +kernel⟩

end Node
end EnvValues
