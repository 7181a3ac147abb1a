import EnvValues.Node.Parser
import EnvValues.Proofs.Extent
import EnvValues.Proofs.Tree

/-!
# What reading can give

The readers of `Node.Parser` go along a text with counters and pieces kept last to
first. Here their results are told apart once, so that no later proof opens them.

* `Scans read ps t rest`: going along `t` gives the pieces `ps` and leads to `rest`.
  Both a whole text and a fallback are such a walk, and they differ in where it ends.
* `Grammar.Reads g room t n rest`: behind a dollar, `t` begins with the node `n`, and
  `rest` is what stands behind it. It has one case for each kind of node, and
  **every node a grammar constructs is one of them** (`reads_of_construct`).
* `Grammar.Gives g room ns`: `ns` is a sequence that a grammar can give. What holds of
  every such sequence holds at every depth of what is read (`everywhere_of_gives`).
-/

namespace EnvValues
namespace Node

/-! ## Going along a text -/

/-- Going along `t` gives the pieces and leads to `rest`. -/
inductive Scans (read : Text → Construct) : List Node → Text → Text → Prop where
  | nil {t : Text} : Scans read [] t t
  | char {c : Char} {t rest : Text} {ps : List Node} :
      c ≠ '$' → Scans read ps t rest → Scans read (lit [c] :: ps) (c :: t) rest
  | dollar {t rest : Text} {ps : List Node} :
      read t = .plain → Scans read ps t rest → Scans read (lit ['$'] :: ps) ('$' :: t) rest
  | node {t rest : Text} {n : Node} {k : Nat} {ps : List Node} :
      read t = .node n k → Scans read ps (t.drop k) rest → Scans read (n :: ps) ('$' :: t) rest

/-- What the end of a text gives, and a region in it that does not end. -/
inductive Tail (read : Text → Construct) : List Node → Text → Prop where
  | done : Tail read [] []
  | unterminated {t : Text} : read t = .unterminated → Tail read [lit ('$' :: t)] ('$' :: t)

section
variable {read : Text → Construct}

/-- Going along a text leads to an end of it. -/
theorem Scans.suffix {ps : List Node} {t rest : Text} (h : Scans read ps t rest) :
    rest <:+ t := by
  induction h with
  | nil => exact List.suffix_refl _
  | char _ _ ih => exact ih.trans (List.suffix_cons _ _)
  | dollar _ _ ih => exact ih.trans (List.suffix_cons _ _)
  | node _ _ ih => exact ih.trans ((List.drop_suffix _ _).trans (List.suffix_cons _ _))

theorem Scans.eq_nil {ps : List Node} {rest : Text} (h : Scans read ps [] rest) : ps = [] := by
  cases h
  rfl

theorem sequenceFrom_scans (done : List Node) (skip : Nat) (t : Text) :
    ∃ ps tail rest, Scans read ps (t.drop skip) rest ∧ Tail read tail rest
      ∧ sequenceFrom read done skip t = done.reverse ++ (ps ++ tail) := by
  fun_induction sequenceFrom read done skip t with
  | case1 done skip => exact ⟨[], [], [], by simpa using Scans.nil, .done, by simp⟩
  -- the characters of a node that was read already
  | case2 done skip c t ih => exact ih
  | case3 done t h ih =>
      obtain ⟨ps, tail, rest, hs, ht, he⟩ := ih
      exact ⟨lit ['$'] :: ps, tail, rest, .dollar h hs, ht, by simp [he]⟩
  | case4 done t h => exact ⟨[], _, _, .nil, .unterminated h, by simp⟩
  | case5 done t n k h ih =>
      obtain ⟨ps, tail, rest, hs, ht, he⟩ := ih
      exact ⟨n :: ps, tail, rest, .node h hs, ht, by simp [he]⟩
  | case6 done c t hc ih =>
      obtain ⟨ps, tail, rest, hs, ht, he⟩ := ih
      exact ⟨lit [c] :: ps, tail, rest, .char hc hs, ht, by simp [he]⟩

/-- **A text is gone along to its end**, or to a region that does not end. -/
theorem sequence_scans (read : Text → Construct) (t : Text) :
    ∃ ps tail rest, Scans read ps t rest ∧ Tail read tail rest
      ∧ sequence read t = ps ++ tail :=
  sequenceFrom_scans [] 0 t

/-! One step of going along a text at a time. -/

theorem sequenceFrom_singleton (n : Node) (skip : Nat) (t : Text) :
    sequenceFrom read [n] skip t = n :: sequence read (t.drop skip) := by
  rw [sequenceFrom_skip, sequence, ← List.nil_append [n], sequenceFrom_append]
  rfl

theorem sequence_char {c : Char} (h : c ≠ '$') (t : Text) :
    sequence read (c :: t) = lit [c] :: sequence read t := by
  rw [sequence, sequenceFrom, if_neg h, sequenceFrom_singleton, List.drop_zero]

theorem sequence_chars {t : Text} (h : '$' ∉ t) (u : Text) :
    sequence read (t ++ u) = chars t ++ sequence read u := by
  induction t with
  | nil => rfl
  | cons c t ih =>
      rw [List.mem_cons, not_or] at h
      rw [List.cons_append, sequence_char (Ne.symm h.1), ih h.2]
      rfl

theorem sequence_plain {t : Text} (h : read t = .plain) :
    sequence read ('$' :: t) = lit ['$'] :: sequence read t := by
  rw [sequence, sequenceFrom, if_pos rfl, h]
  exact sequenceFrom_singleton _ 0 t

theorem sequence_node {t : Text} {n : Node} {k : Nat} (h : read t = .node n k) :
    sequence read ('$' :: t) = n :: sequence read (t.drop k) := by
  rw [sequence, sequenceFrom, if_pos rfl, h]
  exact sequenceFrom_singleton n k t

theorem sequence_unterminated {t : Text} (h : read t = .unterminated) :
    sequence read ('$' :: t) = [lit ('$' :: t)] := by
  rw [sequence, sequenceFrom, if_pos rfl, h]
  rfl

/-- The pieces on the way come first, and what the way leads to is read as it is alone. -/
theorem Scans.sequence {ps : List Node} {t rest : Text} (h : Scans read ps t rest) :
    Node.sequence read t = ps ++ Node.sequence read rest := by
  induction h with
  | nil => rfl
  | char hc _ ih => rw [sequence_char hc, ih, List.cons_append]
  | dollar hr _ ih => rw [sequence_plain hr, ih, List.cons_append]
  | node hr _ ih => rw [sequence_node hr, ih, List.cons_append]

theorem fallbackFrom_scans {done qs : List Node} {opened n k skip : Nat} {t : Text}
    (h : fallbackFrom read done opened n skip t = some (qs, k)) :
    ∃ ps rest, Scans read ps (t.drop skip) ('}' :: rest) ∧ qs = done.reverse ++ ps
      ∧ k + rest.length = n + t.length := by
  fun_induction fallbackFrom read done opened n skip t with
  | case1 => exact nomatch h
  | case2 done opened n skip c t ih =>
      obtain ⟨ps, rest, hs, hq, hk⟩ := ih h
      exact ⟨ps, rest, hs, hq, by simp only [List.length_cons]; omega⟩
  | case3 done opened n t hr ih =>
      obtain ⟨ps, rest, hs, hq, hk⟩ := ih h
      exact ⟨lit ['$'] :: ps, rest, .dollar hr hs, by simp [hq],
        by simp only [List.length_cons]; omega⟩
  | case4 => exact nomatch h
  | case5 done opened n t m taken hr ih =>
      obtain ⟨ps, rest, hs, hq, hk⟩ := ih h
      exact ⟨m :: ps, rest, .node hr hs, by simp [hq], by simp only [List.length_cons]; omega⟩
  | case6 done opened n t _ ih =>
      obtain ⟨ps, rest, hs, hq, hk⟩ := ih h
      exact ⟨lit ['{'] :: ps, rest, .char (by decide) hs, by simp [hq],
        by simp only [List.length_cons]; omega⟩
  | case7 done n t _ _ =>
      injection h with h
      injection h with hq hk
      exact ⟨[], t, .nil, by simp [hq], by simp only [List.length_cons]; omega⟩
  | case8 done n t m _ _ ih =>
      obtain ⟨ps, rest, hs, hq, hk⟩ := ih h
      exact ⟨lit ['}'] :: ps, rest, .char (by decide) hs, by simp [hq],
        by simp only [List.length_cons]; omega⟩
  | case9 done opened n c t hc _ _ ih =>
      obtain ⟨ps, rest, hs, hq, hk⟩ := ih h
      exact ⟨lit [c] :: ps, rest, .char hc hs, by simp [hq],
        by simp only [List.length_cons]; omega⟩

/-- **A fallback is gone along to a closing brace**, which is counted with it. -/
theorem fallback?_scans {ps : List Node} {k : Nat} {t : Text}
    (h : fallback? read t = some (ps, k)) :
    ∃ rest, Scans read ps t ('}' :: rest) ∧ k + rest.length = t.length := by
  obtain ⟨qs, rest, hs, hq, hk⟩ := fallbackFrom_scans h
  simp only [List.reverse_nil, List.nil_append] at hq
  subst hq
  exact ⟨rest, hs, by omega⟩

/-! A braced region, by what stands behind the name. -/

theorem braced_kept {name after u : Text} (h : after.head? ≠ some '}')
    (hop : Operator.leading? after = none) : braced read name after u = kept u := by
  unfold braced
  split
  · exact absurd rfl h
  · rw [hop]

theorem braced_operator {name after u : Text} {op : Operator}
    (hop : Operator.leading? after = some op) :
    braced read name after u = match fallback? read (after.drop op.token.length) with
      | none => .unterminated
      | some (pieces, k) =>
        .node (ref name ('$' :: '{' :: u.take (name.length + op.token.length + k)) (some op)
          (some (join pieces))) (name.length + op.token.length + k + 1) := by
  unfold braced
  split
  · exact nomatch hop
  · split
    · next hnone => exact nomatch hop.symm.trans hnone
    · next op' hsome =>
      obtain rfl : op = op' := Option.some.inj (hop.symm.trans hsome)
      rfl

end

/-! ## The nodes behind a dollar -/

namespace Grammar

/-- What is read behind a dollar depends on the first character there. -/
@[elab_as_elim]
theorem behind_cases {P : Text → Prop} (t : Text) (nil : P []) (brace : ∀ t, P ('{' :: t))
    (paren : ∀ t, P ('(' :: t)) (other : ∀ c t, c ≠ '{' → c ≠ '(' → P (c :: t)) : P t := by
  cases t with
  | nil => exact nil
  | cons c t =>
    by_cases hbrace : c = '{'
    · exact hbrace ▸ brace t
    by_cases hparen : c = '('
    · exact hparen ▸ paren t
    · exact other c t hbrace hparen

/-! What is constructed, by the first character. -/

section
variable {g : Grammar} {room : Nat} {t : Text}

theorem construct_nil : g.construct room [] = .plain := by
  unfold construct
  simp [Name.leading?]

theorem construct_open_zero : g.construct 0 ('{' :: t) = .unterminated := by rw [construct]

theorem construct_reference {name after : Text} (hv : g.references = true)
    (hn : Name.leading? t = some (name, after)) :
    g.construct (room + 1) ('{' :: t) = Node.braced (fun u => g.construct room u) name after t := by
  rw [construct, hv, hn]

theorem construct_kept (h : g.references = true → Name.leading? t = none) :
    g.construct (room + 1) ('{' :: t) = Node.kept t := by
  rw [construct]
  cases hv : g.references with
  | false => rfl
  | true => rw [h hv]

/-- What is between braces is a reference, or it is kept as it is written. -/
theorem kept_or_reference (g : Grammar) (t : Text) :
    (g.references = true → Name.leading? t = none)
      ∨ ∃ name after, g.references = true ∧ Name.leading? t = some (name, after) := by
  cases hv : g.references with
  | false => exact Or.inl fun h => nomatch h
  | true =>
      cases hn : Name.leading? t with
      | none => exact Or.inl fun _ => rfl
      | some r => exact Or.inr ⟨r.1, r.2, rfl, rfl⟩

theorem construct_paren_of_none (h : g.line = none) : g.construct room ('(' :: t) = .plain := by
  unfold construct
  simp [h]

theorem construct_paren_zero {line : Nat → Text → List Node} (h : g.line = some line) :
    g.construct 0 ('(' :: t) = .unterminated := by
  unfold construct
  simp [h]

theorem construct_paren_open {line : Nat → Text → List Node} (h : g.line = some line)
    (hk : Region.command? t = none) : g.construct (room + 1) ('(' :: t) = .unterminated := by
  unfold construct
  simp [h, hk]

/-- Behind anything but a bracket, only a name can be read, whatever the room. -/
theorem construct_name {c : Char} (h : c ≠ '{') (h' : c ≠ '(') :
    g.construct room (c :: t) = match g.references && g.bareNames, Name.leading? (c :: t) with
      | true, some (name, _) => .node (ref name ('$' :: name) none none) name.length
      | _, _ => .plain := by
  unfold construct
  split
  · next heq => exact absurd (List.cons.inj heq).1 h
  · next heq => exact absurd (List.cons.inj heq).1 h
  · next heq => exact absurd (List.cons.inj heq).1 h'
  · rfl

end

/-- Behind a dollar, with so much room, `t` begins with the node `n`, and `rest` is
what stands behind it. -/
inductive Reads (g : Grammar) : (room : Nat) → (t : Text) → (n : Node) → (rest : Text) → Prop where
  | kept {room : Nat} {inner rest : Text} :
      Reads g (room + 1) ('{' :: (inner ++ '}' :: rest))
        (lit ('$' :: '{' :: (inner ++ ['}']))) rest
  | braced {room : Nat} {name rest : Text} :
      g.references = true → Name.isName name = true →
      Reads g (room + 1) ('{' :: (name ++ '}' :: rest))
        (ref name ('$' :: '{' :: (name ++ ['}'])) none none) rest
  | fallback {room : Nat} {name t raw rest : Text} {op : Operator} {ps : List Node} :
      g.references = true → Name.isName name = true →
      Scans (g.construct room) ps t ('}' :: rest) →
      raw ++ rest = '$' :: '{' :: (name ++ (op.token ++ t)) →
      Reads g (room + 1) ('{' :: (name ++ (op.token ++ t)))
        (ref name raw (some op) (some (join ps))) rest
  | line {room : Nat} {inner rest : Text} {line : Nat → Text → List Node} :
      g.line = some line →
      Reads g (room + 1) ('(' :: (inner ++ ')' :: rest))
        (command (line (room + 1) inner) ('$' :: '(' :: (inner ++ [')']))) rest
  | bare {room : Nat} {name rest : Text} :
      g.references = true → g.bareNames = true → Name.isName name = true →
      Reads g room (name ++ rest) (ref name ('$' :: name) none none) rest

variable {g : Grammar} {room : Nat} {t rest : Text} {n : Node}

/-- **What is read is a node and the text behind it**, and the node keeps its text. -/
theorem Reads.raw_append (h : Reads g room t n rest) : '$' :: t = n.raw ++ rest := by
  cases h with
  | kept => simp [raw]
  | braced => simp [raw]
  | fallback _ _ _ hr => simpa [raw] using hr.symm
  | line => simp [raw]
  | bare => simp [raw]

/-- A text up to and with the character behind its first part. -/
theorem take_length_add_one (u : Text) (c : Char) (v : Text) :
    (u ++ c :: v).take (u.length + 1) = u ++ [c] := by
  rw [List.append_cons, List.take_left' (by simp)]

theorem reads_of_kept {k : Nat} (h : Node.kept t = .node n k) :
    ∃ rest, Reads g (room + 1) ('{' :: t) n rest ∧ k + rest.length = t.length + 1 := by
  unfold Node.kept at h
  split at h
  · exact nomatch h
  · next j hj =>
    obtain ⟨inner, rest, rfl, rfl⟩ := Region.braced?_eq_some hj
    injection h with hn hk
    subst hn hk
    refine ⟨rest, ?_, by simp only [List.length_append, List.length_cons]; omega⟩
    rw [take_length_add_one]
    exact .kept

theorem reads_of_braced {name after : Text} {k : Nat} (hv : g.references = true)
    (hn : Name.leading? t = some (name, after))
    (h : Node.braced (fun u => g.construct room u) name after t = .node n k) :
    ∃ rest, Reads g (room + 1) ('{' :: t) n rest ∧ k + rest.length = t.length + 1 := by
  have ht : t = name ++ after := Name.eq_append_of_leading? hn
  have hname : Name.isName name = true := Name.isName_of_leading? hn
  unfold Node.braced at h
  split at h
  · -- a plain reference
    next rest =>
    injection h with hn hk
    subst hn hk ht
    refine ⟨rest, ?_, by simp only [List.length_append, List.length_cons]; omega⟩
    rw [take_length_add_one]
    exact .braced hv hname
  · split at h
    · exact reads_of_kept h
    · next op hop =>
      split at h
      · exact nomatch h
      · -- a fallback, up to the brace that ends it
        next ps j hf =>
        obtain ⟨rest, hs, hj⟩ := fallback?_scans hf
        have hafter := Operator.eq_append_of_leading? hop
        generalize after.drop op.token.length = u at hafter hs hj
        subst hafter ht
        injection h with hn hk
        subst hn hk
        refine ⟨rest, .fallback hv hname hs ?_, by simp only [List.length_append]; omega⟩
        -- the text kept with the node ends where the fallback's brace stands
        obtain ⟨v, hv⟩ := hs.suffix
        have hlen : (v ++ ['}']).length = j := by
          have := congrArg List.length hv
          simp only [List.length_append, List.length_cons, List.length_nil] at this ⊢
          omega
        have hsplit : name ++ (op.token ++ u) = (name ++ op.token ++ (v ++ ['}'])) ++ rest := by
          simp [← hv]
        rw [hsplit, List.take_left' (by simp only [List.length_append] at hlen ⊢; omega)]
        rfl

/-- **Every node that is constructed is one of these**, with the text behind it. -/
theorem reads_of_construct {k : Nat} (h : g.construct room t = .node n k) :
    ∃ rest, Reads g room t n rest ∧ k + rest.length = t.length := by
  unfold Grammar.construct at h
  split at h
  · exact nomatch h
  · -- behind an opening brace
    split at h
    · next hv hn => exact reads_of_braced hv hn h
    · exact reads_of_kept h
  · -- behind an opening parenthesis
    split at h
    · exact nomatch h
    · exact nomatch h
    · next line r hl =>
      split at h
      · exact nomatch h
      · next j hj =>
        obtain ⟨inner, rest, rfl, rfl⟩ := Region.command?_eq_some hj
        injection h with hn hk
        subst hn hk
        refine ⟨rest, ?_, by simp only [List.length_append, List.length_cons]; omega⟩
        rw [take_length_add_one, Nat.add_sub_cancel, List.take_left' rfl]
        exact .line hl
  · -- behind anything else
    split at h
    · next name after hv hn =>
      injection h with hn' hk
      subst hn' hk
      rw [Bool.and_eq_true] at hv
      have ht := Name.eq_append_of_leading? hn
      refine ⟨after, ?_, by simp [ht]⟩
      rw [ht]
      exact .bare hv.1 hv.2 (Name.isName_of_leading? hn)
    · exact nomatch h

/-- What stands behind a node that is constructed is what was not taken. -/
theorem reads_drop_of_construct {k : Nat} (h : g.construct room t = .node n k) :
    Reads g room t n (t.drop k) := by
  obtain ⟨rest, hr, hk⟩ := reads_of_construct h
  -- both are ends of the same text, and of the same length
  have hsuf : rest <:+ '$' :: t := ⟨n.raw, hr.raw_append.symm⟩
  have hrest : rest = t.drop k := by
    rw [List.suffix_iff_eq_drop.1 hsuf, List.length_cons,
      show t.length + 1 - rest.length = k + 1 by omega, List.drop_succ_cons]
  exact hrest ▸ hr

end Grammar

/-- The pieces of a text are the text, up to where going along it led. -/
theorem Scans.eq_append {g : Grammar} {room : Nat} {ps : List Node} {t rest : Text}
    (h : Scans (g.construct room) ps t rest) : t = rawAll ps ++ rest := by
  induction h with
  | nil => simp
  | char _ _ ih => rw [rawAll_cons, raw, List.append_assoc, ← ih]; rfl
  | dollar _ _ ih => rw [rawAll_cons, raw, List.append_assoc, ← ih]; rfl
  | node hr _ ih =>
      rw [rawAll_cons, List.append_assoc, ← ih]
      exact (Grammar.reads_drop_of_construct hr).raw_append

/-- The text kept with a reference is how its parts are written, the fallback too. -/
theorem Scans.raw_eq {g : Grammar} {room : Nat} {name t raw rest : Text} {op : Operator}
    {ps : List Node} (h : Scans (g.construct room) ps t ('}' :: rest))
    (hraw : raw ++ rest = '$' :: '{' :: (name ++ (op.token ++ t))) :
    raw = '$' :: '{' :: (name ++ (op.token ++ (rawAll (join ps) ++ ['}']))) := by
  have hsplit : raw ++ rest
      = ('$' :: '{' :: (name ++ (op.token ++ (rawAll (join ps) ++ ['}'])))) ++ rest := by
    rw [hraw, h.eq_append]
    simp
  exact List.append_cancel_right hsplit

namespace Grammar
variable {g : Grammar} {room : Nat} {t rest : Text} {n : Node}

/-- **Reading a text loses nothing of it.** -/
theorem rawAll_nodes (g : Grammar) (room : Nat) (t : Text) : rawAll (g.nodes room t) = t := by
  obtain ⟨ps, tail, rest, hs, ht, he⟩ := sequence_scans (g.construct room) t
  have htail : rawAll tail = rest := by
    cases ht with
    | done => rfl
    | unterminated _ => simp [raw]
  rw [nodes, rawAll_join, he, rawAll_append, htail, ← hs.eq_append]

/-! ## The sequences that are read -/

/-- A sequence that a grammar can give, with so much room. -/
structure Gives (g : Grammar) (room : Nat) (ns : List Node) : Prop where
  separated : Separated ns
  reads : ∀ n ∈ ns, n.isLit = false → ∃ t rest, Reads g room t n rest

end Grammar

/-- The pieces on the way along a text are literals and what was read. -/
theorem Scans.reads {g : Grammar} {room : Nat} {ps : List Node} {t rest : Text}
    (h : Scans (g.construct room) ps t rest) :
    ∀ n ∈ ps, n.isLit = false → ∃ u v, g.Reads room u n v := by
  induction h with
  | nil => intro n hn; simp at hn
  | char _ _ ih =>
      intro n hn hl
      rcases List.mem_cons.1 hn with rfl | hn
      · simp [isLit] at hl
      · exact ih n hn hl
  | dollar _ _ ih =>
      intro n hn hl
      rcases List.mem_cons.1 hn with rfl | hn
      · simp [isLit] at hl
      · exact ih n hn hl
  | node hr _ ih =>
      intro n hn hl
      rcases List.mem_cons.1 hn with rfl | hn
      · exact ⟨_, _, Grammar.reads_drop_of_construct hr⟩
      · exact ih n hn hl

namespace Grammar
variable {g : Grammar} {room : Nat}

theorem gives_join {ps : List Node}
    (h : ∀ n ∈ ps, n.isLit = false → ∃ t rest, Reads g room t n rest) : Gives g room (join ps) :=
  ⟨separated_join ps, fun n hn hl => h n (mem_of_mem_join hn hl) hl⟩

/-- A whole text gives a sequence. -/
theorem gives_nodes (g : Grammar) (room : Nat) (t : Text) : Gives g room (g.nodes room t) := by
  obtain ⟨ps, tail, rest, hs, ht, he⟩ := sequence_scans (g.construct room) t
  rw [nodes, he]
  refine gives_join fun n hn hl => ?_
  rcases List.mem_append.1 hn with hn | hn
  · exact hs.reads n hn hl
  · cases ht with
    | done => simp at hn
    | unterminated _ =>
        rw [List.mem_singleton] at hn
        subst hn
        simp [isLit] at hl

/-- **From every sequence that is given to every depth.** Around a sequence that is read
with less room than there is stand as many references as room is missing. -/
theorem everywhere_of_gives {p : Placed} {inLine : Bool} {size : Nat}
    (hline : ∀ line, g.line = some line → ∀ room, room ≤ size → ∀ t,
      Everywhere p (size - room) true (line room t))
    (hp : ∀ room, room ≤ size → ∀ ns, Gives g room ns → p (size - room) inLine ns) :
    ∀ room, room ≤ size → ∀ ns, Gives g room ns → Everywhere p (size - room) inLine ns := by
  -- on the room: a fallback was read with less of it
  intro room
  induction room using Nat.strongRecOn with
  | ind room ih =>
    intro hle ns hg
    refine ⟨hp room hle ns hg, fun n hn => ?_⟩
    cases hl : n.isLit with
    | true => exact inside_of_isLit hl
    | false =>
      obtain ⟨t, rest, hr⟩ := hg.reads n hn hl
      cases hr with
      | kept => simp [isLit] at hl
      | braced => simp
      | bare => simp
      | @fallback room _ _ _ _ _ ps _ _ hs _ =>
          rw [inside_ref_some, show size - (room + 1) + 1 = size - room by omega]
          exact ih room (Nat.lt_succ_self _) (by omega) _ (gives_join hs.reads)
      | line h =>
          rw [inside_command]
          exact hline _ h _ hle _

/-- The grammar of a place: in a command line, braced references alone. -/
def ofPlace (f : Features) (bareNames : Bool) : (inLine : Bool) → Grammar
  | false => ofValue f.references f.commands bareNames
  | true => ofLine f.references

/-- The line of a command is read with the grammar of command lines. -/
theorem line_ofPlace {f : Features} {bareNames inLine : Bool} {line : Nat → Text → List Node}
    (h : (ofPlace f bareNames inLine).line = some line) :
    inLine = false ∧ f.commands = true ∧ line = (ofLine f.references).nodes := by
  cases inLine with
  | true => exact nomatch h
  | false =>
      change (if f.commands then some (ofLine f.references).nodes else none) = some line at h
      split at h
      · next hc => exact ⟨rfl, hc, (Option.some.inj h).symm⟩
      · exact nomatch h

end Grammar

/-- **What holds of every sequence that a grammar can give holds at every depth of what
is read.** -/
theorem everywhere_parse {p : Placed} {f : Features} {bareNames : Bool} {depth : Int}
    (hp : ∀ room, room ≤ depth.toNat → ∀ inLine ns,
      (Grammar.ofPlace f bareNames inLine).Gives room ns → p (depth.toNat - room) inLine ns)
    (t : Text) : Everywhere p 0 false (parse f bareNames depth t) := by
  -- lines hold no lines, so they come first
  have hline : ∀ room, room ≤ depth.toNat → ∀ ns, (Grammar.ofLine f.references).Gives room ns →
      Everywhere p (depth.toNat - room) true ns :=
    Grammar.everywhere_of_gives (fun _ h => nomatch h) fun room hr ns hg => hp room hr true ns hg
  have hvalue : ∀ room, room ≤ depth.toNat → ∀ ns,
      (Grammar.ofPlace f bareNames false).Gives room ns →
      Everywhere p (depth.toNat - room) false ns := by
    refine Grammar.everywhere_of_gives (fun line h room hr u => ?_)
      fun room hr ns hg => hp room hr false ns hg
    obtain ⟨-, -, rfl⟩ := Grammar.line_ofPlace h
    exact hline room hr _ (Grammar.gives_nodes _ _ _)
  have := hvalue _ (Nat.le_refl _) _ (Grammar.gives_nodes _ _ t)
  rwa [Nat.sub_self] at this

end Node
end EnvValues
