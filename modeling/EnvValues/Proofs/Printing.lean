import EnvValues.Proofs.Extent
import EnvValues.Proofs.Reading

/-!
# Reading what was written

The other direction of reading: a sequence is written down, something stands behind it,
and the reader that comes along finds the nodes again.

For each kind of node one equation says what is read where it stands (`construct_bare`,
`construct_braced`, `construct_fallback`, `construct_line`). `ReadsBack` strings such
equations together, and going along a text that reads back gives its pieces, at the top
as well as in a fallback.
-/

namespace EnvValues
namespace Name

/-- A name is split off where the text behind it does not go on with it. -/
theorem leading?_append {name t : Text} (hn : isName name = true)
    (ht : ∀ c ∈ t.head?, isPart c = false) : leading? (name ++ t) = some (name, t) := by
  cases name with
  | nil => exact nomatch hn
  | cons c u =>
      rw [isName, Bool.and_eq_true, List.all_eq_true] at hn
      have htake : t.takeWhile isPart = [] := by
        cases t with
        | nil => rfl
        | cons d t => rw [List.takeWhile_cons_of_neg (by simp [ht d rfl])]
      have hdrop : t.dropWhile isPart = t := by
        cases t with
        | nil => rfl
        | cons d t => rw [List.dropWhile_cons_of_neg (by simp [ht d rfl])]
      rw [List.cons_append, leading?, if_pos hn.1, List.takeWhile_append_of_pos hn.2,
        List.dropWhile_append_of_pos hn.2, htake, hdrop, List.append_nil]

/-- A name begins with no bracket. -/
theorem cons_of_isName {name : Text} (hn : isName name = true) :
    ∃ c u, name = c :: u ∧ c ≠ '{' ∧ c ≠ '(' := by
  cases name with
  | nil => exact nomatch hn
  | cons c u =>
      refine ⟨c, u, rfl, ?_, ?_⟩
      · rintro rfl
        simp [isName, isStart] at hn
      · rintro rfl
        simp [isName, isStart] at hn

end Name

namespace Node

/-! ## One node -/

namespace Grammar
variable {g : Grammar} {room : Nat} {name t : Text}

theorem construct_bare (hv : g.references = true) (hb : g.bareNames = true)
    (hn : Name.isName name = true) (ht : ∀ c ∈ t.head?, Name.isPart c = false) :
    g.construct room (name ++ t) = .node (ref name ('$' :: name) none none) name.length := by
  obtain ⟨c, u, rfl, hc, hc'⟩ := Name.cons_of_isName hn
  have hl := Name.leading?_append hn ht
  rw [List.cons_append] at hl ⊢
  unfold Grammar.construct
  split
  · next h => injection h with h; exact absurd h hc
  · next h => injection h with h; exact absurd h hc
  · next h => injection h with h; exact absurd h hc'
  · simp only [hv, hb, hl, Bool.and_self]

theorem construct_braced (hv : g.references = true) (hn : Name.isName name = true) :
    g.construct (room + 1) ('{' :: (name ++ '}' :: t))
      = .node (ref name ('$' :: '{' :: (name ++ ['}'])) none none) (name.length + 2) := by
  have hl : Name.leading? (name ++ '}' :: t) = some (name, '}' :: t) :=
    Name.leading?_append hn (by simp [Name.isPart])
  rw [Grammar.construct, hv, hl]
  simp only [Node.braced, take_length_add_one]

theorem construct_fallback {op : Operator} {ps : List Node} {k : Nat} (hv : g.references = true)
    (hn : Name.isName name = true) (hf : fallback? (g.construct room) t = some (ps, k)) :
    g.construct (room + 1) ('{' :: (name ++ (op.token ++ t)))
      = .node (ref name ('$' :: '{' :: (name ++ (op.token ++ t.take k))) (some op)
          (some (join ps))) (name.length + op.token.length + k + 1) := by
  have hl : Name.leading? (name ++ (op.token ++ t)) = some (name, op.token ++ t) := by
    refine Name.leading?_append hn ?_
    obtain ⟨form, colon⟩ := op
    cases form <;> cases colon <;> simp [Operator.token, Name.isPart]
  have hop : Operator.leading? (op.token ++ t) = some op := Operator.leading?_token_append op t
  rw [Grammar.construct, hv, hl]
  simp only [Node.braced]
  split
  · -- no operator is a closing brace
    next h =>
    obtain ⟨form, colon⟩ := op
    cases form <;> cases colon <;> simp [Operator.token] at h
  · have htake : (name ++ (op.token ++ t)).take (name.length + op.token.length + k)
        = name ++ (op.token ++ t.take k) := by
      rw [← List.append_assoc, ← List.length_append, List.take_length_add_append,
        List.append_assoc]
    simp only [hop, List.drop_left, hf, htake]

theorem construct_line {line : Nat → Text → List Node} {k : Nat} (h : g.line = some line)
    (hk : Region.command? t = some k) :
    g.construct (room + 1) ('(' :: t)
      = .node (command (line (room + 1) (t.take (k - 1))) ('$' :: '(' :: t.take k)) (k + 1) := by
  unfold Grammar.construct
  simp only [h, hk]

end Grammar

/-! ## Nodes in a row -/

/-- The pieces that a row of nodes is read as: the characters of its literals, and its
other nodes. -/
def pieces : List Node → List Node
  | [] => []
  | lit t :: ns => chars t ++ pieces ns
  | n :: ns => joined n :: pieces ns

/-- The text of the literals of a row, without what is inside its nodes. -/
def literalText : List Node → Text
  | [] => []
  | lit t :: ns => t ++ literalText ns
  | _ :: ns => literalText ns

theorem pieces_cons {n : Node} (h : n.isLit = false) (ns : List Node) :
    pieces (n :: ns) = joined n :: pieces ns := by
  cases n with
  | lit t => exact nomatch h
  | _ => rfl

theorem literalText_cons {n : Node} (h : n.isLit = false) (ns : List Node) :
    literalText (n :: ns) = literalText ns := by
  cases n with
  | lit t => exact nomatch h
  | _ => rfl

theorem join_pieces (ns : List Node) : join (pieces ns) = joinedAll ns := by
  induction ns with
  | nil => rw [pieces, joinedAll_nil, join_nil]
  | cons n ns ih =>
      cases hn : n.isLit with
      | true =>
          obtain ⟨t, rfl⟩ := exists_lit_of_isLit hn
          rw [pieces, join_chars_append, ih, joinedAll_cons, joined_lit]
      | false => rw [pieces_cons hn, join_cons, ih, joinedAll_cons]

/-- Where the nodes are written one after the other with `tail` behind them, each of
them is read where it stands. -/
inductive ReadsBack (read : Text → Construct) (tail : Text) : List Node → Prop where
  | nil : ReadsBack read tail []
  | lit {t : Text} {ns : List Node} :
      '$' ∉ t → ReadsBack read tail ns → ReadsBack read tail (lit t :: ns)
  | node {n : Node} {u : Text} {ns : List Node} :
      n.isLit = false → n.raw = '$' :: u →
      read (u ++ (rawAll ns ++ tail)) = .node (joined n) u.length →
      ReadsBack read tail ns → ReadsBack read tail (n :: ns)

section
variable {read : Text → Construct} {tail : Text} {ns : List Node}

theorem sequenceFrom_chars {t : Text} (h : '$' ∉ t) (done : List Node) (u : Text) :
    sequenceFrom read done 0 (t ++ u) = sequenceFrom read ((chars t).reverse ++ done) 0 u := by
  induction t generalizing done with
  | nil => rfl
  | cons c t ih =>
      simp only [List.mem_cons, not_or] at h
      rw [List.cons_append, sequenceFrom, if_neg (Ne.symm h.1), ih h.2]
      simp [chars]

/-- Going along nodes that read back collects their pieces. -/
theorem ReadsBack.sequenceFrom (h : ReadsBack read tail ns) (done : List Node) :
    sequenceFrom read done 0 (rawAll ns ++ tail)
      = Node.sequenceFrom read ((pieces ns).reverse ++ done) 0 tail := by
  induction h generalizing done with
  | nil => rfl
  | @lit t ns ht _ ih =>
      rw [rawAll_cons, raw, List.append_assoc, sequenceFrom_chars ht, ih]
      simp [pieces]
  | @node n u ns hn hraw hr _ ih =>
      rw [rawAll_cons, hraw, List.append_assoc, List.cons_append, Node.sequenceFrom, if_pos rfl, hr]
      simp only
      rw [sequenceFrom_skip, List.drop_left, ih, pieces_cons hn]
      simp

/-- A text of nodes that read back has their pieces. -/
theorem ReadsBack.sequence (h : ReadsBack read [] ns) :
    Node.sequence read (rawAll ns) = pieces ns := by
  have := h.sequenceFrom []
  rw [List.append_nil] at this
  rw [Node.sequence, this]
  simp [Node.sequenceFrom]

/-! One step of going along a fallback at a time. -/

theorem fallbackFrom_open (done : List Node) (opened n : Nat) (t : Text) :
    fallbackFrom read done opened n 0 ('{' :: t)
      = fallbackFrom read (lit ['{'] :: done) (opened + 1) (n + 1) 0 t := by
  rw [fallbackFrom.eq_def]
  simp

theorem fallbackFrom_close (done : List Node) (opened n : Nat) (t : Text) :
    fallbackFrom read done (opened + 1) n 0 ('}' :: t)
      = fallbackFrom read (lit ['}'] :: done) opened (n + 1) 0 t := by
  rw [fallbackFrom.eq_def]
  simp

theorem fallbackFrom_end (done : List Node) (n : Nat) (t : Text) :
    fallbackFrom read done 0 n 0 ('}' :: t) = some (done.reverse, n + 1) := by
  rw [fallbackFrom.eq_def]
  simp

theorem fallbackFrom_char {c : Char} (h : c ∉ ['$', '{', '}']) (done : List Node)
    (opened n : Nat) (t : Text) :
    fallbackFrom read done opened n 0 (c :: t)
      = fallbackFrom read (lit [c] :: done) opened (n + 1) 0 t := by
  simp only [List.mem_cons, List.not_mem_nil, or_false, not_or] at h
  rw [fallbackFrom.eq_def]
  simp only [h.1, h.2.1, h.2.2, if_false]

theorem fallbackFrom_skip (u : Text) (done : List Node) (opened n : Nat) (t : Text) :
    fallbackFrom read done opened n u.length (u ++ t)
      = fallbackFrom read done opened (n + u.length) 0 t := by
  induction u generalizing n with
  | nil => rfl
  | cons c u ih =>
      rw [List.cons_append, List.length_cons, fallbackFrom, ih]
      congr 1
      omega

theorem fallbackFrom_node {u : Text} {m : Node} (t : Text)
    (h : read (u ++ t) = .node m u.length) (done : List Node) (opened n : Nat) :
    fallbackFrom read done opened n 0 ('$' :: (u ++ t))
      = fallbackFrom read (m :: done) opened (n + 1 + u.length) 0 t := by
  rw [fallbackFrom.eq_def]
  simp only [h, if_true]
  exact fallbackFrom_skip u (m :: done) opened (n + 1) t

theorem fallbackFrom_chars {t : Text} (h : '$' ∉ t) {opened m : Nat}
    (hb : Region.balanceFrom opened t = some m) (done : List Node) (n : Nat) (u : Text) :
    fallbackFrom read done opened n 0 (t ++ u)
      = fallbackFrom read ((chars t).reverse ++ done) m (n + t.length) 0 u := by
  -- what one character more leaves behind
  have hstep : ∀ (c : Char) (t : Text) (done : List Node) (n m : Nat),
      fallbackFrom read ((chars t).reverse ++ lit [c] :: done) m (n + 1 + t.length) 0 u
        = fallbackFrom read ((chars (c :: t)).reverse ++ done) m (n + (c :: t).length) 0 u := by
    intro c t done n m
    have hn : n + 1 + t.length = n + (c :: t).length := by rw [List.length_cons]; omega
    rw [hn]
    simp [chars]
  fun_induction Region.balanceFrom opened t generalizing done n with
  | case1 opened =>
      injection hb with hb
      subst hb
      rfl
  | case2 opened t ih =>
      simp only [List.mem_cons, not_or] at h
      rw [List.cons_append, fallbackFrom_open, ih h.2 hb, hstep]
  | case3 t => simp at hb
  | case4 opened t ih =>
      simp only [List.mem_cons, not_or] at h
      rw [List.cons_append, fallbackFrom_close, ih h.2 hb, hstep]
  | case5 opened c t hopen hend hclose ih =>
      simp only [List.mem_cons, not_or] at h
      have hc : c ∉ ['$', '{', '}'] := by
        simp only [List.mem_cons, List.not_mem_nil, or_false, not_or]
        refine ⟨Ne.symm h.1, ?_, ?_⟩
        · exact hopen
        · intro hc
          cases opened with
          | zero => exact hend rfl hc
          | succ k => exact hclose k rfl hc
      rw [List.cons_append, fallbackFrom_char hc, ih h.2 hb, hstep]

/-- Going along nodes that read back collects their pieces in a fallback too, if their
literals leave the braces open that are open behind it. -/
theorem ReadsBack.fallbackFrom (h : ReadsBack read tail ns) {opened m : Nat}
    (hb : Region.balanceFrom opened (literalText ns) = some m) (done : List Node) (n : Nat) :
    fallbackFrom read done opened n 0 (rawAll ns ++ tail)
      = Node.fallbackFrom read ((pieces ns).reverse ++ done) m (n + (rawAll ns).length) 0 tail := by
  induction h generalizing opened done n with
  | nil =>
      injection hb with hb
      subst hb
      rfl
  | @lit t ns ht _ ih =>
      -- the braces that are open behind the literal are those the rest begins with
      rw [literalText, Region.balanceFrom_append] at hb
      obtain ⟨k, hk, hb⟩ := Option.bind_eq_some_iff.1 hb
      rw [rawAll_cons, raw, List.append_assoc, fallbackFrom_chars ht hk, ih hb, pieces,
        List.reverse_append, List.append_assoc, List.length_append, Nat.add_assoc]
  | @node m u ns hn hraw hr _ ih =>
      rw [literalText_cons hn] at hb
      rw [rawAll_cons, hraw, List.append_assoc, List.cons_append, fallbackFrom_node _ hr, ih hb,
        pieces_cons hn, List.reverse_cons, List.append_assoc]
      congr 1
      simp only [List.cons_append, List.length_cons, List.length_append]
      omega

/-- **A fallback of nodes that read back has their pieces**, and ends behind them. -/
theorem ReadsBack.fallback? {t : Text} (h : ReadsBack read ('}' :: t) ns)
    (hb : Region.Balanced (literalText ns)) :
    Node.fallback? read (rawAll ns ++ '}' :: t) = some (pieces ns, (rawAll ns).length + 1) := by
  rw [Node.fallback?, h.fallbackFrom hb, fallbackFrom_end]
  simp

end

end Node
end EnvValues
