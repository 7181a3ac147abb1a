import EnvValues.Node.Region

/-!
# Texts that close what they open

A region is found by its closing character, so a text can stand in it only if the
character is not found too early. Two classes of texts are safe.

A text with **balanced braces** closes every brace that it opens, and no other; a text that
leaves some of its braces open (`ClosesOwn`) cannot end a region too early either. A
command **line** is a row of items: a harmless character, a backslash and the character
it protects, a quoted piece, or another line between parentheses. Whatever stands
behind a line, the search for the parenthesis that ends it steps over the line
(`commandFrom_line`).

The other direction goes along the search. `Finishes` says what is left of a line from a
place inside it, where so many parentheses and perhaps a quote are open, and a search that
comes to an end has gone over just that (`finishesFrom_of_commandFrom`). So **a command ends
at the first closing parenthesis with a line before it** (`command?_eq_some_iff`), and does
not end where no closing parenthesis has one (`command?_eq_none_iff`).
-/

namespace EnvValues
namespace Region

/-! ## Braces -/

/-- How many braces are open after a text, if none closes more than was open. -/
def balanceFrom : (opened : Nat) → Text → Option Nat
  | opened, [] => some opened
  | opened, '{' :: t => balanceFrom (opened + 1) t
  | 0, '}' :: _ => none
  | opened + 1, '}' :: t => balanceFrom opened t
  | opened, _ :: t => balanceFrom opened t

/-- Does the text close the braces it opens, and no others? -/
def Balanced (t : Text) : Prop := balanceFrom 0 t = some 0

instance (t : Text) : Decidable (Balanced t) := inferInstanceAs (Decidable (_ = _))

theorem balanceFrom_append (opened : Nat) (t u : Text) :
    balanceFrom opened (t ++ u) = (balanceFrom opened t).bind fun m => balanceFrom m u := by
  fun_induction balanceFrom opened t with
  | case1 => rfl
  | case2 opened t ih => rw [List.cons_append, balanceFrom, ih]
  | case3 => rfl
  | case4 opened t ih => rw [List.cons_append, balanceFrom, ih]
  | case5 opened c t hopen hend hclose ih =>
      rw [List.cons_append, balanceFrom.eq_5 opened c _ hopen hend hclose, ih]

/-! Braces may stay open behind a text, as long as it closes only its own. -/

/-- Does the text close only braces that it opened? It need not close them all. -/
def ClosesOwn (t : Text) : Prop := (balanceFrom 0 t).isSome = true

instance (t : Text) : Decidable (ClosesOwn t) := inferInstanceAs (Decidable (_ = _))

theorem closesOwn_iff {t : Text} : ClosesOwn t ↔ ∃ d, balanceFrom 0 t = some d :=
  Option.isSome_iff_exists

/-- A character that is no brace is not counted. -/
theorem balanceFrom_char {c : Char} (hopen : c ≠ '{') (hclose : c ≠ '}') (opened : Nat)
    (t : Text) : balanceFrom opened (c :: t) = balanceFrom opened t :=
  balanceFrom.eq_5 opened c t hopen (fun _ hc => hclose hc) fun _ _ hc => hclose hc

theorem bracedFrom_char {c : Char} (hopen : c ≠ '{') (hclose : c ≠ '}') (opened n : Nat)
    (t : Text) : bracedFrom opened n (c :: t) = bracedFrom opened (n + 1) t :=
  bracedFrom.eq_5 opened n c t hopen (fun _ hc => hclose hc) fun _ _ hc => hclose hc

/-- What closes no brace, whether one is open or not, is not a closing brace. -/
theorem ne_close {c : Char} {opened : Nat} (hend : opened = 0 → c = '}' → False)
    (hclose : ∀ m : Nat, opened = m.succ → c = '}' → False) : c ≠ '}' := by
  cases opened with
  | zero => exact hend rfl
  | succ m => exact hclose m rfl

/-- Braces that are open before a text stay open behind it. -/
theorem balanceFrom_add {opened d : Nat} {t : Text} (h : balanceFrom opened t = some d)
    (m : Nat) : balanceFrom (opened + m) t = some (d + m) := by
  fun_induction balanceFrom opened t with
  | case1 opened =>
      obtain rfl := Option.some.inj h
      rfl
  | case2 opened t ih => rw [balanceFrom, Nat.add_right_comm, ih h]
  | case3 => cases h
  | case4 opened t ih => rw [Nat.succ_add, balanceFrom, ih h]
  | case5 opened c t hopen hend hclose ih =>
      rw [balanceFrom_char hopen (ne_close hend hclose), ih h]

theorem ClosesOwn.exists_balanceFrom {t : Text} (h : ClosesOwn t) (opened : Nat) :
    ∃ d, balanceFrom opened t = some (opened + d) := by
  obtain ⟨d, hd⟩ := closesOwn_iff.1 h
  have hadd := balanceFrom_add hd opened
  rw [Nat.zero_add, Nat.add_comm] at hadd
  exact ⟨d, hadd⟩

/-- The end of a braced region is not in a text that closes no more than was open before it. -/
theorem bracedFrom_append_of_balanceFrom {opened d : Nat} {u : Text}
    (h : balanceFrom opened u = some d) (n : Nat) (t : Text) :
    bracedFrom opened n (u ++ t) = bracedFrom d (n + u.length) t := by
  fun_induction balanceFrom opened u generalizing n with
  | case1 opened =>
      obtain rfl := Option.some.inj h
      rfl
  | case2 opened u ih =>
      rw [List.cons_append, bracedFrom, ih h, List.length_cons]
      congr 1
      omega
  | case3 => cases h
  | case4 opened u ih =>
      rw [List.cons_append, bracedFrom, ih h, List.length_cons]
      congr 1
      omega
  | case5 opened c u hopen hend hclose ih =>
      rw [List.cons_append, bracedFrom_char hopen (ne_close hend hclose), ih h, List.length_cons]
      congr 1
      omega

/-- What stands before the end of a braced region is balanced. -/
theorem exists_balanceFrom_of_bracedFrom {opened n k : Nat} {t : Text}
    (h : bracedFrom opened n t = some k) :
    ∃ inner rest, t = inner ++ '}' :: rest ∧ k = n + inner.length + 1
      ∧ balanceFrom opened inner = some 0 := by
  fun_induction bracedFrom opened n t with
  | case1 => cases h
  | case2 opened n t ih =>
      obtain ⟨inner, rest, rfl, rfl, hb⟩ := ih h
      exact ⟨'{' :: inner, rest, rfl, by simp only [List.length_cons]; omega, hb⟩
  | case3 n t => exact ⟨[], t, rfl, by simpa using h.symm, rfl⟩
  | case4 n t opened ih =>
      obtain ⟨inner, rest, rfl, rfl, hb⟩ := ih h
      exact ⟨'}' :: inner, rest, rfl, by simp only [List.length_cons]; omega, hb⟩
  | case5 opened n c t hopen hend hclose ih =>
      obtain ⟨inner, rest, rfl, rfl, hb⟩ := ih h
      refine ⟨c :: inner, rest, rfl, by simp only [List.length_cons]; omega, ?_⟩
      rw [balanceFrom_char hopen (ne_close hend hclose), hb]

/-- **A braced region is some text and its closing brace.** -/
theorem braced?_eq_some {t : Text} {k : Nat} (h : braced? t = some k) :
    ∃ inner rest, t = inner ++ '}' :: rest ∧ k = inner.length + 1 := by
  obtain ⟨inner, rest, ht, hk, -⟩ := exists_balanceFrom_of_bracedFrom h
  exact ⟨inner, rest, ht, by omega⟩

/-- The search for the end of a region counts from wherever it is begun. -/
theorem bracedFrom_add (opened n m : Nat) (t : Text) :
    bracedFrom opened (n + m) t = (bracedFrom opened n t).map (· + m) := by
  fun_induction bracedFrom opened n t with
  | case1 => rfl
  | case2 opened n t ih => rw [bracedFrom, Nat.add_right_comm, ih]
  | case3 n t => rw [bracedFrom, Nat.add_right_comm]; rfl
  | case4 n t opened ih => rw [bracedFrom, Nat.add_right_comm, ih]
  | case5 opened n c t hopen hend hclose ih =>
      rw [bracedFrom_char hopen (ne_close hend hclose), Nat.add_right_comm, ih]

/-- A braced region that closes only braces that it opened. -/
def Enclosed (raw : Text) : Prop :=
  ∃ inner, raw = '$' :: '{' :: (inner ++ ['}']) ∧ ClosesOwn inner

theorem Enclosed.closesOwn {raw : Text} (h : Enclosed raw) : ClosesOwn raw := by
  obtain ⟨inner, rfl, hinner⟩ := h
  obtain ⟨d, hd⟩ := closesOwn_iff.1 hinner
  have hopened : balanceFrom 1 inner = some (d + 1) := balanceFrom_add hd 1
  refine closesOwn_iff.2 ⟨d, ?_⟩
  rw [balanceFrom_char (by decide) (by decide), balanceFrom, balanceFrom_append, hopened]
  rfl

/-- A text without braces. -/
theorem balanceFrom_of_not_mem {t : Text} (hopen : '{' ∉ t) (hclose : '}' ∉ t) :
    balanceFrom 0 t = some 0 := by
  induction t with
  | nil => rfl
  | cons c t ih =>
      rw [List.mem_cons, not_or] at hopen hclose
      rw [balanceFrom_char (Ne.symm hopen.1) (Ne.symm hclose.1), ih hopen.2 hclose.2]

/-! ## Command lines -/

/-- The characters of a command line that mean more than themselves. -/
def lineMarks : Text := ['\\', '\'', '"', '(', ')']

/-- The lines of commands: quotes are closed, parentheses outside of them matched, and
no backslash stands at the end. -/
inductive Line : Text → Prop where
  | nil : Line []
  | char {c : Char} {t : Text} : c ∉ lineMarks → Line t → Line (c :: t)
  | escape {c : Char} {t : Text} : Line t → Line ('\\' :: c :: t)
  | single {u t : Text} : '\'' ∉ u → Line t → Line ('\'' :: (u ++ '\'' :: t))
  | double {u t : Text} : Quote.double.isBody u = true → Line t → Line ('"' :: (u ++ '"' :: t))
  | nested {u t : Text} : Line u → Line t → Line ('(' :: (u ++ ')' :: t))

/-- A text without marks is a line. -/
theorem Line.of_not_mem {t : Text} (h : ∀ c ∈ t, c ∉ lineMarks) : Line t := by
  induction t with
  | nil => exact .nil
  | cons c t ih =>
      obtain ⟨hc, ht⟩ := List.forall_mem_cons.1 h
      exact .char hc (ih ht)

/-- Two lines are a line. -/
theorem Line.append {t u : Text} (h : Line t) (hu : Line u) : Line (t ++ u) := by
  induction h with
  | nil => exact hu
  | char hc _ ih => exact .char hc ih
  | escape _ ih => exact .escape ih
  | @single q t hq _ ih =>
      rw [List.cons_append, List.append_assoc, List.cons_append]
      exact .single hq ih
  | @double q t hq _ ih =>
      rw [List.cons_append, List.append_assoc, List.cons_append]
      exact .double hq ih
  | @nested v t hv _ _ ih =>
      rw [List.cons_append, List.append_assoc, List.cons_append]
      exact .nested hv ih

/-! One character of a search at a time. -/

section
variable {quote : Option Quote} {opened n : Nat} {t : Text}

/-- Outside single quotes, a backslash takes the character behind it along. -/
theorem commandFrom_escape {c : Char} (h : quote ≠ some .single) :
    commandFrom quote opened n ('\\' :: c :: t) = commandFrom quote opened (n + 2) t := by
  rw [commandFrom.eq_def]
  simp [h]

/-- In quotes, every character but the quote and a backslash means itself. -/
theorem commandFrom_body (q : Quote) {c : Char} (hq : c ≠ q.char)
    (h : c ≠ '\\' ∨ q = .single) :
    commandFrom (some q) opened n (c :: t) = commandFrom (some q) opened (n + 1) t := by
  have hif : ¬ (c = '\\' ∧ some q ≠ some .single) := by
    rintro ⟨rfl, hs⟩
    rcases h with h | h
    · exact h rfl
    · exact hs (h ▸ rfl)
  rw [commandFrom.eq_def]
  simp only [if_neg hif, if_neg hq]

/-- A quote closes what it opened. -/
theorem commandFrom_close (q : Quote) :
    commandFrom (some q) opened n (q.char :: t) = commandFrom none opened (n + 1) t := by
  rw [commandFrom.eq_def]
  cases q <;> simp [Quote.char]

/-- Outside quotes, a quote opens them. -/
theorem commandFrom_open (q : Quote) :
    commandFrom none opened n (q.char :: t) = commandFrom (some q) opened (n + 1) t := by
  rw [commandFrom.eq_def]
  cases q <;> simp [Quote.char, Quote.ofChar?]

theorem commandFrom_paren :
    commandFrom none opened n ('(' :: t) = commandFrom none (opened + 1) (n + 1) t := by
  rw [commandFrom.eq_def]
  simp

theorem commandFrom_paren_close :
    commandFrom none (opened + 1) n (')' :: t) = commandFrom none opened (n + 1) t := by
  rw [commandFrom.eq_def]
  simp

theorem commandFrom_end : commandFrom none 0 n (')' :: t) = some (n + 1) := by
  rw [commandFrom.eq_def]
  simp

/-- Outside quotes, a character that is no mark means itself. -/
theorem commandFrom_char {c : Char} (h : c ∉ lineMarks) :
    commandFrom none opened n (c :: t) = commandFrom none opened (n + 1) t := by
  simp only [lineMarks, List.mem_cons, List.not_mem_nil, or_false, not_or] at h
  obtain ⟨h1, h2, h3, h4, h5⟩ := h
  have hq : Quote.ofChar? c = none := by
    unfold Quote.ofChar?
    split
    · exact absurd rfl h2
    · exact absurd rfl h3
    · rfl
  rw [commandFrom.eq_def]
  simp only [h1, h4, h5, hq, false_and, if_false]

end

/-- Between single quotes, a text without them is stepped over. -/
theorem commandFrom_single {u : Text} (h : '\'' ∉ u) (opened n : Nat) (t : Text) :
    commandFrom (some .single) opened n (u ++ '\'' :: t)
      = commandFrom none opened (n + u.length + 1) t := by
  induction u generalizing n with
  | nil => exact commandFrom_close .single
  | cons c u ih =>
      simp only [List.mem_cons, not_or] at h
      rw [List.cons_append, commandFrom_body .single (Ne.symm h.1) (Or.inr rfl), ih h.2,
        List.length_cons, Nat.add_right_comm n 1, Nat.add_assoc n]

/-- Between double quotes, a body is stepped over. -/
theorem commandFrom_double {u : Text} (h : Quote.double.isBody u = true) (opened n : Nat)
    (t : Text) :
    commandFrom (some .double) opened n (u ++ '"' :: t)
      = commandFrom none opened (n + u.length + 1) t := by
  fun_induction Quote.isBody Quote.double u generalizing n with
  | case1 => exact commandFrom_close .double
  | case2 => cases h
  | case3 c u ih =>
      rw [List.cons_append, List.cons_append, commandFrom_escape (by simp), ih h,
        List.length_cons, List.length_cons]
      congr 1
      omega
  | case4 c u hlast hpair ih =>
      rw [Bool.and_eq_true, bne_iff_ne] at h
      have hc : c ≠ '\\' := Quote.ne_backslash hlast hpair
      rw [List.cons_append, commandFrom_body .double h.1 (Or.inl hc), ih h.2,
        List.length_cons]
      congr 1
      omega

/-- **The search for the end of a command steps over a line.** -/
theorem commandFrom_line {u : Text} (h : Line u) (opened n : Nat) (t : Text) :
    commandFrom none opened n (u ++ t) = commandFrom none opened (n + u.length) t := by
  induction h generalizing opened n t with
  | nil => rfl
  | @char c u hc _ ih =>
      rw [List.cons_append, commandFrom_char hc, ih, List.length_cons]
      congr 1
      omega
  | @escape c u _ ih =>
      rw [List.cons_append, List.cons_append, commandFrom_escape (by simp), ih]
      simp only [List.length_cons]
      congr 1
      omega
  | @single u v hu _ ih =>
      rw [List.cons_append, List.append_assoc, List.cons_append]
      refine (commandFrom_open .single).trans ?_
      rw [commandFrom_single hu, ih]
      simp only [List.length_cons, List.length_append]
      congr 1
      omega
  | @double u v hu _ ih =>
      rw [List.cons_append, List.append_assoc, List.cons_append]
      refine (commandFrom_open .double).trans ?_
      rw [commandFrom_double hu, ih]
      simp only [List.length_cons, List.length_append]
      congr 1
      omega
  | @nested u v _ _ ihu ihv =>
      rw [List.cons_append, List.append_assoc, List.cons_append, commandFrom_paren, ihu,
        commandFrom_paren_close, ihv]
      simp only [List.length_cons, List.length_append]
      congr 1
      omega

/-- A command ends behind its line. -/
theorem command?_line {u : Text} (h : Line u) (t : Text) :
    command? (u ++ ')' :: t) = some (u.length + 1) := by
  rw [command?, commandFrom_line h, commandFrom_end, Nat.zero_add]

/-! ## What is left of a line -/

/-- What is left of a line inside `opened` parentheses: lines, and between them the
parentheses that close what is open. -/
def Finishes : (opened : Nat) → Text → Prop
  | 0, u => Line u
  | opened + 1, u => ∃ v w, Line v ∧ Finishes opened w ∧ u = v ++ ')' :: w

/-- A text that may stand in a line between two quotes. -/
def Quoted : Quote → Text → Prop
  | .single, u => '\'' ∉ u
  | .double, u => Quote.double.isBody u = true

/-- What is left of a line where a quote is open too: what is quoted comes first. -/
def FinishesFrom : (quote : Option Quote) → (opened : Nat) → Text → Prop
  | none, opened, u => Finishes opened u
  | some q, opened, u => ∃ v w, Quoted q v ∧ Finishes opened w ∧ u = v ++ q.char :: w

/-- A line takes a quoted piece of either kind. -/
theorem Line.quoted {q : Quote} {u t : Text} (hu : Quoted q u) (h : Line t) :
    Line (q.char :: (u ++ q.char :: t)) := by
  cases q with
  | single => exact .single hu h
  | double => exact .double hu h

/-- Between quotes `q`, a character other than `q` means itself, and only a backslash between
double quotes is more than a character. -/
theorem Quoted.char {q : Quote} {c : Char} {u : Text} (hq : c ≠ q.char)
    (hc : c ≠ '\\' ∨ q = .single) (hu : Quoted q u) : Quoted q (c :: u) := by
  cases q with
  | single =>
      rw [Quoted, List.mem_cons, not_or]
      exact ⟨Ne.symm hq, hu⟩
  | double =>
      have hb : c ≠ '\\' := hc.resolve_right (by decide)
      refine (Quote.isBody_char .double hb u).trans ?_
      rw [Bool.and_eq_true, bne_iff_ne]
      exact ⟨hq, hu⟩

section
variable {opened : Nat} {u v : Text}

/-- A line may be put in front of what is left of one. -/
theorem Finishes.append (hv : Line v) (h : Finishes opened u) : Finishes opened (v ++ u) := by
  cases opened with
  | zero => exact hv.append h
  | succ m =>
      obtain ⟨v', w, hv', hw, rfl⟩ := h
      exact ⟨v ++ v', w, hv.append hv', hw, by rw [List.append_assoc]⟩

/-! What is left of a line before one step of the search, from what is left behind it. -/

theorem Finishes.char {c : Char} (hc : c ∉ lineMarks) (h : Finishes opened u) :
    Finishes opened (c :: u) := h.append (.char hc .nil)

theorem Finishes.paren (h : Finishes (opened + 1) u) : Finishes opened ('(' :: u) := by
  obtain ⟨v, w, hv, hw, rfl⟩ := h
  have := hw.append (.nested hv .nil)
  rwa [List.cons_append, List.append_assoc] at this

theorem Finishes.paren_close (h : Finishes opened u) : Finishes (opened + 1) (')' :: u) :=
  ⟨[], u, .nil, h, rfl⟩

theorem FinishesFrom.escape {quote : Option Quote} (c : Char) (hq : quote ≠ some .single)
    (h : FinishesFrom quote opened u) : FinishesFrom quote opened ('\\' :: c :: u) := by
  match quote with
  | none => exact Finishes.append (.escape .nil) h
  | some .single => exact absurd rfl hq
  | some .double =>
      obtain ⟨v, w, hv, hw, rfl⟩ := h
      exact ⟨'\\' :: c :: v, w, hv, hw, rfl⟩

theorem FinishesFrom.opens {q : Quote} (h : FinishesFrom (some q) opened u) :
    Finishes opened (q.char :: u) := by
  obtain ⟨v, w, hv, hw, rfl⟩ := h
  have := hw.append (.quoted hv .nil)
  rwa [List.cons_append, List.append_assoc] at this

theorem FinishesFrom.closes (q : Quote) (h : Finishes opened u) :
    FinishesFrom (some q) opened (q.char :: u) := by
  refine ⟨[], u, ?_, h, rfl⟩
  cases q with
  | single => exact List.not_mem_nil
  | double => rfl

theorem FinishesFrom.char {q : Quote} {c : Char} (hq : c ≠ q.char)
    (hc : c ≠ '\\' ∨ q = .single) (h : FinishesFrom (some q) opened u) :
    FinishesFrom (some q) opened (c :: u) := by
  obtain ⟨v, w, hv, hw, rfl⟩ := h
  exact ⟨c :: v, w, hv.char hq hc, hw, rfl⟩

end

/-- A character that is neither a backslash nor a parenthesis opens a quote or means itself. -/
theorem finishes_of_ofChar? {c : Char} {opened : Nat} {u : Text} (hesc : c ≠ '\\')
    (hopen : c ≠ '(') (hclose : c ≠ ')') (h : FinishesFrom (Quote.ofChar? c) opened u) :
    Finishes opened (c :: u) := by
  cases hq : Quote.ofChar? c with
  | some q =>
      rw [hq] at h
      rw [← Quote.char_of_ofChar? hq]
      exact h.opens
  | none =>
      rw [hq] at h
      refine Finishes.char ?_ h
      have hquote : ∀ q : Quote, c ≠ q.char := by
        rintro q rfl
        rw [Quote.ofChar?_char] at hq
        cases hq
      simp only [lineMarks, List.mem_cons, List.not_mem_nil, or_false, not_or]
      exact ⟨hesc, hquote .single, hquote .double, hopen, hclose⟩

/-- **A search that comes to an end has gone over what was left of the line.** -/
theorem finishesFrom_of_commandFrom {quote : Option Quote} {opened n k : Nat} {t : Text}
    (h : commandFrom quote opened n t = some k) :
    ∃ u rest, t = u ++ ')' :: rest ∧ k = n + u.length + 1 ∧ FinishesFrom quote opened u := by
  fun_induction commandFrom quote opened n t with
  | case1 => cases h
  | case2 => cases h
  | case3 quote opened n c hc d t ih =>
      -- a backslash and the character it protects
      obtain ⟨u, rest, rfl, rfl, hu⟩ := ih h
      obtain ⟨rfl, hq⟩ := hc
      exact ⟨'\\' :: d :: u, rest, rfl, by simp only [List.length_cons]; omega, hu.escape d hq⟩
  | case4 opened n c t q hc ih =>
      -- inside a quote, which the character may close
      obtain ⟨u, rest, rfl, rfl, hu⟩ := ih h
      refine ⟨c :: u, rest, rfl, by simp only [List.length_cons]; omega, ?_⟩
      split at hu
      · next hq => exact hq ▸ FinishesFrom.closes q hu
      · next hq =>
        refine hu.char hq ?_
        by_cases hs : q = .single
        · exact Or.inr hs
        · exact Or.inl fun hb => hc ⟨hb, fun heq => hs (Option.some.inj heq)⟩
  | case5 opened n t _ ih =>
      obtain ⟨u, rest, rfl, rfl, hu⟩ := ih h
      exact ⟨'(' :: u, rest, rfl, by simp only [List.length_cons]; omega, Finishes.paren hu⟩
  | case6 n t _ => exact ⟨[], t, rfl, by simpa using h.symm, Line.nil⟩
  | case7 n t m _ _ ih =>
      obtain ⟨u, rest, rfl, rfl, hu⟩ := ih h
      exact ⟨')' :: u, rest, rfl, by simp only [List.length_cons]; omega, Finishes.paren_close hu⟩
  | case8 opened n c t hopen hclose hc ih =>
      obtain ⟨u, rest, rfl, rfl, hu⟩ := ih h
      refine ⟨c :: u, rest, rfl, by simp only [List.length_cons]; omega, ?_⟩
      have hesc : c ≠ '\\' := fun hb => hc ⟨hb, (Option.some_ne_none Quote.single).symm⟩
      exact finishes_of_ofChar? hesc hopen hclose hu

/-! ## The first end of a line -/

/-- The text begins with the line and the parenthesis that ends it, and `rest` is behind
them. No closing parenthesis further to the left has a line before it. -/
structure FirstLine (t line rest : Text) : Prop where
  split : t = line ++ ')' :: rest
  isLine : Line line
  first : ∀ u v, t = u ++ ')' :: v → Line u → line.length ≤ u.length

/-- No closing parenthesis has a line before it. -/
def Lineless (t : Text) : Prop := ∀ u v, t = u ++ ')' :: v → ¬ Line u

/-- The search stops behind every line, so a line with a closing parenthesis behind it is the
only one. -/
theorem Line.firstLine {line : Text} (h : Line line) (rest : Text) :
    FirstLine (line ++ ')' :: rest) line rest := by
  refine ⟨rfl, h, fun u v heq hu => ?_⟩
  have hsame := (command?_line h rest).symm.trans (heq ▸ command?_line hu v)
  exact Nat.le_of_eq (Nat.succ.inj (Option.some.inj hsame))

/-- **A command ends at the first closing parenthesis with a line before it.** -/
theorem command?_eq_some_iff {t : Text} {k : Nat} :
    command? t = some k ↔ ∃ line rest, FirstLine t line rest ∧ k = line.length + 1 := by
  constructor
  · intro h
    obtain ⟨line, rest, rfl, rfl, hline⟩ := finishesFrom_of_commandFrom h
    exact ⟨line, rest, Line.firstLine hline rest, by rw [Nat.zero_add]⟩
  · rintro ⟨line, rest, h, rfl⟩
    rw [h.split, command?_line h.isLine]

/-- **A command does not end where no closing parenthesis has a line before it.** -/
theorem command?_eq_none_iff {t : Text} : command? t = none ↔ Lineless t := by
  constructor
  · rintro h u v rfl hu
    rw [command?_line hu] at h
    cases h
  · intro h
    cases hk : command? t with
    | none => rfl
    | some k =>
        obtain ⟨line, rest, hline, -⟩ := command?_eq_some_iff.1 hk
        exact absurd hline.isLine (h line rest hline.split)

/-- The search tells the lines. -/
theorem line_iff {t : Text} : Line t ↔ command? (t ++ [')']) = some (t.length + 1) := by
  rw [command?_eq_some_iff]
  constructor
  · intro h
    exact ⟨t, [], h.firstLine [], rfl⟩
  · rintro ⟨line, rest, h, hlength⟩
    obtain ⟨rfl, -⟩ := List.append_inj h.split (by omega)
    exact h.isLine

instance (t : Text) : Decidable (Line t) := decidable_of_iff' _ line_iff

/-- A command is its line and the closing parenthesis. -/
theorem command?_eq_some {t : Text} {k : Nat} (h : command? t = some k) :
    ∃ inner rest, t = inner ++ ')' :: rest ∧ k = inner.length + 1 := by
  obtain ⟨line, rest, hline, rfl⟩ := command?_eq_some_iff.1 h
  exact ⟨line, rest, hline.split, rfl⟩

end Region
end EnvValues
