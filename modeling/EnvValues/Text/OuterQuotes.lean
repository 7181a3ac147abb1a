import EnvValues.Text.Basic

/-!
# Outer quotes

A value may be wrapped in one pair of quotes. It counts as wrapped when, its
blanks trimmed, it is `q inner q` for one quote `q` and the inner text is a
**body** of `q`: characters other than `q` and the backslash, and backslashes each
followed by the character it protects. So the closing quote is never one that a
backslash protects, and two quoted pieces side by side are not one wrapped value.

A body is told by two tests: the backslashes that it ends in come in pairs, and no
quote `q` is bare when it is read from the left. Together they are the grammar
(`isBody_eq`, `isBody_iff`).
-/

namespace EnvValues

/-- The two kinds of quotes. -/
inductive Quote
  | single
  | double
  deriving DecidableEq, Repr

namespace Quote

/-- The quote as it is written. -/
def char : Quote → Char
  | single => '\''
  | double => '"'

/-- The quote that a character writes. -/
def ofChar? : Char → Option Quote
  | '\'' => some single
  | '"' => some double
  | _ => none

theorem ofChar?_char (q : Quote) : ofChar? q.char = some q := by cases q <;> rfl

theorem char_of_ofChar? {c : Char} {q : Quote} (h : ofChar? c = some q) : q.char = c := by
  unfold ofChar? at h
  split at h
  · cases h; rfl
  · cases h; rfl
  · exact nomatch h

/-- A text that may stand between two quotes `q`: no bare `q`, and no backslash
that protects nothing. -/
def isBody (q : Quote) : Text → Bool
  | [] => true
  | ['\\'] => false
  | '\\' :: _ :: r => isBody q r
  | c :: r => c != q.char && isBody q r

/-- The items of a body: a character other than `q` and the backslash, or a backslash and the
character it protects. -/
inductive Body (q : Quote) : Text → Prop where
  | nil : Body q []
  | char {c : Char} {t : Text} : c ≠ q.char → c ≠ '\\' → Body q t → Body q (c :: t)
  | escape {c : Char} {t : Text} : Body q t → Body q ('\\' :: c :: t)

theorem isBody_char (q : Quote) {c : Char} (h : c ≠ '\\') (t : Text) :
    isBody q (c :: t) = (c != q.char && isBody q t) :=
  isBody.eq_4 q c t (fun hc => absurd hc h) fun _ _ hc => absurd hc h

/-- What stands before the rest of a text, where neither a dangling backslash nor an escape does. -/
theorem ne_backslash {c : Char} {t : Text} (hlast : c = '\\' → t = [] → False)
    (hpair : ∀ (d : Char) (u : Text), c = '\\' → t = d :: u → False) : c ≠ '\\' := by
  rintro rfl
  cases t with
  | nil => exact hlast rfl rfl
  | cons d u => exact hpair d u rfl rfl

/-- **A body is a row of items.** -/
theorem isBody_iff {q : Quote} {t : Text} : q.isBody t = true ↔ q.Body t := by
  constructor
  · intro h
    fun_induction isBody q t with
    | case1 => exact .nil
    | case2 => cases h
    | case3 c r ih => exact .escape (ih h)
    | case4 c r hlast hpair ih =>
      rw [Bool.and_eq_true, bne_iff_ne] at h
      exact .char h.1 (ne_backslash hlast hpair) (ih h.2)
  · intro h
    induction h with
    | nil => rfl
    | char hq hc _ ih => rw [isBody_char q hc, ih, Bool.and_true, bne_iff_ne]; exact hq
    | escape _ ih => rw [isBody]; exact ih

/-- The number of backslashes that a text ends in. -/
def trailingBackslashes (t : Text) : Nat := (t.reverse.takeWhile (· = '\\')).length

/-- Does a bare `q` stand in a text? It is read from the left, and a backslash takes the
character behind it along. -/
def hasBare (q : Quote) : Text → Bool
  | [] => false
  | ['\\'] => false
  | '\\' :: _ :: r => hasBare q r
  | c :: r => c == q.char || hasBare q r

theorem hasBare_char (q : Quote) {c : Char} (h : c ≠ '\\') (t : Text) :
    hasBare q (c :: t) = (c == q.char || hasBare q t) :=
  hasBare.eq_4 q c t (fun hc => absurd hc h) fun _ _ hc => absurd hc h

theorem trailingBackslashes_char {c : Char} (h : c ≠ '\\') (t : Text) :
    trailingBackslashes (c :: t) = trailingBackslashes t := by
  rw [trailingBackslashes, List.reverse_cons, List.takeWhile_append]
  split
  · next hall => simp [trailingBackslashes, hall, h]
  · rfl

/-- A backslash and the character it protects leave the backslashes at the end paired as they
are, also where both of them are among these. -/
theorem trailingBackslashes_escape (c : Char) (t : Text) :
    trailingBackslashes ('\\' :: c :: t) % 2 = trailingBackslashes t % 2 := by
  rw [trailingBackslashes, List.reverse_cons, List.reverse_cons, List.append_assoc,
    List.takeWhile_append]
  split
  · next hall =>
    by_cases hc : c = '\\'
    · simp [trailingBackslashes, hall, hc]
    · simp [trailingBackslashes, hall, hc]
  · rfl

/-- **The two tests are the grammar.** -/
theorem isBody_eq (q : Quote) (t : Text) :
    q.isBody t = (decide (trailingBackslashes t % 2 = 0) && !q.hasBare t) := by
  fun_induction isBody q t with
  | case1 => rfl
  | case2 => rfl
  | case3 c r ih => rw [ih, trailingBackslashes_escape, hasBare]
  | case4 c r hlast hpair ih =>
    have hc : c ≠ '\\' := ne_backslash hlast hpair
    rw [ih, trailingBackslashes_char hc, hasBare_char q hc, Bool.not_or, Bool.and_left_comm]
    rfl

theorem isBody_eq_true_iff {q : Quote} {t : Text} :
    q.isBody t = true ↔ trailingBackslashes t % 2 = 0 ∧ q.hasBare t = false := by
  rw [isBody_eq, Bool.and_eq_true, decide_eq_true_iff, Bool.not_eq_true']

end Quote

namespace OuterQuotes

/-- The quote around a value and the text inside, when the value is wrapped. -/
def split? (t : Text) : Option (Quote × Text) :=
  match Text.trim t with
  | [] => none
  | c :: r =>
    match Quote.ofChar? c with
    | none => none
    | some q =>
      if r.getLast? = some c ∧ Quote.trailingBackslashes r.dropLast % 2 = 0
          ∧ q.hasBare r.dropLast = false then some (q, r.dropLast)
      else none

/-- The quote around a value, if it has one, and the value without it. A value that
is not wrapped keeps even its blanks. -/
def split (t : Text) : Option Quote × Text :=
  match split? t with
  | some (q, inner) => (some q, inner)
  | none => (none, t)

/-- **What is wrapped.** -/
theorem split?_eq_some_iff {t inner : Text} {q : Quote} :
    split? t = some (q, inner) ↔
      Text.trim t = q.char :: (inner ++ [q.char]) ∧ q.isBody inner = true := by
  constructor
  · intro h
    unfold split? at h
    split at h
    · exact nomatch h
    · next c r hq =>
      split at h
      · exact nomatch h
      · next q' hc =>
        split at h
        · next hif =>
          obtain ⟨rfl, rfl⟩ := Prod.mk.inj (Option.some.inj h)
          refine ⟨?_, Quote.isBody_eq_true_iff.2 hif.2⟩
          rw [hq, Quote.char_of_ofChar? hc]
          congr 1
          obtain ⟨u, hu⟩ := List.getLast?_eq_some_iff.1 hif.1
          subst hu
          simp
        · exact nomatch h
  · rintro ⟨ht, hb⟩
    unfold split?
    rw [ht]
    simp [Quote.ofChar?_char, Quote.isBody_eq_true_iff.1 hb]

/-- What is inside the quotes is no longer than the value. -/
theorem length_split_le (t : Text) : (split t).2.length ≤ t.length := by
  unfold split
  split
  · next q inner h =>
    have hlength := congrArg List.length (split?_eq_some_iff.1 h).1
    have htrim := Text.length_trim_le t
    simp only [List.length_cons, List.length_append] at hlength
    dsimp only
    omega
  · exact Nat.le_refl _

end OuterQuotes
end EnvValues
