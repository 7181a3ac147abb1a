/-!
# Text and its blanks

A text is its list of characters, so a length is a number of code points and a
piece of a text is a piece of a list.

Blank characters are the ones that carry no ink: the ASCII control separators,
the space, and the space separators, line and paragraph separators of Unicode.
Two rules of the library hang on them: a value is looked at for outer quotes
after its blanks are trimmed, and a command line of blanks alone is not a
command.
-/

namespace EnvValues

/-- A text, as the list of its characters. -/
abbrev Text := List Char

namespace Text

/-- The blank characters, as ranges of code points, both ends included. -/
def blankRanges : List (Nat × Nat) :=
  [(0x09, 0x0D), (0x1C, 0x20), (0x85, 0x85), (0xA0, 0xA0), (0x1680, 0x1680),
   (0x2000, 0x200A), (0x2028, 0x2029), (0x202F, 0x202F), (0x205F, 0x205F),
   (0x3000, 0x3000)]

/-- Does the character carry no ink? -/
def isBlankChar (c : Char) : Bool :=
  blankRanges.any fun r => r.1 ≤ c.toNat && c.toNat ≤ r.2

/-- Every character of the class of ASCII white space is a blank. -/
theorem isBlankChar_of_isWhitespace {c : Char} (h : c.isWhitespace = true) :
    isBlankChar c = true := by
  simp only [Char.isWhitespace, Bool.or_eq_true, decide_eq_true_eq] at h
  rcases h with ((rfl | rfl) | rfl) | rfl <;> decide

/-- A text of blanks alone, the empty text included. -/
def isBlank (t : Text) : Bool := t.all isBlankChar

/-- The text without the blanks it ends in. -/
def trimEnd (t : Text) : Text := (t.reverse.dropWhile isBlankChar).reverse

/-- The text without the blanks around it. -/
def trim (t : Text) : Text := trimEnd (t.dropWhile isBlankChar)

/-- The pieces of a text between the places where a character stands. -/
def pieces (separator : Char) (t : Text) : List Text :=
  t.foldr (fun c ps =>
    match ps with
    | [] => [[c]]
    | p :: ps => if c = separator then [] :: p :: ps else (c :: p) :: ps) [[]]

theorem isBlank_nil : isBlank [] = true := rfl

theorem isBlank_cons (c : Char) (t : Text) :
    isBlank (c :: t) = (isBlankChar c && isBlank t) := rfl

theorem dropWhile_eq_nil_iff {p : Char → Bool} {t : Text} :
    t.dropWhile p = [] ↔ t.all p = true := by
  induction t with
  | nil => simp
  | cons c r ih => by_cases h : p c <;> simp [h, ih]

/-- Trimming makes no text longer. -/
theorem length_trim_le (t : Text) : (trim t).length ≤ t.length := by
  have hend : ∀ u : Text, (trimEnd u).length ≤ u.length := fun u => by
    have h := (u.reverse.dropWhile_sublist isBlankChar).length_le
    rwa [List.length_reverse, ← List.length_reverse] at h
  exact Nat.le_trans (hend _) (t.dropWhile_sublist isBlankChar).length_le

/-- What is trimmed off is blank. -/
theorem exists_blanks_around (t : Text) : ∃ front back,
    isBlank front = true ∧ isBlank back = true ∧ t = front ++ (trim t ++ back) := by
  have hblank : ∀ u : Text, isBlank (u.takeWhile isBlankChar) = true :=
    fun u => List.all_takeWhile
  let rest := t.dropWhile isBlankChar
  refine ⟨t.takeWhile isBlankChar, (rest.reverse.takeWhile isBlankChar).reverse, hblank t, ?_, ?_⟩
  · rw [isBlank, List.all_reverse]
    exact hblank rest.reverse
  · rw [trim, trimEnd, ← List.reverse_append, List.takeWhile_append_dropWhile, List.reverse_reverse,
      List.takeWhile_append_dropWhile]

/-- Blanks around a text that neither begins nor ends with one are trimmed off. -/
theorem trim_of_blanks_around {front back u : Text} {c d : Char} (hfront : isBlank front = true)
    (hback : isBlank back = true) (hc : isBlankChar c = false) (hd : isBlankChar d = false) :
    trim (front ++ (c :: (u ++ d :: back))) = c :: (u ++ [d]) := by
  have hdrop : ∀ {bs : Text}, isBlank bs = true → ∀ (e : Char) (v : Text), isBlankChar e = false →
      (bs ++ e :: v).dropWhile isBlankChar = e :: v := by
    intro bs hbs e v he
    rw [List.dropWhile_append_of_pos (List.all_eq_true.1 hbs),
      List.dropWhile_cons_of_neg (by simp [he])]
  have hback' : isBlank back.reverse = true := by rwa [isBlank, List.all_reverse]
  have hreverse : (c :: (u ++ d :: back)).reverse = back.reverse ++ d :: (c :: u).reverse := by simp
  rw [trim, hdrop hfront c _ hc, trimEnd, hreverse, hdrop hback' d _ hd]
  simp

/-- **Trimming leaves nothing exactly of the blank texts.** -/
theorem trim_eq_nil_iff {t : Text} : trim t = [] ↔ isBlank t = true := by
  have hd : t.dropWhile isBlankChar = [] → trim t = [] := fun h => by rw [trim, h]; rfl
  constructor
  · intro h
    rw [trim, trimEnd, List.reverse_eq_nil_iff, dropWhile_eq_nil_iff, List.all_reverse] at h
    -- what is left once the front is trimmed begins with no blank
    cases hq : t.dropWhile isBlankChar with
    | nil => exact dropWhile_eq_nil_iff.1 hq
    | cons c r =>
      have hc := List.head?_dropWhile_not isBlankChar t
      rw [hq] at h hc
      simp_all
  · intro h
    exact hd (dropWhile_eq_nil_iff.2 h)

end Text
end EnvValues
