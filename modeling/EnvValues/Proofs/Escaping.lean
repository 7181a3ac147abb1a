import EnvValues.Text.Escape
import EnvValues.Text.OuterQuotes

/-!
# Escapes that are written and decoded

The decoder goes along a text in one of five ways (`decode_induction`): the text ends, perhaps with
a backslash; an escape stands for a character; a backslash that begins none is kept, and **the
character behind it is looked at again**; or a character stands for itself.

Two laws come out of this. A text is what its written form decodes to, where a backslash is always
written as an escape, and every other character that has one may be or not (`Escaped`). And a text
can be cut without harm exactly where the backslashes before the cut come in pairs, since the last
of them then protects nothing behind it (`decode_append_iff`).
-/

namespace EnvValues
namespace Escape

/-- The character that stands behind a backslash for `c`, if there is an escape for it. -/
def letter? : Char → Option Char
  | '\n' => some 'n'
  | '\r' => some 'r'
  | '\t' => some 't'
  | '"' => some '"'
  | '\'' => some '\''
  | '\\' => some '\\'
  | _ => none

/-- The text with an escape for every character that has one. -/
def encode (t : Text) : Text :=
  t.flatMap fun c => match letter? c with
    | some l => ['\\', l]
    | none => [c]

/-- A text, and a form in which it may be written: there is an escape for every backslash, and for
as many of the other characters that have one as one likes. -/
inductive Escaped : Text → Text → Prop where
  | nil : Escaped [] []
  | char {c : Char} {t w : Text} : c ≠ '\\' → Escaped t w → Escaped (c :: t) (c :: w)
  | escape {c l : Char} {t w : Text} :
      letter? c = some l → Escaped t w → Escaped (c :: t) ('\\' :: l :: w)

/-- An escape means the character that it is written for. -/
theorem meaning?_of_letter? {c l : Char} (h : letter? c = some l) : meaning? l = some c := by
  unfold letter? at h
  split at h
  · cases h; rfl
  · cases h; rfl
  · cases h; rfl
  · cases h; rfl
  · cases h; rfl
  · cases h; rfl
  · cases h

/-- Escapes everywhere are one of the forms. -/
theorem escaped_encode (t : Text) : Escaped t (encode t) := by
  induction t with
  | nil => exact .nil
  | cons c t ih =>
      rw [encode, List.flatMap_cons]
      cases hl : letter? c with
      | some l => exact .escape hl ih
      | none =>
          refine .char ?_ ih
          rintro rfl
          cases hl

/-- **A text is what any of its written forms decodes to.** -/
theorem Escaped.decode {t w : Text} (h : Escaped t w) : Escape.decode w = t := by
  induction h with
  | nil => rfl
  | char hc _ ih => rw [decode_cons _ hc, ih]
  | escape hl _ ih => rw [decode_escape _ (meaning?_of_letter? hl), ih]

/-! ## Going along a text -/

/-- **Induction on decoding**: the text ends, a backslash ends it, or an escape, a backslash that is
kept or another character comes first. -/
@[elab_as_elim]
theorem decode_induction {P : Text → Prop} (nil : P []) (backslash : P ['\\'])
    (escape : ∀ c d t, meaning? c = some d → P t → P ('\\' :: c :: t))
    (kept : ∀ c t, meaning? c = none → P (c :: t) → P ('\\' :: c :: t))
    (char : ∀ c t, c ≠ '\\' → P t → P (c :: t)) (t : Text) : P t := by
  -- along the loop, whatever was decoded before
  suffices h : ∀ done : Text, P t from h []
  intro done
  fun_induction decodeOnto done t with
  | case1 => exact nil
  | case2 done c t d hd ih => exact escape c d t hd ih
  | case3 done c t hd ih => exact kept c t hd ih
  | case4 done c t hpair ih =>
      by_cases hc : c = '\\'
      · cases t with
        | nil => exact hc ▸ backslash
        | cons d u => exact absurd rfl (hpair d u hc)
      · exact char c t hc ih

/-- A backslash that is kept leaves the number of backslashes at the end as it is. -/
theorem trailingBackslashes_kept {c : Char} (h : meaning? c = none) (t : Text) :
    Quote.trailingBackslashes ('\\' :: c :: t) % 2 = Quote.trailingBackslashes (c :: t) % 2 := by
  have hc : c ≠ '\\' := by
    rintro rfl
    cases h
  rw [Quote.trailingBackslashes_escape, Quote.trailingBackslashes_char hc]

/-- Behind backslashes in pairs, a text is decoded as it is alone. -/
theorem decode_append {s : Text} (h : Quote.trailingBackslashes s % 2 = 0) (t : Text) :
    decode (s ++ t) = decode s ++ decode t := by
  induction s using decode_induction with
  | nil => rfl
  | backslash => cases h
  | escape c d s hd ih =>
      rw [Quote.trailingBackslashes_escape] at h
      rw [List.cons_append, List.cons_append, decode_escape _ hd, decode_escape _ hd, ih h]
      rfl
  | kept c s hd ih =>
      rw [trailingBackslashes_kept hd] at h
      have hrest := ih h
      rw [List.cons_append] at hrest
      rw [List.cons_append, List.cons_append, decode_kept _ hd, decode_kept _ hd, hrest]
      rfl
  | char c s hc ih =>
      rw [Quote.trailingBackslashes_char hc] at h
      rw [List.cons_append, decode_cons _ hc, decode_cons _ hc, ih h]
      rfl

/-- A backslash that is left over at the end stands behind pairs of them. -/
theorem exists_concat_of_odd {s : Text} (h : Quote.trailingBackslashes s % 2 = 1) :
    ∃ u, s = u ++ ['\\'] ∧ Quote.trailingBackslashes u % 2 = 0 := by
  rcases List.eq_nil_or_concat s with rfl | ⟨u, c, hs⟩
  · cases h
  · obtain rfl : s = u ++ [c] := hs.trans List.concat_eq_append
    by_cases hc : c = '\\'
    · subst hc
      have hcount : Quote.trailingBackslashes (u ++ ['\\']) = Quote.trailingBackslashes u + 1 := by
        simp [Quote.trailingBackslashes]
      exact ⟨u, rfl, by omega⟩
    · have hcount : Quote.trailingBackslashes (u ++ [c]) = 0 := by
        simp [Quote.trailingBackslashes, hc]
      omega

/-- **A text can be cut exactly where the backslashes before the cut come in pairs.** -/
theorem decode_append_iff {s : Text} : (∀ t, decode (s ++ t) = decode s ++ decode t)
    ↔ Quote.trailingBackslashes s % 2 = 0 := by
  refine ⟨fun h => ?_, decode_append⟩
  rcases Nat.mod_two_eq_zero_or_one (Quote.trailingBackslashes s) with heven | hodd
  · exact heven
  · -- the backslash that is left over would take a letter along
    exfalso
    obtain ⟨u, rfl, heven⟩ := exists_concat_of_odd hodd
    have hcut : decode (u ++ ['\\'] ++ ['n']) = decode (u ++ ['\\']) ++ decode ['n'] := h ['n']
    have htaken : decode ['\\', 'n'] = ['\n'] := rfl
    have hkept : decode ['\\'] ++ decode ['n'] = ['\\', 'n'] := rfl
    rw [List.append_assoc, decode_append heven, decode_append heven, List.append_assoc, hkept,
      List.append_cancel_left_eq, List.singleton_append, htaken] at hcut
    cases hcut

/-- **Decoding undoes escaping, and goes from piece to piece.** A text with all its escapes, or with
an escape for every backslash and for any of its quotes, line breaks, returns and tabs, decodes to
the text. Two texts decode to what they decode to one after the other if the backslashes that end
the first one come in pairs, and only then can any text stand behind it. What is decoded is never
longer, and without escapes every text is left as it is. -/
theorem decode_undoes_escaping :
    (∀ t, decode (encode t) = t)
    ∧ (∀ t w, Escaped t w → decode w = t)
    ∧ (∀ s, (∀ t, decode (s ++ t) = decode s ++ decode t)
        ↔ Quote.trailingBackslashes s % 2 = 0)
    ∧ (∀ enabled t, (decodeIf enabled t).length ≤ t.length)
    ∧ (∀ t, decodeIf true t = decode t) ∧ ∀ t, decodeIf false t = t := by
  refine ⟨fun t => ?_, fun t w hw => hw.decode, fun s => decode_append_iff, length_decodeIf_le,
    decodeIf_true, decodeIf_false⟩
  exact (escaped_encode t).decode

/-- A text with a backslash, a quote and a line break. -/
def marked : Text := "a\\'\n".toList

/-- Here the quote is left as it is. -/
def markedForm : Text := "a\\\\'\\n".toList

/-- The written form decodes to the text. A backslash that is kept stands before a pair of them, so
that the letter behind the pair is none of an escape. -/
theorem decode_undoes_escaping_marked :
    Escaped marked markedForm ∧ decode markedForm = marked
    ∧ Quote.trailingBackslashes "\\x\\\\".toList % 2 = 0
    ∧ ∀ t, decode ("\\x\\\\".toList ++ t) = decode "\\x\\\\".toList ++ decode t := by
  obtain ⟨-, hforms, hcut, -⟩ := decode_undoes_escaping
  have hform : Escaped marked markedForm :=
    .char (by decide) (.escape rfl (.char (by decide) (.escape rfl .nil)))
  have heven : Quote.trailingBackslashes "\\x\\\\".toList % 2 = 0 := by decide +kernel
  exact ⟨hform, hforms _ _ hform, heven, (hcut _).2 heven⟩

end Escape
end EnvValues
