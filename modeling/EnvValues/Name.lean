import EnvValues.Text.Basic

/-!
# Variable names

A name is an ASCII letter or `_`, followed by any number of ASCII letters, digits
and `_`. A reference takes **the longest name in front of it**: `leading?` splits
that name off, and its lemmas say that nothing is lost, that what is split off is
a name, and that the rest could not have made it longer.
-/

namespace EnvValues
namespace Name

/-- The characters a name may begin with. -/
def isStart (c : Char) : Bool := c.isAlpha || c == '_'

/-- The characters a name may go on with. -/
def isPart (c : Char) : Bool := c.isAlphanum || c == '_'

/-- Is the whole text one name? -/
def isName : Text → Bool
  | [] => false
  | c :: r => isStart c && r.all isPart

/-- The longest name at the front of the text, and the text after it. -/
def leading? : Text → Option (Text × Text)
  | [] => none
  | c :: r => if isStart c then some (c :: r.takeWhile isPart, r.dropWhile isPart) else none

theorem isPart_of_isStart {c : Char} (h : isStart c = true) : isPart c = true := by
  simp only [isStart, isPart, Char.isAlphanum, Bool.or_eq_true] at h ⊢
  rcases h with h | h
  · exact Or.inl (Or.inl h)
  · exact Or.inr h

/-- Splitting a name off loses nothing. -/
theorem eq_append_of_leading? {t n r : Text} (h : leading? t = some (n, r)) : t = n ++ r := by
  cases t with
  | nil => simp [leading?] at h
  | cons c u =>
    simp only [leading?] at h
    split at h
    · obtain ⟨rfl, rfl⟩ := Prod.mk.inj (Option.some.inj h)
      simp
    · exact nomatch h

/-- What is split off is a name. -/
theorem isName_of_leading? {t n r : Text} (h : leading? t = some (n, r)) : isName n = true := by
  cases t with
  | nil => simp [leading?] at h
  | cons c u =>
    simp only [leading?] at h
    split at h
    · next hc =>
      obtain ⟨rfl, rfl⟩ := Prod.mk.inj (Option.some.inj h)
      simp [isName, hc]
    · exact nomatch h

/-- The name is the longest one: the rest does not go on with a name character. -/
theorem rest_of_leading? {t n r : Text} (h : leading? t = some (n, r)) :
    ∀ c ∈ r.head?, isPart c = false := by
  cases t with
  | nil => simp [leading?] at h
  | cons d u =>
    simp only [leading?] at h
    split at h
    · obtain ⟨rfl, rfl⟩ := Prod.mk.inj (Option.some.inj h)
      intro c hc
      have := List.head?_dropWhile_not isPart u
      rw [Option.mem_def] at hc
      rw [hc] at this
      exact this
    · exact nomatch h

end Name
end EnvValues
