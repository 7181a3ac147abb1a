import EnvValues.Text.Basic

/-!
# Writing a text as one shell word

A text of harmless characters alone is a shell word as it stands. Any other text
is put between single quotes, where a shell reads every character as itself; a
single quote, which cannot stand there, is written between double quotes and the
single quotes resume after it. The empty text is written as a pair of quotes, or it
would be no word at all.
-/

namespace EnvValues
namespace ShellWord

/-- The characters that mean nothing but themselves to a shell. -/
def isHarmless (c : Char) : Bool := c.isAlphanum || "_@%+=:,./-".toList.contains c

/-- A character as it is written between single quotes. -/
def quoteChar (c : Char) : Text := if c = '\'' then "'\"'\"'".toList else [c]

/-- The text as one shell word. -/
def quote (t : Text) : Text :=
  if t = [] then "''".toList
  else if t.all isHarmless then t
  else '\'' :: (t.flatMap quoteChar ++ ['\''])

@[simp] theorem quote_nil : quote [] = "''".toList := rfl

/-- A text of harmless characters is written as it is. -/
theorem quote_of_harmless {t : Text} (hne : t ≠ []) (h : t.all isHarmless = true) :
    quote t = t := by
  rw [quote, if_neg hne, if_pos h]

/-- No text is written as nothing, so a quoted text never vanishes from a command. -/
theorem quote_ne_nil (t : Text) : quote t ≠ [] := by
  unfold quote
  split
  · decide
  · next hne =>
    split
    · exact hne
    · simp

end ShellWord
end EnvValues
