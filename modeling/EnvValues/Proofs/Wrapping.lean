import EnvValues.Proofs.Passes

/-!
# Values between outer quotes

A value is wrapped in a pair of quotes if it is, between blanks, a quote, a body of that quote and
the quote again. Whether it is depends on the body alone, which is a row of items, and so on a
grammar that knows nothing of the two tests by which it is told. **The quotes that are split off are
the ones that a value is wrapped in** (`wrapped_exactly`), and any other value keeps its blanks.

So what is between single quotes is given as it is, whatever else an expansion could read, and what
is between double quotes is expanded as if it stood alone.
-/

namespace EnvValues
namespace OuterQuotes

/-- Blanks, a quote, a body of it, the quote again, and blanks. -/
def Wrapped (q : Quote) (inner v : Text) : Prop :=
  q.Body inner ∧ ∃ front back, Text.isBlank front = true ∧ Text.isBlank back = true
    ∧ v = front ++ (q.char :: (inner ++ q.char :: back))

theorem isBlankChar_char (q : Quote) : Text.isBlankChar q.char = false := by
  cases q <;> decide

/-- What is split off is what a value is wrapped in. -/
theorem split?_eq_some_iff_wrapped {q : Quote} {inner v : Text} :
    split? v = some (q, inner) ↔ Wrapped q inner v := by
  rw [split?_eq_some_iff, Quote.isBody_iff]
  constructor
  · rintro ⟨htrim, hbody⟩
    obtain ⟨front, back, hfront, hback, hv⟩ := Text.exists_blanks_around v
    rw [htrim] at hv
    exact ⟨hbody, front, back, hfront, hback, by simpa using hv⟩
  · rintro ⟨hbody, front, back, hfront, hback, rfl⟩
    have hquote : Text.isBlankChar q.char = false := isBlankChar_char q
    exact ⟨Text.trim_of_blanks_around hfront hback hquote hquote, hbody⟩

theorem split_of_wrapped {q : Quote} {inner v : Text} (h : Wrapped q inner v) :
    split v = (some q, inner) := by
  rw [split, split?_eq_some_iff_wrapped.2 h]

theorem split_of_not_wrapped {v : Text} (h : ∀ q inner, ¬ Wrapped q inner v) :
    split v = (none, v) := by
  have hnone : split? v = none := by
    rw [Option.eq_none_iff_forall_ne_some]
    rintro ⟨q, inner⟩ hsome
    exact h q inner (split?_eq_some_iff_wrapped.1 hsome)
  rw [split, hnone]

theorem wrapped_of_split {q : Quote} {inner v : Text} (h : split v = (some q, inner)) :
    Wrapped q inner v := by
  unfold split at h
  split at h
  · next q' inner' hsome =>
    obtain ⟨hq, rfl⟩ := Prod.mk.inj h
    obtain rfl := Option.some.inj hq
    exact split?_eq_some_iff_wrapped.1 hsome
  · cases h

/-- **Outer quotes are told exactly.** A quote is split off a value, with what is between, just
where the value is wrapped in it, and a value that is not wrapped is left as it is. So a value
between single quotes gives what is between them, decoded, without a pass, a notice or a call, in
every context; and a value between double quotes, around one that is not wrapped itself, is
expanded as that one is. -/
theorem wrapped_exactly (v : Text) :
    (∀ q inner, split v = (some q, inner) ↔ Wrapped q inner v)
    ∧ ((∀ q inner, ¬ Wrapped q inner v) → split v = (none, v))
    ∧ (∀ inner, Wrapped .single inner v → ∀ (ctx : Context) (s : Trace),
        ctx.interpolate v s = (.ok { value := Escape.decodeIf ctx.config.features.escapes inner,
                                     iterations := 0 }, s))
    ∧ (∀ inner, Wrapped .double inner v → (∀ q w, ¬ Wrapped q w inner) →
        ∀ (ctx : Context) (s : Trace), ctx.interpolate v s = ctx.interpolate inner s) := by
  refine ⟨fun q inner => ⟨wrapped_of_split, split_of_wrapped⟩, split_of_not_wrapped,
    fun inner hsingle ctx s => ?_, fun inner hdouble hinner ctx s => ?_⟩
  · rw [ctx.interpolate_eq, split_of_wrapped hsingle, if_pos rfl]
  · have hnone : split inner = (none, inner) := split_of_not_wrapped hinner
    rw [ctx.interpolate_eq, ctx.interpolate_eq, split_of_wrapped hdouble, hnone, if_neg nofun,
      if_neg nofun]

/-- A value between double quotes, with a blank on either side, a quote that is protected inside,
and a pair of backslashes at its end. -/
def wrappedPath : Text := " \"${A}\\\"\\\\\"\t".toList

/-- The text inside. -/
def innerPath : Text := "${A}\\\"\\\\".toList

/-- The backslashes at the end protect each other and not the quote, so the value is wrapped, and it
is expanded as the text inside. -/
theorem wrapped_exactly_path :
    Wrapped .double innerPath wrappedPath ∧ (∀ q w, ¬ Wrapped q w innerPath)
    ∧ ∀ (ctx : Context) (s : Trace),
        ctx.interpolate wrappedPath s = ctx.interpolate innerPath s := by
  obtain ⟨hsplit, -, -, hdouble⟩ := wrapped_exactly wrappedPath
  obtain ⟨hsplit', -, -, -⟩ := wrapped_exactly innerPath
  have hwrapped : Wrapped .double innerPath wrappedPath := (hsplit _ _).1 (by decide)
  have hinner : ∀ q w, ¬ Wrapped q w innerPath := by
    intro q w h
    have hnone : (split innerPath).1 = none := by decide
    rw [(hsplit' q w).2 h] at hnone
    cases hnone
  exact ⟨hwrapped, hinner, hdouble _ hwrapped hinner⟩

end OuterQuotes
end EnvValues
