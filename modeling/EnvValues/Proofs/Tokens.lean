import EnvValues.Proofs.Passes
import EnvValues.Proofs.Reading

/-!
# Texts without tokens

A reference and a command show where they begin, by a dollar and the character behind it. Which
characters these are is told by the features: `(` with commands, and `{` or the first character of
a name with references.

A text in which no dollar stands before such a character has nothing to resolve, whatever else is
in it (`not_hasExpansions_parse`): brackets that are never closed, or that are nested deeper than
there is room for, or regions of a kind that is off. For what is read and is no literal keeps its
text, which is a piece of the value and begins with a token. So **a text without tokens is given
back, decoded, and nothing is done about it** (`interpolate_of_tokenless`).
-/

namespace EnvValues

/-- Behind a dollar, the character begins a command or a reference, of a kind that is on. -/
inductive Features.Begins (f : Features) : Char → Prop where
  | command : f.commands = true → f.Begins '('
  | braced : f.references = true → f.Begins '{'
  | bare {c : Char} : f.references = true → Name.isStart c = true → f.Begins c

/-- No dollar of the text stands before a character that begins something. -/
def Features.Tokenless (f : Features) (t : Text) : Prop := ∀ c, f.Begins c → ¬ ['$', c] <:+: t

namespace Node

/-- **What is read begins with a token**, unless it is a literal. -/
theorem Grammar.Reads.exists_begins {f : Features} {bareNames : Bool} {room : Nat} {t rest : Text}
    {n : Node} (h : (Grammar.ofValue f.references f.commands bareNames).Reads room t n rest)
    (hn : n.isLit = false) : ∃ c, f.Begins c ∧ ['$', c] <+: n.raw := by
  cases h with
  | kept => exact nomatch hn
  | @braced _ name _ hv _ => exact ⟨'{', .braced hv, name ++ ['}'], rfl⟩
  | fallback hv _ hs hraw => exact ⟨'{', .braced hv, _, (hs.raw_eq hraw).symm⟩
  | @line _ inner _ _ hline =>
      have hplace : (ofPlace f bareNames false).line = some _ := hline
      obtain ⟨-, hcommands, -⟩ := line_ofPlace hplace
      exact ⟨'(', .command hcommands, inner ++ [')'], rfl⟩
  | @bare _ name _ hv _ hname =>
      cases name with
      | nil => exact nomatch hname
      | cons c u =>
          have hstart : Name.isStart c = true := (Bool.and_eq_true_iff.1 hname).1
          exact ⟨c, .bare hv hstart, u, rfl⟩

/-- **A text without tokens is read as literals**, with any room for nesting, and with bare names or
without. -/
theorem not_hasExpansions_parse {f : Features} {t : Text} (h : f.Tokenless t) (bareNames : Bool)
    (depth : Int) : hasExpansions (parse f bareNames depth t) = false := by
  rw [hasExpansions, List.any_eq_false]
  intro n hn hexpansion
  have hlit : n.isLit = false := by simpa using hexpansion
  obtain ⟨u, rest, hr⟩ := (Grammar.gives_nodes _ _ t).reads n hn hlit
  obtain ⟨c, hc, htoken⟩ := hr.exists_begins hlit
  -- the token is where the node was read
  have hpiece : n.raw <:+: rawAll (parse f bareNames depth t) := raw_isInfix_of_mem hn
  have htext : rawAll (parse f bareNames depth t) = t := Grammar.rawAll_nodes _ _ t
  rw [htext] at hpiece
  exact h c hc (htoken.isInfix.trans hpiece)

end Node

namespace Context

/-- A text in which nothing is to be resolved is only decoded. -/
theorem conclude_passes_of_not_pending {ctx : Context} {v : Text} (h : ¬ ctx.Pending v)
    (budget : Nat) (s : Trace) : ctx.conclude (ctx.passes budget v 0 s)
      = (.ok { value := Escape.decodeIf ctx.config.features.escapes v }, s) := by
  rw [passes_of_not_pending h, conclude]

/-- **A text without tokens passes through.** Let a text not be between single quotes, and let no
dollar inside its outer quotes stand before a character that begins a command or a reference, of a
kind that is on. With any variables, environment and shell, and for every limit on nesting and every
number of passes, its run gives what is inside the quotes, decoded if escapes are on, after no pass,
and leaves the trace as it was; or, where that is too long to be expanded, as it is, with one
notice, a warning, and nothing else in the trace. -/
theorem interpolate_of_tokenless {ctx : Context} {t inner : Text} {quote : Option Quote}
    (hsplit : OuterQuotes.split t = (quote, inner)) (hquote : quote ≠ some .single)
    (h : ctx.config.features.Tokenless inner) (s : Trace) :
    ((inner.length : Int) ≤ ctx.config.limits.inputLength →
      ctx.interpolate t s
        = (.ok { value := Escape.decodeIf ctx.config.features.escapes inner, failure := none,
                 iterations := 0, exhausted := false }, s))
    ∧ (ctx.config.limits.inputLength < (inner.length : Int) →
      let notice : Notice := .inputTooLong inner.length ctx.config.limits.inputLength
      notice.severity = .warning
        ∧ ctx.interpolate t s
          = (.ok { value := inner, failure := none, iterations := 0, exhausted := false },
              { s with notices := s.notices.push notice })) := by
  have hinner : ctx.interpolate t s = ctx.interpolateInner inner s := by
    rw [ctx.interpolate_eq, hsplit, if_neg hquote]
  have hplain : ¬ ctx.Pending inner := by
    rw [Pending, nodes, Node.not_hasExpansions_parse h]
    exact Bool.false_ne_true
  rw [hinner]
  constructor
  · intro hle
    rw [interpolateInner_of_le hle, conclude_passes_of_not_pending hplain]
  · intro hlt
    exact ⟨rfl, interpolateInner_of_lt hlt s⟩

/-- References are off, there is no room for nesting, no pass is allowed, and values of more than
twenty characters are not expanded. The variable `A` is a command. -/
def muted : Context where
  bindings := Assignment.ofList [(['A'], { value := "$(rm x)".toList })]
  environment := ∅
  config :=
    { maxIterations := 0, features := { references := false }
      limits := { inputLength := 20, nestingDepth := 0 } }
  shell := ⟨fun t => t, fun _ _ => .ok {}⟩

/-- Braces that are nested and not closed, a bare name, and an escape at the end. -/
def tangled : Text := "$\x7bA:-$\x7bB-$A \x7b$\\n".toList

/-- Between double quotes, the run gives all of the text, with a line break for the escape. Behind
five characters more it is too long, and the escape is kept. -/
theorem interpolate_of_tokenless_muted :
    OuterQuotes.split ('"' :: (tangled ++ ['"'])) = (some .double, tangled)
    ∧ muted.config.features.Tokenless tangled
    ∧ (∀ s, muted.interpolate ('"' :: (tangled ++ ['"'])) s
      = (.ok { value := "$\x7bA:-$\x7bB-$A \x7b$\n".toList }, s))
    ∧ muted.config.features.Tokenless ("$A\x7d\x7d ".toList ++ tangled)
    ∧ (Notice.inputTooLong 21 20).severity = .warning
    ∧ ∀ s, muted.interpolate ("$A\x7d\x7d ".toList ++ tangled) s
      = (.ok { value := "$A\x7d\x7d ".toList ++ tangled },
          { s with notices := s.notices.push (.inputTooLong 21 20) }) := by
  have htokenless : ∀ t, ¬ ['$', '('] <:+: t → muted.config.features.Tokenless t := by
    intro t ht c hc
    cases hc with
    | command _ => exact ht
    | braced hv => cases hv
    | bare hv _ => cases hv
  have hsplit : OuterQuotes.split ('"' :: (tangled ++ ['"'])) = (some .double, tangled) := by
    decide +kernel
  have hdecoded : Escape.decodeIf muted.config.features.escapes tangled
      = "$\x7bA:-$\x7bB-$A \x7b$\n".toList := by decide +kernel
  have hunquoted : OuterQuotes.split ("$A\x7d\x7d ".toList ++ tangled)
      = (none, "$A\x7d\x7d ".toList ++ tangled) := by decide +kernel
  have hinner := htokenless tangled (by decide +kernel)
  have hlonger := htokenless ("$A\x7d\x7d ".toList ++ tangled) (by decide +kernel)
  have hlength : ("$A\x7d\x7d ".toList ++ tangled).length = 21 := by decide +kernel
  refine ⟨hsplit, hinner, fun s => ?_, hlonger, rfl, fun s => ?_⟩
  · obtain ⟨hgiven, -⟩ := interpolate_of_tokenless hsplit (by decide) hinner s
    rw [hgiven (by decide +kernel), hdecoded]
  · obtain ⟨-, hnoticed⟩ := interpolate_of_tokenless hunquoted (by decide) hlonger s
    rw [hlength] at hnoticed
    exact (hnoticed (by decide)).2

end Context
end EnvValues
