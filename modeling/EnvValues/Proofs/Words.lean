import EnvValues.Proofs.Account
import EnvValues.Shell.Scripted
import EnvValues.Text.OuterQuotes

/-!
# Values as words of a command line

A value that a reference puts into a command line is written as one word. `words` is how a
shell reads the words of a line, as far as such lines go: with spaces between words, pieces
in quotes, and harmless characters. It gives up on anything else, so what it reads has no
meaning to a shell but its words.

* **A quoted text is read back as one word, and is that word** (`words_quote`), wherever it
  stands in a line (`readFrom_quote_append`).
* So **the words of a line are the words of its template**, with the values in their places
  (`words_of_commandLine`).
-/

namespace EnvValues

/-- Is the character read as itself between two such quotes? -/
def Quote.reads (q : Quote) (c : Char) : Bool :=
  match q with
  | single => true
  | double => !"$`\\".toList.contains c

namespace ShellWord

/-- Where a reader of words stands. -/
inductive Cursor
  /-- It is outside quotes, with the word that was begun, if there is one. -/
  | outside (word : Option Text)
  /-- It is inside quotes, with the word up to here. -/
  | inside (q : Quote) (word : Text)

/-- The words that are read from a place on, if the text is readable. -/
def readFrom : Cursor → Text → Option (List Text)
  | .outside word, [] => some word.toList
  | .inside _ _, [] => none
  | .outside word, c :: t =>
    if c = ' ' then (readFrom (.outside none) t).map (word.toList ++ ·)
    else match Quote.ofChar? c with
      | some q => readFrom (.inside q (word.getD [])) t
      | none =>
        if isHarmless c then readFrom (.outside (some (word.getD [] ++ [c]))) t else none
  | .inside q word, c :: t =>
    if c = q.char then readFrom (.outside (some word)) t
    else if q.reads c then readFrom (.inside q (word ++ [c])) t
    else none

/-- The words of a text, if it is readable. -/
def words (t : Text) : Option (List Text) := readFrom (.outside none) t

/-! ## One character at a time -/

section
variable (word : Option Text) (t : Text)

theorem readFrom_space :
    readFrom (.outside word) (' ' :: t) = (readFrom (.outside none) t).map (word.toList ++ ·) := by
  rw [readFrom, if_pos rfl]

theorem readFrom_open (q : Quote) :
    readFrom (.outside word) (q.char :: t) = readFrom (.inside q (word.getD [])) t := by
  rw [readFrom, Quote.ofChar?_char, if_neg (by cases q <;> decide)]

theorem readFrom_close (q : Quote) (w : Text) :
    readFrom (.inside q w) (q.char :: t) = readFrom (.outside (some w)) t := by
  rw [readFrom, if_pos rfl]

theorem readFrom_harmless {c : Char} (h : isHarmless c = true) :
    readFrom (.outside word) (c :: t) = readFrom (.outside (some (word.getD [] ++ [c]))) t := by
  have hspace : c ≠ ' ' := by rintro rfl; revert h; decide
  have hquote : Quote.ofChar? c = none := by
    unfold Quote.ofChar?
    split
    · revert h; decide
    · revert h; decide
    · rfl
  rw [readFrom, if_neg hspace, hquote]
  exact if_pos h

theorem readFrom_inside {q : Quote} {c : Char} (w : Text) (hc : c ≠ q.char)
    (hr : q.reads c = true) :
    readFrom (.inside q w) (c :: t) = readFrom (.inside q (w ++ [c])) t := by
  rw [readFrom, if_neg hc, if_pos hr]

end

/-! ## Quoted texts -/

/-- Harmless characters add to the word that was begun. -/
theorem readFrom_harmless_append {v : Text} (h : v.all isHarmless = true) (w t : Text) :
    readFrom (.outside (some w)) (v ++ t) = readFrom (.outside (some (w ++ v))) t := by
  induction v generalizing w with
  | nil => simp
  | cons c v ih =>
      obtain ⟨hc, hv⟩ : isHarmless c = true ∧ v.all isHarmless = true := by simpa using h
      rw [List.cons_append, readFrom_harmless _ _ hc, ih hv]
      simp

/-- Between single quotes, what a character is written as is read as the character. -/
theorem readFrom_quoteChar (c : Char) (w t : Text) :
    readFrom (.inside .single w) (quoteChar c ++ t) = readFrom (.inside .single (w ++ [c])) t := by
  unfold quoteChar
  split
  · next hc =>
      -- the quotes are closed, the single quote stands between double ones, and they resume
      subst hc
      change readFrom _ (Quote.single.char :: Quote.double.char :: '\'' :: Quote.double.char
        :: Quote.single.char :: t) = _
      rw [readFrom_close, readFrom_open, readFrom_inside _ _ (by decide) rfl, readFrom_close,
        readFrom_open]
      rfl
  · next hc => exact readFrom_inside t w hc rfl

theorem readFrom_flatMap_quoteChar (v w t : Text) :
    readFrom (.inside .single w) (v.flatMap quoteChar ++ t)
      = readFrom (.inside .single (w ++ v)) t := by
  induction v generalizing w with
  | nil => simp
  | cons c v ih =>
      rw [List.flatMap_cons, List.append_assoc, readFrom_quoteChar, ih]
      simp

/-- **A quoted text adds itself to a word, and nothing else**, wherever it stands. -/
theorem readFrom_quote_append (word : Option Text) (v t : Text) :
    readFrom (.outside word) (quote v ++ t) = readFrom (.outside (some (word.getD [] ++ v))) t := by
  unfold quote
  split
  · next hv =>
      subst hv
      change readFrom _ (Quote.single.char :: Quote.single.char :: t) = _
      rw [readFrom_open, readFrom_close, List.append_nil]
  · next hne =>
      split
      · next hv =>
          obtain ⟨c, u, rfl⟩ := List.exists_cons_of_ne_nil hne
          obtain ⟨hc, hu⟩ : isHarmless c = true ∧ u.all isHarmless = true := by simpa using hv
          rw [List.cons_append, readFrom_harmless _ _ hc, readFrom_harmless_append hu]
          simp
      · change readFrom _
          (Quote.single.char :: ((v.flatMap quoteChar ++ [Quote.single.char]) ++ t)) = _
        rw [readFrom_open, List.append_assoc, readFrom_flatMap_quoteChar, List.singleton_append,
          readFrom_close]

/-- **A quoted text is one word.** -/
theorem words_quote (v : Text) : words (quote v) = some [v] := by
  have h := readFrom_quote_append none v []
  rwa [List.append_nil] at h

end ShellWord

/-! ## Templates of command lines -/

/-- What a template is made of: characters that stand for themselves, and gaps for values,
which are numbered from the front. -/
inductive Slot
  | char (c : Char)
  | gap (i : Nat)
  deriving DecidableEq

namespace Slot

/-- Does the slot stand between words? -/
def isSpace : Slot → Bool
  | char c => c = ' '
  | gap _ => false

/-- The words of a template: what stands between its spaces. -/
def words (slots : List Slot) : List (List Slot) := (slots.splitOnP isSpace).filter (· ≠ [])

section
variable (vs : List Text)

/-- A slot with the values in the gaps, whole and unchanged. -/
def fill : Slot → Text
  | char c => [c]
  | gap i => vs[i]?.getD []

/-- A slot as it is written in a command line, with the values in the gaps. -/
def written : Slot → Text
  | char c => [c]
  | gap i => ShellWord.quote (vs[i]?.getD [])

/-- The words that slots add to a word that was begun, given the slots between spaces. -/
def wordsBehind (word : Option Text) : List (List Slot) → List Text
  | [] => word.toList
  | w :: ws =>
    (if word = none ∧ w = [] then [] else [word.getD [] ++ w.flatMap (fill vs)]) ++
      (ws.filter (· ≠ [])).map (·.flatMap (fill vs))

theorem wordsBehind_none (ws : List (List Slot)) :
    wordsBehind vs none ws = (ws.filter (· ≠ [])).map (·.flatMap (fill vs)) := by
  cases ws with
  | nil => rfl
  | cons w ws => by_cases hw : w = [] <;> simp [wordsBehind, hw]

end

/-- A slot that is no space adds to the word that was begun, or begins one. -/
theorem readFrom_written_append (vs : List Text) {slot : Slot}
    (h : ∀ c, slot = char c → ShellWord.isHarmless c = true) (word : Option Text) (t : Text) :
    ShellWord.readFrom (.outside word) (written vs slot ++ t)
      = ShellWord.readFrom (.outside (some (word.getD [] ++ fill vs slot))) t := by
  cases slot with
  | char c => exact ShellWord.readFrom_harmless word t (h c rfl)
  | gap i => exact ShellWord.readFrom_quote_append word _ t

/-- **The words of a line are those of its template.** -/
theorem readFrom_written (vs : List Text) {slots : List Slot}
    (h : ∀ c, char c ∈ slots → ShellWord.isHarmless c = true ∨ c = ' ') (word : Option Text) :
    ShellWord.readFrom (.outside word) (slots.flatMap (written vs))
      = some (wordsBehind vs word (slots.splitOnP isSpace)) := by
  induction slots generalizing word with
  | nil => cases word <;> simp [ShellWord.readFrom, wordsBehind, List.splitOnP_nil]
  | cons slot slots ih =>
      have ih := fun word => ih (fun c hc => h c (List.mem_cons_of_mem _ hc)) word
      rw [List.flatMap_cons, List.splitOnP_cons_eq_if_modifyHead]
      cases hspace : slot.isSpace with
      | true =>
          -- the word that was begun ends here
          obtain rfl : slot = char ' ' := by
            cases slot with
            | char c => simpa [isSpace] using hspace
            | gap i => exact nomatch hspace
          change ShellWord.readFrom _ (' ' :: slots.flatMap (written vs)) = _
          rw [ShellWord.readFrom_space, ih, wordsBehind_none]
          cases word <;> simp [wordsBehind]
      | false =>
          have hslot : ∀ c, slot = char c → ShellWord.isHarmless c = true := by
            rintro c rfl
            refine (h c List.mem_cons_self).resolve_right ?_
            rintro rfl
            exact nomatch hspace
          obtain ⟨w, ws, hws⟩ := List.exists_cons_of_ne_nil (List.splitOnP_ne_nil isSpace slots)
          rw [readFrom_written_append vs hslot, ih, hws]
          simp [wordsBehind]

end Slot

namespace Context

/-- May the node stand in a template? It is a reference, or text of harmless characters and
spaces. -/
def inTemplate : Node → Bool
  | .lit t => t.all fun c => ShellWord.isHarmless c || c = ' '
  | .ref .. => true
  | _ => false

/-- The slots of nodes, with the gaps numbered from here on. -/
def slotsFrom : Nat → List Node → List Slot
  | _, [] => []
  | i, .lit t :: ns => t.map .char ++ slotsFrom i ns
  | i, _ :: ns => .gap i :: slotsFrom (i + 1) ns

/-- The words of a template itself, with a gap for each reference. -/
def templateWords (ns : List Node) : List (List Slot) := Slot.words (slotsFrom 0 ns)

/-- The values of the references among nodes, in order. -/
def referenceValues (ctx : Context) : List Node → Expansion (List Text)
  | [] => pure []
  | .lit _ :: ns => referenceValues ctx ns
  | n :: ns => do
    let v ← ctx.expand .value n
    let vs ← referenceValues ctx ns
    pure (v :: vs)

/-- In a line, a reference is its value, written as one word. -/
theorem expand_line_ref (ctx : Context) (name raw : Text) (op : Option Operator)
    (fallback : Option (List Node)) :
    ctx.expand .line (.ref name raw op fallback)
      = ctx.expand .value (.ref name raw op fallback) >>= fun v => pure (ctx.placed .line v) := by
  have hvalue : ∀ v, ctx.placed .value v = v := fun _ => rfl
  cases op with
  | none => rw [expand, expand]; simp only [hvalue, bind_pure]
  | some op =>
      cases fallback with
      | none => rw [expand, expand]; simp only [hvalue, bind_pure]
      | some f => rw [expand, expand]; simp only [hvalue, bind_pure]

/-- A line is its template, with the values of the references written in the gaps. -/
theorem written_of_expandAll {ctx : Context} (hsecurity : ctx.config.disableSecurity = false)
    (hquote : ctx.shell.quote = ShellWord.quote) {ns : List Node} (hns : ns.all inTemplate = true) :
    ∀ (before : List Text) {line : Text} {s s' : Trace},
      (ctx.expandAll .line ns).after s = (.ok line, s') →
      ∃ vs, (ctx.referenceValues ns).after s = (.ok vs, s')
        ∧ vs.length = ns.countP (fun n => !n.isLit)
        ∧ line = (slotsFrom before.length ns).flatMap (Slot.written (before ++ vs)) := by
  induction ns with
  | nil =>
      intro before line s s' h
      rw [after_expandAll_nil] at h
      cases h
      exact ⟨[], rfl, rfl, rfl⟩
  | cons n ns ih =>
      intro before line s s' h
      obtain ⟨hn, hns'⟩ : inTemplate n = true ∧ ns.all inTemplate = true := by simpa using hns
      rw [expandAll_cons] at h
      obtain ⟨t, s₁, ht, hrest⟩ := Expansion.after_bind_eq_ok.1 h
      obtain ⟨u, s₂, hu, hjoin⟩ := Expansion.after_bind_eq_ok.1 hrest
      cases hjoin
      cases n with
      | lit text =>
          rw [expand] at ht
          cases ht
          obtain ⟨vs, hvs, hlength, rfl⟩ := ih hns' before hu
          refine ⟨vs, hvs, by simpa [Node.isLit] using hlength, ?_⟩
          rw [slotsFrom, List.flatMap_append, List.flatMap_map]
          simp [Slot.written]
      | ref name raw op fallback =>
          rw [expand_line_ref] at ht
          obtain ⟨v, s₂, hv, hplaced⟩ := Expansion.after_bind_eq_ok.1 ht
          cases hplaced
          obtain ⟨vs, hvs, hlength, hline⟩ := ih hns' (before ++ [v]) hu
          refine ⟨v :: vs, ?_, by simpa [Node.isLit] using hlength, ?_⟩
          · rw [referenceValues, Expansion.after_bind_of_ok hv, Expansion.after_bind_of_ok hvs]
            · rfl
            · intro t h
              cases h
          · rw [slotsFrom, List.flatMap_cons, hline, placed, hsecurity, hquote]
            · simp [Slot.written]
            · intro t h
              cases h
      | command line raw => simp [inTemplate] at hn
      | group ns' => simp [inTemplate] at hn
      | nothing => simp [inTemplate] at hn

theorem harmless_of_mem_slotsFrom {ns : List Node} (hns : ns.all inTemplate = true) {i : Nat}
    {c : Char} (hc : Slot.char c ∈ slotsFrom i ns) : ShellWord.isHarmless c = true ∨ c = ' ' := by
  induction ns generalizing i with
  | nil => exact absurd hc List.not_mem_nil
  | cons n ns ih =>
      obtain ⟨hn, hns'⟩ : inTemplate n = true ∧ ns.all inTemplate = true := by simpa using hns
      cases n with
      | lit t =>
          rw [slotsFrom, List.mem_append, List.mem_map] at hc
          obtain ⟨d, hd, hdc⟩ | hc := hc
          · obtain rfl := Slot.char.inj hdc
            simpa using List.all_eq_true.1 hn d hd
          · exact ih hns' hc
      | ref name raw op fallback =>
          exact ih hns' (show Slot.char c ∈ slotsFrom (i + 1) ns by simpa [slotsFrom] using hc)
      | command line raw => simp [inTemplate] at hn
      | group ns' => simp [inTemplate] at hn
      | nothing => simp [inTemplate] at hn

/-- **No value changes the words of a command line but its own.** A quoted text is read back
as one word, whatever it holds. So where values are quoted, the words that are read from the
line of a template are the words of the template, with the value of each reference in the
place of the reference. -/
theorem words_of_commandLine :
    (∀ v, ShellWord.words (ShellWord.quote v) = some [v])
    ∧ ∀ (ctx : Context) (ns : List Node) (line : Text) (s s' : Trace),
      ctx.config.disableSecurity = false → ctx.shell.quote = ShellWord.quote →
      ns.all inTemplate = true → (ctx.commandLine ns).after s = (.ok line, s') →
      ∃ vs, (ctx.referenceValues ns).after s = (.ok vs, s')
        ∧ vs.length = ns.countP (fun n => !n.isLit)
        ∧ ShellWord.words line = some ((templateWords ns).map (·.flatMap (Slot.fill vs))) := by
  refine ⟨ShellWord.words_quote, fun ctx ns line s s' hsecurity hquote hns h => ?_⟩
  obtain ⟨vs, hvs, hlength, rfl⟩ := written_of_expandAll hsecurity hquote hns [] h
  refine ⟨vs, hvs, hlength, ?_⟩
  have hharmless : ∀ c, Slot.char c ∈ slotsFrom 0 ns → ShellWord.isHarmless c = true ∨ c = ' ' :=
    fun c hc => harmless_of_mem_slotsFrom hns hc
  rw [ShellWord.words, templateWords, Slot.words, ← Slot.wordsBehind_none]
  exact Slot.readFrom_written vs hharmless none

/-- The variable `X` holds what means something to a shell, and `Y` nothing at all. -/
def hostile : Context where
  bindings := Assignment.ofList
    [("X".toList, { value := "it's; $(rm)\n".toList }), ("Y".toList, { value := [] })]
  environment := ∅
  config := {}
  shell := Script.shell {}

/-- Two references, one of them with text around it. -/
def copying : List Node :=
  [.lit "cp  to-".toList, .ref "X".toList "${X}".toList none none, .lit ".bak ".toList,
    .ref "Y".toList "${Y}".toList none none]

/-- There are three words, whatever the values hold. -/
theorem words_of_commandLine_hostile :
    hostile.config.disableSecurity = false ∧ hostile.shell.quote = ShellWord.quote
    ∧ copying.all inTemplate = true
    ∧ ∃ line s', (hostile.commandLine copying).after {} = (.ok line, s')
      ∧ ShellWord.words line
        = some ["cp".toList, "to-it's; $(rm)\n.bak".toList, []] := by
  have htemplate : copying.all inTemplate = true := by decide
  obtain ⟨line, s', hline⟩ : ∃ line s', (hostile.commandLine copying).after {} = (.ok line, s') :=
    ⟨_, _, rfl⟩
  obtain ⟨vs, hvs, -, hwords⟩ :=
    words_of_commandLine.2 hostile copying line {} s' rfl rfl htemplate hline
  have hvalues : ((hostile.referenceValues copying).after {}).1.toOption
      = some ["it's; $(rm)\n".toList, []] := by decide +kernel
  rw [hvs] at hvalues
  obtain rfl := Option.some.inj hvalues
  refine ⟨rfl, rfl, htemplate, line, s', hline, hwords.trans ?_⟩
  decide

end Context
end EnvValues
