import EnvValues.Proofs.History
import EnvValues.Proofs.Locality
import EnvValues.Proofs.StoredValues
import EnvValues.Proofs.Words
import Mathlib.Algebra.GroupWithZero.Nat

/-!
# The lines that commands are run with

A command is run in the pass that meets it, and a pass looks into no value. So the references in a
command line are replaced by the values **that are stored**, each of them written as one word, and
what those values refer to in turn is not looked up before the command runs. What the command
prints is read by the next pass; its line is not.

* The line of a clean template is its text with the stored values in it (`builds_joinedAll`).
* A value that begins with a command makes its first call with the line of that command
  (`exists_calls_of_command`).
* So the line of `$(w ${N})` holds the value stored for `N`, which is what `${N}` resolves to
  where that value holds nothing to resolve and no escape (`command_sees_stored_value`). A value
  that refers to another one reaches the command unresolved (`command_sees_reference`).
-/

namespace EnvValues
open Node

/-- What holds no mark of a command line may stand in one. -/
theorem Region.line_plainly {name : Text} (hname : Name.isName name = true) :
    Line (plainly name).raw := by
  have hmark : ∀ c ∈ lineMarks, Name.isPart c = false := by simp [lineMarks, Name.isPart]
  refine .char (by decide) (.char (by decide) (.append (.of_not_mem fun c hc hm => ?_)
    (.char (by decide) .nil)))
  exact Name.not_mem_of_isName hname (hmark c hm) hc

/-- A text of harmless characters is a line. -/
theorem Region.line_of_harmless {w : Text} (hw : w.all ShellWord.isHarmless = true) : Line w := by
  have hmark : ∀ c ∈ lineMarks, ShellWord.isHarmless c = false := by
    simp [lineMarks, ShellWord.isHarmless]
  refine .of_not_mem fun c hc hm => ?_
  have hharmless := List.all_eq_true.1 hw c hc
  rw [hmark c hm] at hharmless
  cases hharmless

namespace Node

/-- A command as it is written. -/
def running (line : List Node) : Node := command line ('$' :: '(' :: (rawAll line ++ [')']))

end Node

namespace Context

/-- What a clean node is in a command line: a literal as it is, and what a reference stands for as
one word. -/
def lineNode (ctx : Context) : Node → Text
  | .lit t => t
  | n => ctx.placed .line (substNode ctx.lookup n)

/-- How much a clean node counts towards the output where it stands in a command line: a literal
nothing, and a reference what it stands for. -/
def lineRoom (ctx : Context) : Node → Nat
  | .lit _ => 0
  | n => (substNode ctx.lookup n).length

/-- **The command line of a clean template**, with the stored values in it. -/
def lineText (ctx : Context) (ns : List Node) : Text := ns.flatMap ctx.lineNode

/-- A step builds a part of a command line quietly, where the limit leaves so much room. -/
def Builds (ctx : Context) (x : Expansion Text) (room : Nat) (t : Text) : Prop :=
  ∀ s : Trace, ((s.written + room : Nat) : Int) ≤ ctx.config.limits.outputLength →
    ∃ s', x.after s = (.ok t, s') ∧ s'.written ≤ s.written + room ∧ ctx.Quiet s s'

section
variable {ctx : Context} {depth : Int} {around room : Nat}

/-- In a command line, a literal stands in front of what is behind it, joined to it or not. -/
theorem expandAll_line_cons_lit (ctx : Context) (t : Text) (ns : List Node) :
    ctx.expandAll .line (cons (.lit t) ns)
      = ctx.expandAll .line ns >>= fun u => pure (t ++ u) := by
  have hlit : ∀ (t : Text) (ns : List Node), ctx.expandAll .line (.lit t :: ns)
      = ctx.expandAll .line ns >>= fun u => pure (t ++ u) := by
    intro t ns
    rw [expandAll_cons, expand, pure_bind]
  cases t with
  | nil => simp only [cons, List.nil_append, bind_pure]
  | cons c t =>
      cases ns with
      | nil => exact hlit _ _
      | cons n ns =>
          cases n with
          | lit u => simp only [cons, hlit, bind_assoc, pure_bind, List.append_assoc]
          | _ => exact hlit _ _

theorem builds_nil (ctx : Context) : ctx.Builds (ctx.expandAll .line []) 0 [] := fun s _ =>
  ⟨s, after_expandAll_nil ctx .line s, Nat.le_refl _, .of_eq rfl rfl⟩

/-- A literal takes no room. -/
theorem builds_cons_lit {ns : List Node} {u : Text} (t : Text)
    (hns : ctx.Builds (ctx.expandAll .line ns) room u) :
    ctx.Builds (ctx.expandAll .line (cons (.lit t) ns)) room (t ++ u) := by
  intro s h
  obtain ⟨s', hu, hrest⟩ := hns s h
  refine ⟨s', ?_, hrest⟩
  rw [expandAll_line_cons_lit, Expansion.after_bind_of_ok hu]
  rfl

/-- Nodes in a row build their parts in a row. -/
theorem builds_cons {n : Node} {ns : List Node} {room' : Nat} {t u : Text}
    (hn : ctx.Builds (ctx.expand .line n) room t)
    (hns : ctx.Builds (ctx.expandAll .line ns) room' u) :
    ctx.Builds (ctx.expandAll .line (n :: ns)) (room + room') (t ++ u) := by
  intro s h
  obtain ⟨s₁, h₁, hw₁, hq₁⟩ := hn s (by omega)
  obtain ⟨s₂, h₂, hw₂, hq₂⟩ := hns s₁ (by omega)
  refine ⟨s₂, ?_, by omega, hq₁.trans hq₂⟩
  rw [expandAll_cons, Expansion.after_bind_of_ok h₁, Expansion.after_bind_of_ok h₂]
  rfl

/-- A reference takes the room of the value that is stored, and builds one word. -/
theorem builds_joined (hops : ∀ op, ctx.honours op = true) {n : Node}
    (hn : NodePrinted depth around true n) (hin : Inside (Printed depth) around true n)
    (hl : n.isLit = false) :
    ctx.Builds (ctx.expand .line (joined n)) (ctx.lineRoom n) (ctx.lineNode n) := by
  have hvalue := produces_joined hops n hn hin hl
  cases n with
  | lit t => cases hl
  | ref name raw op fallback =>
      obtain ⟨f, hf⟩ : ∃ f, joined (.ref name raw op fallback) = .ref name raw op f := by
        cases fallback with
        | none => exact ⟨none, joined_ref_none ..⟩
        | some ms => exact ⟨some (joinedAll ms), joined_ref_some ..⟩
      intro s h
      obtain ⟨s', hv, hw, hquiet⟩ := hvalue s h
      refine ⟨s', ?_, Nat.le_of_eq hw, hquiet⟩
      rw [hf] at hv ⊢
      rw [expand_line_ref, Expansion.after_bind_of_ok hv]
      rfl
  | command line raw => cases hn.2.1
  | group ns => exact hn.elim
  | nothing => exact hn.elim

/-- **The line of a clean template is its text with the stored values in it**, each written as one
word. -/
theorem builds_joinedAll (hops : ∀ op, ctx.honours op = true) {ns : List Node}
    (h : Clean depth ns) :
    ctx.Builds (ctx.expandAll .line (joinedAll ns)) (ns.map ctx.lineRoom).sum
      (ctx.lineText ns) := by
  have hnodes := everywhere_inLine_iff.1 h
  clear h
  induction ns with
  | nil => exact builds_nil ctx
  | cons n ns ih =>
      obtain ⟨⟨hn, hin⟩, hns⟩ := List.forall_mem_cons.1 hnodes
      have hrest := ih hns
      rw [joinedAll_cons, List.map_cons, List.sum_cons, lineText, List.flatMap_cons]
      cases hl : n.isLit with
      | true =>
          obtain ⟨t, rfl⟩ := exists_lit_of_isLit hl
          rw [joined_lit, lineRoom, Nat.zero_add]
          exact builds_cons_lit t hrest
      | false =>
          rw [cons_of_not_lit (by rw [isLit_joined, hl])]
          exact builds_cons (builds_joined hops hn hin hl) hrest

end

/-! ## The first call of a value -/

/-- The shell is called with a line before anything else is done about it. -/
theorem exists_lineAccount_eq (ctx : Context) {l : Text} (hblank : Text.isBlank l = false)
    (s : Trace) :
    ∃ rest, ctx.lineAccount l s = .call ⟨l, ctx.commandEnvironment⟩ :: rest := by
  simp only [lineAccount, hblank, Bool.false_eq_true, if_false]
  exact ⟨_, rfl⟩

section
variable {ctx : Context}

/-- **A value that begins with a command makes its first call with the line of that command**, if
building the line makes none. -/
theorem exists_calls_of_command {t raw l : Text} {line ns : List Node} {budget : Nat}
    {s s' : Trace} (hnodes : ctx.nodes t = .command line raw :: ns)
    (hline : (ctx.expandAll .line line).after { s with written := 0 } = (.ok l, s'))
    (hcalls : s'.calls = s.calls) (hblank : Text.isBlank l = false) :
    ∃ later, Event.calls (ctx.passesHistory (budget + 1) t s)
      = ⟨l, ctx.commandEnvironment⟩ :: later := by
  have hpending : ctx.Pending t := by
    rw [Pending, hnodes]
    rfl
  -- the line is built without a call
  have hquiet : Event.calls (ctx.accountAll .line line { s with written := 0 }) = [] := by
    have htold := ((ctx.tells_expandAll .line line).extends_after { s with written := 0 }).calls
    rw [hline, hcalls] at htold
    simpa using htold
  obtain ⟨after, hafter⟩ := ctx.exists_lineAccount_eq hblank s'
  obtain ⟨rest, hhistory⟩ := @exists_passesHistory_eq ctx budget t s hpending
  rw [hhistory, passAccount, hnodes, accountAll, Account.bind, account, Account.bind_of_ok hline,
    hafter]
  simp only [Event.calls_cons, Event.calls_append, hquiet, Event.call?, Option.toList_none,
    Option.toList_some, List.nil_append, List.cons_append]
  exact ⟨_, rfl⟩

/-- A command with a clean template is read where it stands alone. -/
theorem nodes_of_running (hv : ctx.config.features.references = true)
    (hc : ctx.config.features.commands = true) (hdepth : 0 < ctx.config.limits.nestingDepth)
    {line : List Node} (hclean : Clean ctx.config.limits.nestingDepth line)
    (hline : Region.Line (rawAll line)) :
    ctx.nodes (running line).raw = [.command (joinedAll line) (running line).raw] := by
  have hprinted : Everywhere (Printed ctx.config.limits.nestingDepth) 0 false [running line] := by
    refine ⟨⟨?_, ?_, trivial⟩, ?_⟩
    · intro n hn
      obtain rfl := List.mem_singleton.1 hn
      exact ⟨rfl, rfl, hdepth, hline⟩
    · exact fun hbare => nomatch hbare
    · intro n hn
      obtain rfl := List.mem_singleton.1 hn
      exact inside_command.2 hclean
  have hread := Grammar.nodes_printed (Grammar.suits_ofValue _) (Nat.le_refl _)
    (by rwa [Nat.sub_self] : Everywhere (Printed ctx.config.limits.nestingDepth)
      (ctx.config.limits.nestingDepth.toNat - ctx.config.limits.nestingDepth.toNat) false
      [running line])
  rw [rawAll_singleton] at hread
  rw [nodes, parse, hv, hc, hread]
  rfl

/-- **A command with a clean template is run with the line of that template**, before anything else
is run. -/
theorem exists_calls_of_running (hv : ctx.config.features.references = true)
    (hc : ctx.config.features.commands = true) (hops : ∀ op, ctx.honours op = true)
    (hdepth : 0 < ctx.config.limits.nestingDepth) {line : List Node}
    (hclean : Clean ctx.config.limits.nestingDepth line) (hline : Region.Line (rawAll line))
    (hblank : Text.isBlank (ctx.lineText line) = false) (hbudget : 0 < ctx.config.maxIterations)
    (hinput : ((running line).raw.length : Int) ≤ ctx.config.limits.inputLength)
    (houtput : (((line.map ctx.lineRoom).sum : Nat) : Int) ≤ ctx.config.limits.outputLength)
    (s : Trace) :
    ∃ later : List Call, (ctx.interpolate (running line).raw s).2.calls
      = s.calls ++ (⟨ctx.lineText line, ctx.commandEnvironment⟩ :: later).toArray := by
  obtain ⟨s', hbuilt, -, hquiet⟩ :=
    builds_joinedAll hops hclean { s with written := 0 } (by simpa using houtput)
  obtain ⟨budget, hbudget⟩ : ∃ b, ctx.config.budget = b + 1 :=
    ⟨ctx.config.budget - 1, by rw [Config.budget]; omega⟩
  obtain ⟨later, hlater⟩ : ∃ later, Event.calls (ctx.passesHistory (budget + 1) _ s) = _ :: later :=
    exists_calls_of_command (nodes_of_running hv hc hdepth hclean hline) hbuilt hquiet.calls hblank
  have hrun := (ctx.extends_interpolateInner (running line).raw s).calls
  rw [innerHistory, Limits.forbidsInput, decide_eq_false (Int.not_lt.2 hinput)] at hrun
  simp only [Bool.false_eq_true, if_false, hbudget, Event.calls_append, hlater] at hrun
  rw [List.cons_append] at hrun
  refine ⟨_, Eq.trans ?_ hrun⟩
  exact congrArg (fun r => r.2.calls) (interpolate_dollar _ s)

/-- A word and a reference behind it. -/
def wordAnd (word name : Text) : List Node := [.lit (word ++ [' ']), plainly name]

theorem rawAll_wordAnd (word name : Text) :
    rawAll (wordAnd word name) = word ++ ' ' :: (plainly name).raw := by
  simp [wordAnd, Node.raw]

theorem clean_wordAnd {depth : Int} {word name : Text} (hword : '$' ∉ word)
    (hname : Name.isName name = true) (hdepth : 0 < depth) : Clean depth (wordAnd word name) := by
  refine everywhere_inLine_iff.2 fun n hn => ?_
  obtain rfl | hn := List.mem_cons.1 hn
  · exact ⟨by simp [NodePrinted, hword], inside_lit _⟩
  · exact everywhere_inLine_iff.1 (clean_plainly hname hdepth) n hn

/-- A value without dollars is what its variable resolves to, but for its escapes. -/
theorem textAfter_of_not_mem {values : Text → Option (List Node)} {rank : Text → Nat}
    (hv : ctx.config.features.references = true)
    (hac : Acyclic ctx.lookup ctx.config.limits.nestingDepth values rank) {name v : Text}
    (hset : ctx.lookup name = some v) (hplain : '$' ∉ v) (passes : Nat) :
    ctx.textAfter passes v = v := by
  rw [hac.lookup_eq] at hset
  obtain ⟨ns, hns, rfl⟩ := Option.map_eq_some_iff.1 hset
  have hclean := hac.clean name ns hns
  refine textAfter_of_not_hasExpansions hv hclean ?_ passes
  rw [hasExpansions, List.any_eq_false]
  intro n hn
  simp [isLit_of_not_mem hclean.1.node hplain n hn]

/-- **A command sees the values that are stored.** Over values without cycles, and with room for
their ranks, let `v` be the value stored for a variable and `r` what a reference to it resolves to.
A command that is a word and that reference is run, before anything else is, with the word and `v`
quoted behind it. Where `v` holds neither a dollar nor a backslash, it is `r`. -/
theorem command_sees_stored_value {values : Text → Option (List Node)} {rank : Text → Nat}
    (hv : ctx.config.features.references = true) (hc : ctx.config.features.commands = true)
    (hdefaults : ctx.config.features.defaults = true)
    (halternates : ctx.config.features.alternates = true)
    (hsecurity : ctx.config.disableSecurity = false)
    (hac : Acyclic ctx.lookup ctx.config.limits.nestingDepth values rank)
    (hdepth : 0 < ctx.config.limits.nestingDepth) {word name v : Text}
    (hword : Region.Line word) (hplain : '$' ∉ word) (hblank : Text.isBlank word = false)
    (hname : Name.isName name = true) (hset : ctx.lookup name = some v) {layers : Nat}
    (hrank : rank name < layers) (hbudget : (layers : Int) ≤ ctx.config.maxIterations)
    (hinput : (('$' :: '(' :: (word ++ ' ' :: ((plainly name).raw ++ [')']))).length : Int)
      ≤ ctx.config.limits.inputLength)
    (houtput : ∀ j, j < layers →
      ((ctx.textAfter (j + 1) (plainly name).raw).length : Int)
        ≤ ctx.config.limits.outputLength) :
    ∃ r, ctx.Resolves (ctx.interpolate (plainly name).raw) r
      ∧ ('$' ∉ v → '\\' ∉ v → v = r)
      ∧ ∀ s, ∃ later : List Call,
        (ctx.interpolate ('$' :: '(' :: (word ++ ' ' :: ((plainly name).raw ++ [')']))) s).2.calls
          = s.calls ++ (⟨word ++ ' ' :: ctx.shell.quote v, ctx.commandEnvironment⟩
              :: later).toArray := by
  obtain ⟨layers, rfl⟩ : ∃ l, layers = l + 1 := ⟨layers - 1, by omega⟩
  have hops := honours_of_enabled hdefaults halternates
  have hwritten : rawAll [plainly name] = (plainly name).raw := rawAll_singleton _
  -- what is left of the variable is never too long
  have hvalue : ∀ j, j < layers + 1 →
      ((ctx.textAfter j v).length : Int) ≤ ctx.config.limits.outputLength := by
    intro j hj
    have hlen := houtput j hj
    rwa [← hwritten, textAfter_succ_of_clean hv (clean_plainly hname hdepth), subst_cons, subst_nil,
      List.append_nil, substNode_plainly _ hset] at hlen
  have hreference : ctx.Resolves (ctx.interpolate (plainly name).raw) _ :=
    resolves_of_plainly hv hops hac hdepth hname hset hrank hbudget
      (by simp only [List.length_cons, List.length_append] at hinput; omega) hvalue
  refine ⟨_, hreference, fun hdollar hescape => ?_, fun s => ?_⟩
  · rw [textAfter_of_not_mem hv hac hset hdollar, Escape.decodeIf_of_not_mem hescape]
  · have hraw : (running (wordAnd word name)).raw
        = '$' :: '(' :: (word ++ ' ' :: ((plainly name).raw ++ [')'])) := by
      rw [running, Node.raw, rawAll_wordAnd, List.append_assoc, List.cons_append]
    have hquoted : ctx.lineNode (plainly name) = ctx.shell.quote v := by
      change ctx.placed .line (substNode ctx.lookup (plainly name)) = _
      rw [substNode_plainly _ hset, placed, hsecurity]
      rfl
    have htext : ctx.lineText (wordAnd word name) = word ++ ' ' :: ctx.shell.quote v := by
      rw [lineText, wordAnd, List.flatMap_cons, List.flatMap_singleton, hquoted, lineNode,
        List.append_assoc, List.singleton_append]
    have hroom : ((wordAnd word name).map ctx.lineRoom).sum = v.length := by
      change 0 + ((substNode ctx.lookup (plainly name)).length + 0) = _
      rw [substNode_plainly _ hset, Nat.zero_add, Nat.add_zero]
    have hline : Region.Line (rawAll (wordAnd word name)) := by
      rw [rawAll_wordAnd]
      exact hword.append (.char (by decide) (Region.line_plainly hname))
    have hclean := clean_wordAnd hplain hname hdepth
    have hsees := exists_calls_of_running hv hc hops hdepth hclean hline
      (by rw [htext, Text.isBlank, List.all_append, ← Text.isBlank, hblank, Bool.false_and])
      (by omega) (by rwa [hraw]) (by rw [hroom]; exact hvalue 0 (Nat.succ_pos _)) s
    rwa [hraw, htext] at hsees

end

/-! ## A value that is not resolved yet -/

/-- The variable `A` is `${B}`, `B` is empty, and a command prints its line. -/
def hollowEcho : Context := { hollow with shell := Script.shell { echo := true } }

/-- The value of `A` is quoted as it is stored, although `${A}` resolves. -/
theorem command_sees_stored_value_hollowEcho :
    ∃ r, hollowEcho.Resolves (hollowEcho.interpolate "${A}".toList) r
      ∧ ∃ later : List Call, (hollowEcho.interpolate "$(echo ${A})".toList {}).2.calls
        = (⟨"echo '${B}'".toList, hollowEcho.commandEnvironment⟩ :: later).toArray := by
  have hset : hollowEcho.lookup ['A'] = some "${B}".toList := lookup_hollow ['A']
  obtain ⟨r, hr, -, hcalls⟩ :=
    @command_sees_stored_value hollowEcho hollowValues hollowRank rfl rfl rfl rfl rfl
      acyclic_hollow (by decide) "echo".toList ['A'] _ (Region.line_of_harmless (by decide))
      (by decide) (by decide) rfl hset 2 (by decide) (by decide) (by decide) (by decide +kernel)
  have hline : "echo".toList ++ ' ' :: hollowEcho.shell.quote "${B}".toList
      = "echo '${B}'".toList := by decide +kernel
  have htext : '$' :: '(' :: ("echo".toList ++ ' ' :: ((plainly ['A']).raw ++ [')']))
      = "$(echo ${A})".toList := by decide
  simp only [hline, htext] at hcalls
  obtain ⟨later, hlater⟩ := hcalls {}
  exact ⟨r, hr, later, hlater.trans Array.empty_append⟩

/-- **A command may see a reference where its value is resolved.** `${A}` resolves to an empty text,
and still `$(echo ${A})` does not run `echo ''`. -/
theorem command_sees_reference :
    Acyclic hollowEcho.lookup 100 hollowValues hollowRank
    ∧ (hollowEcho.interpolate "${A}".toList {}).1.toOption = some { value := [], iterations := 2 }
    ∧ ((hollowEcho.interpolate "$(echo ${A})".toList {}).2.calls.map Call.line)[0]?
      = some "echo '${B}'".toList
    ∧ "echo '${B}'".toList ≠ "echo".toList ++ ' ' :: hollowEcho.shell.quote [] := by
  refine ⟨acyclic_hollow, ?_, ?_, ?_⟩ <;> decide +kernel

end Context
end EnvValues
