import EnvValues.Proofs.Printing

/-!
# Where a command ends

The search for the end of a command finds the first closing parenthesis with a line before
it (`Region.command?_eq_some_iff`). So does the reader, wherever it comes to a dollar and a
parenthesis: at the top of a text and in a fallback alike, the command ends there
(`Grammar.endsAt_iff`), and where there is no such parenthesis it never ends
(`Grammar.neverEnds_iff`). A text `$(c)` is one command to its last character exactly if `c`
is a line.
-/

namespace EnvValues
namespace Node

/-- The text that a command is written as, from its line. -/
def commandText (line : Text) : Text := '$' :: '(' :: (line ++ [')'])

namespace Grammar

/-! ## What the reader makes of it -/

/-- Where a dollar and a parenthesis stand before `t`, a command is read, and its line is
`line`. Going along goes on with `rest`, both at the top of a text and in a fallback. -/
structure EndsAt (g : Grammar) (nodesOf : Nat → Text → List Node) (room : Nat)
    (t line rest : Text) : Prop where
  split : t = line ++ ')' :: rest
  construct : g.construct room ('(' :: t)
    = .node (command (nodesOf room line) (commandText line)) (line.length + 2)
  atTop : ∀ done, sequenceFrom (g.construct room) done 0 ('$' :: '(' :: t)
    = sequenceFrom (g.construct room)
        (command (nodesOf room line) (commandText line) :: done) 0 rest
  inFallback : ∀ done opened n, fallbackFrom (g.construct room) done opened n 0 ('$' :: '(' :: t)
    = fallbackFrom (g.construct room)
        (command (nodesOf room line) (commandText line) :: done) opened
        (n + (commandText line).length) 0 rest

/-- Where a dollar and a parenthesis stand before `t`, a command is begun and not ended. At
the top of a text all that follows becomes text, and a fallback around it does not end
either. -/
structure NeverEnds (g : Grammar) (room : Nat) (t : Text) : Prop where
  construct : g.construct room ('(' :: t) = .unterminated
  atTop : ∀ done, sequenceFrom (g.construct room) done 0 ('$' :: '(' :: t)
    = (lit ('$' :: '(' :: t) :: done).reverse
  inFallback : ∀ done opened n,
    fallbackFrom (g.construct room) done opened n 0 ('$' :: '(' :: t) = none

variable {g : Grammar} {nodesOf : Nat → Text → List Node} {room : Nat} {t line rest : Text}

theorem endsAt_iff (h : g.line = some nodesOf) :
    g.EndsAt nodesOf (room + 1) t line rest ↔ Region.FirstLine t line rest := by
  constructor
  · rintro ⟨rfl, hread, -, -⟩
    cases hk : Region.command? (line ++ ')' :: rest) with
    | none =>
        rw [construct_paren_open h hk] at hread
        cases hread
    | some k =>
        rw [construct_line h hk] at hread
        injection hread with _ hlength
        obtain ⟨u, v, hu, rfl⟩ := Region.command?_eq_some_iff.1 hk
        -- both lines are as long as what the reader took
        obtain ⟨rfl, hv⟩ := List.append_inj hu.split (by omega)
        obtain rfl := (List.cons.inj hv).2
        exact hu
  · intro hline
    have hk : Region.command? t = some (line.length + 1) :=
      Region.command?_eq_some_iff.2 ⟨line, rest, hline, rfl⟩
    obtain rfl := hline.split
    have hread : g.construct (room + 1) ('(' :: (line ++ ')' :: rest))
        = .node (command (nodesOf (room + 1) line) (commandText line)) (line.length + 2) := by
      rw [construct_line h hk, Nat.add_sub_cancel, List.take_left, take_length_add_one]
      rfl
    have hbehind : '(' :: (line ++ ')' :: rest) = ('(' :: (line ++ [')'])) ++ rest := by simp
    refine ⟨rfl, hread, fun done => ?_, fun done opened n => ?_⟩
    · rw [sequenceFrom, if_pos rfl, hread]
      simp only
      rw [sequenceFrom_skip, hbehind, List.drop_left' (by simp)]
    · rw [hbehind] at hread ⊢
      rw [fallbackFrom_node rest (by simpa using hread)]
      congr 1
      simp [commandText]
      omega

theorem neverEnds_iff (h : g.line = some nodesOf) :
    g.NeverEnds (room + 1) t ↔ Region.Lineless t := by
  rw [← Region.command?_eq_none_iff]
  constructor
  · rintro ⟨hread, -, -⟩
    cases hk : Region.command? t with
    | none => rfl
    | some k =>
        rw [construct_line h hk] at hread
        cases hread
  · intro hk
    have hread : g.construct (room + 1) ('(' :: t) = .unterminated := construct_paren_open h hk
    refine ⟨hread, fun done => ?_, fun done opened n => ?_⟩
    · rw [sequenceFrom, if_pos rfl, hread]
    · rw [fallbackFrom.eq_def]
      simp only [if_true, hread]

/-- **A command alone is one with a line.** -/
theorem nodes_commandText_iff (h : g.line = some nodesOf) {ns : List Node} {raw : Text} :
    g.nodes (room + 1) (commandText line) = [command ns raw] ↔
      Region.Line line ∧ ns = nodesOf (room + 1) line ∧ raw = commandText line := by
  constructor
  · intro hnodes
    -- what is read as one node is read to its end
    have hraw : raw = commandText line := by
      have hall := rawAll_nodes g (room + 1) (commandText line)
      rwa [hnodes, rawAll_singleton, Node.raw] at hall
    have hmem : command ns raw ∈ sequence (g.construct (room + 1)) (commandText line) := by
      refine mem_of_mem_join ?_ rfl
      rw [← nodes, hnodes]
      exact List.mem_singleton_self _
    cases hk : Region.command? (line ++ [')']) with
    | none =>
        rw [commandText, sequence_unterminated (construct_paren_open h hk),
          List.mem_singleton] at hmem
        cases hmem
    | some k =>
        obtain ⟨u, v, hu, rfl⟩ := Region.command?_eq_some_iff.1 hk
        have hends : g.EndsAt nodesOf (room + 1) (line ++ [')']) u v := (endsAt_iff h).2 hu
        rw [nodes, commandText, sequence_node hends.construct, join_cons,
          cons_of_not_lit rfl] at hnodes
        obtain ⟨hn, -⟩ := List.cons.inj hnodes
        injection hn with hns hu'
        have hline : u = line := by simpa [commandText] using hu'.trans hraw
        exact ⟨hline ▸ hu.isLine, hline ▸ hns.symm, hraw⟩
  · rintro ⟨hline, rfl, rfl⟩
    have hends : g.EndsAt nodesOf (room + 1) (line ++ [')']) line [] :=
      (endsAt_iff h).2 (hline.firstLine [])
    rw [nodes, commandText, sequence_node hends.construct, join_cons, cons_of_not_lit rfl,
      List.drop_of_length_le (by simp)]
    rfl

end Grammar

/-- **Commands end where their grammar says.** With commands on, a text `$(c)` is one command
to its last character exactly if `c` is a line, and its nodes are those of the line. Wherever
a dollar and a parenthesis are come to with room left, at the top of a text or in a fallback,
the command ends at the first closing parenthesis with a line before it, and it never ends
exactly if there is none. -/
theorem commands_end_at_first_line {f : Features} (hc : f.commands = true) (bareNames : Bool) :
    (∀ (depth : Int), 1 ≤ depth → ∀ (c : Text) (ns : List Node) (raw : Text),
      parse f bareNames depth (commandText c) = [command ns raw] ↔
        Region.Line c ∧ ns = (Grammar.ofLine f.references).nodes depth.toNat c
          ∧ raw = commandText c)
    ∧ ∀ (room : Nat) (t : Text),
      (∀ line rest, (Grammar.ofValue f.references f.commands bareNames).EndsAt
          (Grammar.ofLine f.references).nodes (room + 1) t line rest ↔
        Region.FirstLine t line rest)
      ∧ ((Grammar.ofValue f.references f.commands bareNames).NeverEnds (room + 1) t ↔
        Region.Lineless t) := by
  have hline : (Grammar.ofValue f.references f.commands bareNames).line
      = some (Grammar.ofLine f.references).nodes := by
    rw [hc]
    rfl
  refine ⟨fun depth hd c ns raw => ?_, fun room t => ⟨fun line rest => ?_, ?_⟩⟩
  · obtain ⟨room, hroom⟩ : ∃ room, depth.toNat = room + 1 := ⟨depth.toNat - 1, by omega⟩
    rw [parse, hroom]
    exact Grammar.nodes_commandText_iff hline
  · exact Grammar.endsAt_iff hline
  · exact Grammar.neverEnds_iff hline

/-- A line with closing parentheses that do not end it: one that is protected, one between quotes of
either kind, and one that closes another. -/
def guardedLine : Text := "a\\)'\\)'\"\\\")\"(b)${A}".toList

/-- A line that is not ended, since its quote is not closed. -/
def quoteOpen : Text := "a 'b)".toList

/-- The command ends behind its line, whatever follows, and not inside. Where a quote is open it
does not end. -/
theorem commands_end_at_first_line_guarded :
    parse {} true 1 (commandText guardedLine)
      = [command [lit "a\\)'\\)'\"\\\")\"(b)".toList, ref ['A'] "${A}".toList none none]
          (commandText guardedLine)]
    ∧ (Grammar.ofValue true true true).EndsAt (Grammar.ofLine true).nodes 1
        (guardedLine ++ ')' :: " b)".toList) guardedLine " b)".toList
    ∧ (Grammar.ofValue true true true).NeverEnds 1 quoteOpen := by
  obtain ⟨halone, hends⟩ := commands_end_at_first_line (f := {}) rfl true
  have hline : Region.Line guardedLine := by decide +kernel
  have hnone : Region.command? quoteOpen = none := by decide +kernel
  refine ⟨(halone 1 (by decide) _ _ _).2 ⟨hline, rfl, rfl⟩, ?_, ?_⟩
  · exact ((hends 0 _).1 _ _).2 (hline.firstLine _)
  · exact (hends 0 _).2.2 (Region.command?_eq_none_iff.1 hnone)

end Node
end EnvValues
