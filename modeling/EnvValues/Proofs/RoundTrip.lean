import EnvValues.Proofs.Printing
import EnvValues.Proofs.Shape
import EnvValues.Proofs.SourceText

/-!
# Reading undoes writing

`Printed` is what a sequence of nodes has to satisfy, at every depth, to be read where
it is written: names are names, literals hold no dollars, the braces of a fallback are
balanced and the line of a command is a line, and nothing is nested too deep. A printed
sequence is read as itself, with literals that touch joined (`nodes_printed`).

A **canonical** sequence has no literals that touch, so reading gives it back as it is.
The induction is on the room for nesting: a fallback is read with less of it, and what
stands behind the fallback does not matter.
-/

namespace EnvValues
namespace Node

/-- Is a reference written without braces? -/
def isBare : Node → Bool
  | ref _ raw _ _ => !isBraced raw
  | _ => false

/-- Does no name behind a bare reference go on in what is written behind it? -/
def Apart : List Node → Prop
  | [] => True
  | n :: ns => (n.isBare = true → ∀ c ∈ (rawAll ns).head?, Name.isPart c = false) ∧ Apart ns

/-- A reference written so that it is read where it stands. -/
structure RefPrinted (depth : Int) (around : Nat) (inLine : Bool) (name raw : Text)
    (op : Option Operator) (fallback : Option (List Node)) : Prop where
  spelled : Spelled (ref name raw op fallback)
  name : Name.isName name = true
  braced : inLine = true → isBraced raw = true
  within : isBraced raw = true → (around : Int) < depth
  balanced : ∀ f ∈ fallback, Region.Balanced (literalText f)

/-- A node written so that it is read where it stands: a literal without dollars, a
reference or, outside of command lines, a command. -/
def NodePrinted (depth : Int) (around : Nat) (inLine : Bool) : Node → Prop
  | lit t => '$' ∉ t
  | ref name raw op fallback => RefPrinted depth around inLine name raw op fallback
  | command line raw => Spelled (command line raw) ∧ inLine = false ∧ (around : Int) < depth
      ∧ Region.Line (rawAll line)
  | group _ => False
  | nothing => False

theorem NodePrinted.spelled {depth : Int} {around : Nat} {inLine : Bool} {n : Node}
    (h : NodePrinted depth around inLine n) : Spelled n := by
  cases n with
  | lit t => trivial
  | ref name raw op fallback => exact RefPrinted.spelled h
  | command line raw => exact h.1
  | group ns => exact h.elim
  | nothing => exact h.elim

/-- A reference between braces, with no operator, may stand wherever there is room. -/
theorem nodePrinted_braced {depth : Int} {around : Nat} {inLine : Bool} {name : Text}
    (hname : Name.isName name = true) (hwithin : (around : Int) < depth) :
    NodePrinted depth around inLine (ref name ('$' :: '{' :: (name ++ ['}'])) none none) :=
  ⟨Or.inr rfl, hname, fun _ => rfl, fun _ => hwithin, by simp⟩

/-- A sequence written so that it is read as itself. -/
structure Printed (depth : Int) (around : Nat) (inLine : Bool) (ns : List Node) : Prop where
  node : ∀ n ∈ ns, NodePrinted depth around inLine n
  apart : Apart ns

namespace Grammar

/-- Does a grammar read what is printed in a place? -/
structure Suits (g : Grammar) (depth : Int) (inLine : Bool) : Prop where
  references : g.references = true
  bareNames : inLine = false → g.bareNames = true
  line : inLine = false → ∃ line, g.line = some line ∧ ∀ room, room ≤ depth.toNat → ∀ ns,
    Everywhere (Printed depth) (depth.toNat - room) true ns → line room (rawAll ns) = joinedAll ns

variable {g : Grammar} {depth : Int} {inLine : Bool} {room : Nat}

/-- Do fallbacks give back their pieces, with so much room? -/
def ReadsFallbacks (g : Grammar) (depth : Int) (inLine : Bool) (room : Nat) : Prop :=
  ∀ ns t, Everywhere (Printed depth) (depth.toNat - room) inLine ns →
    Region.Balanced (literalText ns) →
    fallback? (g.construct room) (rawAll ns ++ '}' :: t) = some (pieces ns, (rawAll ns).length + 1)

/-- Below the limit, there is room. -/
theorem exists_room (hroom : room ≤ depth.toNat)
    (h : ((depth.toNat - room : Nat) : Int) < depth) : ∃ r, room = r + 1 := by
  cases room with
  | zero => omega
  | succ r => exact ⟨r, rfl⟩

/-- **A printed node is read where it stands**, whatever stands behind it. -/
theorem construct_printed (hg : g.Suits depth inLine) (hroom : room ≤ depth.toNat)
    (ih : ∀ r, r < room → g.ReadsFallbacks depth inLine r) {n : Node} {t : Text}
    (hn : NodePrinted depth (depth.toNat - room) inLine n)
    (hin : Inside (Printed depth) (depth.toNat - room) inLine n) (hl : n.isLit = false)
    (ht : n.isBare = true → ∀ c ∈ t.head?, Name.isPart c = false) :
    ∃ u, n.raw = '$' :: u ∧ g.construct room (u ++ t) = .node (joined n) u.length := by
  cases n with
  | lit t => exact nomatch hl
  | group ns => exact hn.elim
  | nothing => exact hn.elim
  | command line raw =>
      obtain ⟨hraw, hplace, hwithin, hline⟩ := hn
      obtain ⟨r, rfl⟩ := exists_room hroom hwithin
      obtain ⟨read, hread, hlines⟩ := hg.line hplace
      refine ⟨'(' :: (rawAll line ++ [')']), hraw, ?_⟩
      have happ : ('(' :: (rawAll line ++ [')'])) ++ t = '(' :: (rawAll line ++ ')' :: t) := by simp
      have hinner : read (r + 1) (rawAll line) = joinedAll line :=
        hlines (r + 1) hroom line (inside_command.1 hin)
      rw [happ, construct_line hread (Region.command?_line hline t), take_length_add_one,
        Nat.add_sub_cancel, List.take_left, hinner, joined_command, hraw]
      simp
  | ref name raw op fallback =>
      obtain ⟨hraw, hname, hplace, hwithin, hbal⟩ := hn
      cases op with
      | none =>
          cases fallback with
          | some f => exact hraw.elim
          | none =>
            rcases hraw with hraw | hraw
            · -- without braces
              have hbare : isBraced raw = false := hraw ▸ isBraced_bare hname
              have hout : inLine = false := by
                cases inLine with
                | false => rfl
                | true => rw [hplace rfl] at hbare; exact nomatch hbare
              have hnext := ht (by simp [isBare, hbare])
              refine ⟨name, hraw, ?_⟩
              rw [construct_bare hg.references (hg.bareNames hout) hname hnext, joined_ref_none,
                hraw]
            · -- with braces
              obtain ⟨r, rfl⟩ := exists_room hroom (hwithin (hraw ▸ rfl))
              refine ⟨'{' :: (name ++ ['}']), hraw, ?_⟩
              have happ : ('{' :: (name ++ ['}'])) ++ t = '{' :: (name ++ '}' :: t) := by simp
              rw [happ, construct_braced hg.references hname, joined_ref_none, hraw]
              simp
      | some op =>
          cases fallback with
          | none => exact hraw.elim
          | some f =>
            -- with an operator and a fallback
            obtain ⟨r, rfl⟩ := exists_room hroom (hwithin (hraw ▸ rfl))
            refine ⟨'{' :: (name ++ (op.token ++ (rawAll f ++ ['}']))), hraw, ?_⟩
            have happ : ('{' :: (name ++ (op.token ++ (rawAll f ++ ['}'])))) ++ t
                = '{' :: (name ++ (op.token ++ (rawAll f ++ '}' :: t))) := by simp
            have hinner : Everywhere (Printed depth) (depth.toNat - r) inLine f := by
              have := inside_ref_some.1 hin
              rwa [show depth.toNat - (r + 1) + 1 = depth.toNat - r by omega] at this
            have hf := ih r (Nat.lt_succ_self r) f t hinner (hbal f rfl)
            rw [happ, construct_fallback hg.references hname hf, take_length_add_one, join_pieces,
              joined_ref_some, hraw]
            simp only [List.length_cons, List.length_append, List.length_nil]
            congr 1
            omega

/-- Printed nodes read back, if no name goes on behind them. -/
theorem readsBack_of_printed (hg : g.Suits depth inLine) (hroom : room ≤ depth.toNat)
    (ih : ∀ r, r < room → g.ReadsFallbacks depth inLine r) {tail : Text}
    (ht : ∀ c ∈ tail.head?, Name.isPart c = false) :
    ∀ ns : List Node, (∀ n ∈ ns, NodePrinted depth (depth.toNat - room) inLine n) →
      (∀ n ∈ ns, Inside (Printed depth) (depth.toNat - room) inLine n) → Apart ns →
      ReadsBack (g.construct room) tail ns
  | [], _, _, _ => .nil
  | n :: ns, hn, hin, hap => by
      obtain ⟨hn, hns⟩ := List.forall_mem_cons.1 hn
      obtain ⟨hin, hins⟩ := List.forall_mem_cons.1 hin
      have hrest := readsBack_of_printed hg hroom ih ht ns hns hins hap.2
      cases hl : n.isLit with
      | true =>
          obtain ⟨t, rfl⟩ := exists_lit_of_isLit hl
          exact .lit hn hrest
      | false =>
          have hnext : n.isBare = true →
              ∀ c ∈ (rawAll ns ++ tail).head?, Name.isPart c = false := by
            intro hb c hc
            rw [List.head?_append] at hc
            rcases Option.or_eq_some_iff.1 hc with hc | ⟨-, hc⟩
            · exact hap.1 hb c hc
            · exact ht c hc
          obtain ⟨u, hraw, hread⟩ :=
            construct_printed hg hroom ih hn hin hl hnext
          exact .node hl hraw hread hrest

/-- **Printed fallbacks give back their pieces.** -/
theorem readsFallbacks_of_suits (hg : g.Suits depth inLine) :
    ∀ room, room ≤ depth.toNat → g.ReadsFallbacks depth inLine room := by
  -- on the room: the fallbacks in a fallback are read with less of it
  intro room
  induction room using Nat.strongRecOn with
  | ind room ih =>
    intro hroom ns t hns hbal
    refine ReadsBack.fallback? ?_ hbal
    refine readsBack_of_printed hg hroom (fun r hr => ih r hr (by omega)) ?_ ns hns.1.node hns.2
      hns.1.apart
    simp [Name.isPart]

/-- **A printed sequence is read as itself**, with literals that touch joined. -/
theorem nodes_printed (hg : g.Suits depth inLine) (hroom : room ≤ depth.toNat) {ns : List Node}
    (hns : Everywhere (Printed depth) (depth.toNat - room) inLine ns) :
    g.nodes room (rawAll ns) = joinedAll ns := by
  have hback : ReadsBack (g.construct room) [] ns :=
    readsBack_of_printed hg hroom
      (fun r hr => readsFallbacks_of_suits hg r (by omega)) (by simp) ns hns.1.node hns.2
      hns.1.apart
  rw [nodes, hback.sequence, join_pieces]

/-- What is printed in command lines is read wherever there are variables. -/
theorem suits_of_references (hv : g.references = true) : g.Suits depth true :=
  ⟨hv, nofun, nofun⟩

/-- With all syntax enabled, the grammar of values reads what is printed in them. -/
theorem suits_ofValue (depth : Int) : (ofValue true true true).Suits depth false := by
  refine ⟨rfl, fun _ => rfl, fun _ => ⟨_, rfl, ?_⟩⟩
  exact fun room hroom ns hns => nodes_printed (suits_of_references rfl) hroom hns

end Grammar

/-! ## Canonical sequences -/

/-- Does no bare reference stand in front of a literal that goes on with its name? -/
def BareEnds : List Node → Prop
  | [] => True
  | n :: ns =>
    (n.isBare = true → ∀ t, ns.head? = some (lit t) → ∀ c ∈ t.head?, Name.isPart c = false)
      ∧ BareEnds ns

/-- A canonical sequence: literals are separated, nodes are printed, and a bare reference
does not stand in front of a literal that goes on with its name. -/
structure Canonical (depth : Int) (around : Nat) (inLine : Bool) (ns : List Node) : Prop where
  separated : Separated ns
  node : ∀ n ∈ ns, NodePrinted depth around inLine n
  bareEnds : BareEnds ns

/-- Behind a node, text of a name can only come from a literal. -/
theorem apart_of_bareEnds {depth : Int} {around : Nat} {inLine : Bool} {ns : List Node}
    (hs : Separated ns) (hn : ∀ n ∈ ns, NodePrinted depth around inLine n) (hb : BareEnds ns) :
    Apart ns := by
  induction ns with
  | nil => trivial
  | cons n ns ih =>
      obtain ⟨-, hns⟩ := List.forall_mem_cons.1 hn
      refine ⟨fun hbare c hc => ?_, ih hs.2 hns hb.2⟩
      cases ns with
      | nil => simp at hc
      | cons m ns =>
          rw [rawAll_cons] at hc
          cases hl : m.isLit with
          | true =>
              -- the literal is not empty, so its first character is the one
              obtain ⟨t, rfl⟩ := exists_lit_of_isLit hl
              have hne : t ≠ [] := (hs.2.1 rfl).1
              obtain ⟨d, u, rfl⟩ := List.exists_cons_of_ne_nil hne
              exact hb.1 hbare (d :: u) rfl c hc
          | false =>
              have hm : NodePrinted depth around inLine m := hns m List.mem_cons_self
              obtain ⟨u, hu⟩ := hm.spelled.raw_eq_cons hl
              rw [hu] at hc
              obtain rfl := Option.some.inj hc
              decide

theorem Canonical.printed {depth : Int} {around : Nat} {inLine : Bool} {ns : List Node}
    (h : Canonical depth around inLine ns) : Printed depth around inLine ns :=
  ⟨h.node, apart_of_bareEnds h.separated h.node h.bareEnds⟩

/-- **Reading undoes writing.** A canonical tree is read back from what it is written
as, for every limit that it keeps to. -/
theorem parse_rawAll_of_canonical (depth : Int) (ns : List Node)
    (h : Everywhere (Canonical depth) 0 false ns) : parse {} true depth (rawAll ns) = ns := by
  have hprinted : Everywhere (Printed depth) (depth.toNat - depth.toNat) false ns := by
    rw [Nat.sub_self]
    exact h.mono fun _ _ _ hc => hc.printed
  calc parse {} true depth (rawAll ns)
      = joinedAll ns :=
        Grammar.nodes_printed (Grammar.suits_ofValue depth) (Nat.le_refl _) hprinted
    _ = ns := joinedAll_of_separated (h.mono fun _ _ _ hc => hc.separated)

/-- The nodes of `d ')' ${C}`. -/
def mixedLine : List Node :=
  [lit "d ')' ".toList, ref ['C'] "${C}".toList none none]

/-- The nodes of `{${C}}$(d ')' ${C})`. -/
def mixedFallback : List Node :=
  [lit ['{'], ref ['C'] "${C}".toList none none, lit ['}'],
    command mixedLine ('$' :: '(' :: (rawAll mixedLine ++ [')']))]

/-- The nodes of `$A.${B:-{${C}}$(d ')' ${C})}`, which has one of every kind. -/
def mixedTree : List Node :=
  [ref ['A'] "$A".toList none none, lit ['.'],
    ref ['B'] ('$' :: '{' :: 'B' :: ':' :: '-' :: (rawAll mixedFallback ++ ['}']))
      (some ⟨.otherwise, true⟩) (some mixedFallback)]

theorem canonical_mixedLine : Everywhere (Canonical 2) 1 true mixedLine := by
  refine ⟨⟨by simp [mixedLine, Separated, isLit, raw], ?_, by simp [mixedLine, BareEnds, isBare]⟩,
    by simp [mixedLine]⟩
  simp only [mixedLine, List.mem_cons, List.not_mem_nil, or_false, forall_eq_or_imp, forall_eq]
  exact ⟨by simp [NodePrinted], nodePrinted_braced rfl (by decide)⟩

/-- The line has a parenthesis, between quotes. -/
theorem line_mixedLine : Region.Line (rawAll mixedLine) := by
  refine .char (by decide) (.char (by decide) (.single (u := [')']) (by decide) ?_))
  exact .char (by decide) (.char (by decide) (.char (by decide) (.char (by decide)
    (.char (by decide) .nil))))

theorem canonical_mixedFallback : Everywhere (Canonical 2) 1 false mixedFallback := by
  refine ⟨⟨by simp [mixedFallback, Separated, isLit, raw], ?_,
    by simp [mixedFallback, BareEnds, isBare, isBraced]⟩,
    by simpa [mixedFallback] using canonical_mixedLine⟩
  simp only [mixedFallback, List.mem_cons, List.not_mem_nil, or_false, forall_eq_or_imp, forall_eq]
  exact ⟨by simp [NodePrinted], nodePrinted_braced rfl (by decide), by simp [NodePrinted],
    rfl, rfl, by decide, line_mixedLine⟩

theorem canonical_mixedTree :
    Everywhere (Canonical 2) 0 false mixedTree ∧
      parse {} true 2 (rawAll mixedTree) = mixedTree := by
  have htree : Everywhere (Canonical 2) 0 false mixedTree := by
    refine ⟨⟨by simp [mixedTree, Separated, isLit, raw], ?_,
      by simp [mixedTree, BareEnds, Name.isPart]⟩,
      by simpa [mixedTree] using canonical_mixedFallback⟩
    simp only [mixedTree, List.mem_cons, List.not_mem_nil, or_false, forall_eq_or_imp, forall_eq]
    refine ⟨⟨Or.inl rfl, rfl, by simp, by simp [isBraced], by simp⟩, by simp [NodePrinted],
      ⟨rfl, rfl, by simp, fun _ => by decide, ?_⟩⟩
    rintro f ⟨⟩
    decide
  exact ⟨htree, parse_rawAll_of_canonical 2 mixedTree htree⟩

end Node
end EnvValues
