import EnvValues.Interpolation
import EnvValues.Proofs.Locality
import EnvValues.Proofs.Shape
import EnvValues.Shell.Scripted

/-!
# Braced regions that are kept

With references off, a braced region is kept as it is written, and the search for its end counts
every brace. With references on, the same region is a reference whose fallback is read, and a
command in the fallback is stepped over as a whole, braces and all. The two do not find the same
end where a command closes a brace that it did not open: **the kept region ends inside the
command, and what follows in the reference is read, and run, as if it stood outside**
(`kept_region_spills`).

That is all that can go wrong. Where every command closes its own braces only (`ClosesOwn`), the
count is never lower than the number of braces that the reader has open, so that a kept region
ends where the reference does, or later: **no command starts inside of a reference**
(`no_command_inside_reference`).
-/

namespace EnvValues
namespace Node

/-! ## What closes its own braces -/

def isCommand : Node → Bool
  | command _ _ => true
  | _ => false

/-- Every command among the nodes closes only braces that it opened. -/
def CommandsCloseOwn : Placed := fun _ _ ns =>
  ∀ n ∈ ns, n.isCommand = true → Region.ClosesOwn n.raw

instance (around : Nat) (inLine : Bool) (ns : List Node) :
    Decidable (CommandsCloseOwn around inLine ns) :=
  inferInstanceAs (Decidable (∀ n ∈ ns, n.isCommand = true → Region.ClosesOwn n.raw))

section
variable {a : Nat} {l : Bool}

/-- A piece has in it what the joined pieces have. -/
theorem everywhere_singleton_of_join {ps : List Node}
    (h : Everywhere CommandsCloseOwn a l (join ps)) {n : Node} (hn : n ∈ ps) :
    Everywhere CommandsCloseOwn a l [n] := by
  cases hl : n.isLit with
  | true =>
      obtain ⟨t, rfl⟩ := exists_lit_of_isLit hl
      refine ⟨fun m hm hc => ?_, fun m hm => ?_⟩
      · obtain rfl := List.mem_singleton.1 hm
        cases hc
      · obtain rfl := List.mem_singleton.1 hm
        exact inside_lit t
  | false =>
      have hjoin := mem_join_of_mem hn hl
      refine ⟨fun m hm hc => ?_, fun m hm => ?_⟩
      · obtain rfl := List.mem_singleton.1 hm
        exact h.1 _ hjoin hc
      · obtain rfl := List.mem_singleton.1 hm
        exact h.2 _ hjoin

variable {read : Text → Construct}

/-- Where every node that is read closes only its own braces, a fallback does too: the reader
steps over nodes and counts the braces between them. -/
theorem fallbackFrom_closesOwn {done qs : List Node} {opened n k skip : Nat} {t : Text}
    (h : fallbackFrom read done opened n skip t = some (qs, k)) :
    ∃ ps, qs = done.reverse ++ ps
      ∧ ((∀ u m j, read u = .node m j → m ∈ ps → Region.ClosesOwn m.raw) →
        ∃ d, Region.balanceFrom opened (rawAll ps) = some d) := by
  fun_induction fallbackFrom read done opened n skip t with
  | case1 => cases h
  | case2 done opened n skip c t ih => exact ih h
  | case3 done opened n t hr ih =>
      obtain ⟨ps, hq, hd⟩ := ih h
      refine ⟨lit ['$'] :: ps, by simp [hq], fun hread => ?_⟩
      rw [rawAll_cons, raw, List.singleton_append,
        Region.balanceFrom_char (by decide) (by decide)]
      exact hd fun u m j hu hm => hread u m j hu (List.mem_cons_of_mem _ hm)
  | case4 => cases h
  | case5 done opened n t m taken hr ih =>
      obtain ⟨ps, hq, hd⟩ := ih h
      refine ⟨m :: ps, by simp [hq], fun hread => ?_⟩
      obtain ⟨e, hfirst⟩ := (hread t m taken hr List.mem_cons_self).exists_balanceFrom opened
      obtain ⟨d', hrest⟩ := hd fun u m j hu hm => hread u m j hu (List.mem_cons_of_mem _ hm)
      -- braces that the node leaves open come on top of those the reader counts
      refine ⟨d' + e, ?_⟩
      rw [rawAll_cons, Region.balanceFrom_append, hfirst, Option.bind_some]
      exact Region.balanceFrom_add hrest e
  | case6 done opened n t _ ih =>
      obtain ⟨ps, hq, hd⟩ := ih h
      refine ⟨lit ['{'] :: ps, by simp [hq], fun hread => ?_⟩
      rw [rawAll_cons, raw, List.singleton_append, Region.balanceFrom]
      exact hd fun u m j hu hm => hread u m j hu (List.mem_cons_of_mem _ hm)
  | case7 done n t _ _ =>
      injection h with h
      injection h with hq hk
      exact ⟨[], by simp [hq], fun _ => ⟨0, by simp [Region.balanceFrom]⟩⟩
  | case8 done n t m _ _ ih =>
      obtain ⟨ps, hq, hd⟩ := ih h
      refine ⟨lit ['}'] :: ps, by simp [hq], fun hread => ?_⟩
      rw [rawAll_cons, raw, List.singleton_append, Region.balanceFrom]
      exact hd fun u m j hu hm => hread u m j hu (List.mem_cons_of_mem _ hm)
  | case9 done opened n c t hc hopen hclose ih =>
      obtain ⟨ps, hq, hd⟩ := ih h
      refine ⟨lit [c] :: ps, by simp [hq], fun hread => ?_⟩
      rw [rawAll_cons, raw, List.singleton_append, Region.balanceFrom_char hopen hclose]
      exact hd fun u m j hu hm => hread u m j hu (List.mem_cons_of_mem _ hm)

end

/-- What is kept is enclosed. -/
theorem enclosed_of_kept {t : Text} {n : Node} {k : Nat} (h : kept t = .node n k) :
    Region.Enclosed n.raw := by
  unfold kept at h
  split at h
  · cases h
  · next j hj =>
    obtain ⟨inner, rest, rfl, hlength, hinner⟩ := Region.exists_balanceFrom_of_bracedFrom hj
    injection h with hn hk
    subst hn
    refine ⟨inner, ?_, Region.closesOwn_iff.2 ⟨0, hinner⟩⟩
    rw [raw, hlength, Nat.zero_add, Grammar.take_length_add_one]

/-- A reference is enclosed if its fallback closes only its own braces. -/
theorem enclosed_of_braced {g : Grammar} {room : Nat} {name after t : Text} {n : Node} {k : Nat}
    (hname : Name.isName name = true) (ht : t = name ++ after)
    (h : braced (fun u => g.construct room u) name after t = .node n k)
    (hfallback : ∀ op pieces j, n = ref name n.raw (some op) (some (join pieces)) →
      fallback? (fun u => g.construct room u) (after.drop op.token.length) = some (pieces, j) →
      Region.ClosesOwn (rawAll pieces)) :
    Region.Enclosed n.raw := by
  have hnamed : Region.balanceFrom 0 name = some 0 := balanceFrom_name hname 0
  unfold braced at h
  split at h
  · next rest =>
    injection h with hn hk
    subst hn ht
    refine ⟨name, ?_, Region.closesOwn_iff.2 ⟨0, hnamed⟩⟩
    rw [raw, Grammar.take_length_add_one]
  · split at h
    · exact enclosed_of_kept h
    · next op hop =>
      split at h
      · cases h
      · next pieces j hf =>
        injection h with hn hk
        subst hn
        obtain ⟨d, hd⟩ := Region.closesOwn_iff.1 (hfallback op pieces j rfl hf)
        have htoken : Region.balanceFrom 0 op.token = some 0 := balanceFrom_token op
        -- the fallback is its pieces, and a brace behind them
        obtain ⟨rest, hs, hj⟩ := fallback?_scans hf
        have hafter := Operator.eq_append_of_leading? hop
        have hpieces := hs.eq_append
        rw [hpieces] at hafter hj
        have hsplit : t = (name ++ (op.token ++ rawAll pieces)) ++ '}' :: rest := by
          rw [ht, hafter]
          simp only [List.append_assoc]
        have hlength : name.length + op.token.length + j
            = (name ++ (op.token ++ rawAll pieces)).length + 1 := by
          simp only [List.length_append, List.length_cons] at hj ⊢
          omega
        refine ⟨name ++ (op.token ++ rawAll pieces), ?_, Region.closesOwn_iff.2 ⟨d, ?_⟩⟩
        · rw [raw, hlength, hsplit, Grammar.take_length_add_one]
        · rw [Region.balanceFrom_append, hnamed, Option.bind_some, Region.balanceFrom_append,
            htoken, Option.bind_some, hd]

section
variable {g : Grammar} {room a : Nat} {l : Bool} {t : Text} {n : Node} {k : Nat}

/-- What is between braces is enclosed, if the nodes of fallbacks close only their own braces. -/
theorem enclosed_of_construct_open
    (hread : ∀ {u : Text} {m : Node} {j : Nat}, g.construct room u = .node m j →
      Everywhere CommandsCloseOwn (a + 1) l [m] → Region.ClosesOwn m.raw)
    (h : g.construct (room + 1) ('{' :: t) = .node n k) (hn : Everywhere CommandsCloseOwn a l [n]) :
    Region.Enclosed n.raw := by
  rcases g.kept_or_reference t with hkept | ⟨name, after, hv, hname⟩
  · rw [Grammar.construct_kept hkept] at h
    exact enclosed_of_kept h
  · rw [Grammar.construct_reference hv hname] at h
    refine enclosed_of_braced (Name.isName_of_leading? hname) (Name.eq_append_of_leading? hname) h
      fun op pieces j hnode hf => ?_
    -- the nodes of the fallback have one reference more around them
    have hinner : Everywhere CommandsCloseOwn (a + 1) l (join pieces) := by
      have hinside := hn.2 n List.mem_cons_self
      rwa [hnode, inside_ref_some] at hinside
    obtain ⟨ps, hps, hd⟩ := fallbackFrom_closesOwn hf
    rw [List.reverse_nil, List.nil_append] at hps
    subst hps
    exact Region.closesOwn_iff.2 (hd fun u m j hu hm =>
      hread hu (everywhere_singleton_of_join hinner hm))

/-- What is not between braces closes only its own braces, if the commands do. -/
theorem closesOwn_of_construct_other (hhead : t.head? ≠ some '{')
    (h : g.construct room t = .node n k) (hn : Everywhere CommandsCloseOwn a l [n]) :
    Region.ClosesOwn n.raw := by
  have hr := Grammar.reads_drop_of_construct h
  generalize t.drop k = rest at hr
  cases hr with
  | kept => exact absurd rfl hhead
  | braced => exact absurd rfl hhead
  | fallback => exact absurd rfl hhead
  | line => exact hn.1 _ List.mem_cons_self rfl
  | @bare _ name _ _ _ hname =>
      refine Region.closesOwn_iff.2 ⟨0, Region.balanceFrom_of_not_mem ?_ ?_⟩
      · exact List.not_mem_cons_of_ne_of_not_mem (by decide) (Name.not_mem_of_isName hname rfl)
      · exact List.not_mem_cons_of_ne_of_not_mem (by decide) (Name.not_mem_of_isName hname rfl)

end

/-- **Where commands close only their own braces, every node does.** -/
theorem closesOwn_of_construct {g : Grammar} {room : Nat} :
    ∀ {a : Nat} {l : Bool} {t : Text} {n : Node} {k : Nat}, g.construct room t = .node n k →
      Everywhere CommandsCloseOwn a l [n] → Region.ClosesOwn n.raw := by
  -- on the room: the nodes of a fallback were read with less of it
  induction room with
  | zero =>
      intro a l t n k h hn
      refine closesOwn_of_construct_other (fun hhead => ?_) h hn
      obtain ⟨u, rfl⟩ := List.head?_eq_some_iff.1 hhead
      rw [Grammar.construct_open_zero] at h
      cases h
  | succ room ih =>
      intro a l t n k h hn
      by_cases hhead : t.head? = some '{'
      · obtain ⟨u, rfl⟩ := List.head?_eq_some_iff.1 hhead
        exact (enclosed_of_construct_open ih h hn).closesOwn
      · exact closesOwn_of_construct_other hhead h hn

/-! ## Where nodes stand -/

/-- Where nodes of a kind start and end, in a sequence that starts there. -/
def spans (kind : Node → Bool) : (start : Nat) → List Node → List (Nat × Nat)
  | _, [] => []
  | start, n :: ns =>
    let rest := spans kind (start + n.raw.length) ns
    if kind n then (start, start + n.raw.length) :: rest else rest

/-- Is the node a reference between braces? -/
def isBracedReference : Node → Bool
  | ref _ raw _ _ => isBraced raw
  | _ => false

section
variable {kind : Node → Bool} {start : Nat} {n : Node} {ns : List Node}

theorem spans_cons_of_true (h : kind n = true) : spans kind start (n :: ns)
    = (start, start + n.raw.length) :: spans kind (start + n.raw.length) ns := by
  simp only [spans, h, if_true]

theorem spans_cons_of_false (h : kind n = false) :
    spans kind start (n :: ns) = spans kind (start + n.raw.length) ns := by
  simp only [spans, h, Bool.false_eq_true, if_false]

theorem le_of_mem_spans {r : Nat × Nat} (h : r ∈ spans kind start ns) : start ≤ r.1 := by
  induction ns generalizing start with
  | nil => cases h
  | cons n ns ih =>
      cases hk : kind n with
      | true =>
          rw [spans_cons_of_true hk] at h
          rcases List.mem_cons.1 h with rfl | h
          · exact Nat.le_refl _
          · exact Nat.le_trans (Nat.le_add_right _ _) (ih h)
      | false =>
          rw [spans_cons_of_false hk] at h
          exact Nat.le_trans (Nat.le_add_right _ _) (ih h)

theorem spans_append (ms : List Node) : spans kind start (ns ++ ms)
    = spans kind start ns ++ spans kind (start + (rawAll ns).length) ms := by
  induction ns generalizing start with
  | nil => rfl
  | cons n ns ih =>
      have hlength : start + (rawAll (n :: ns)).length
          = start + n.raw.length + (rawAll ns).length := by
        rw [rawAll_cons, List.length_append, Nat.add_assoc]
      rw [List.cons_append, hlength]
      cases hk : kind n with
      | true => rw [spans_cons_of_true hk, spans_cons_of_true hk, ih, List.cons_append]
      | false => rw [spans_cons_of_false hk, spans_cons_of_false hk, ih]

/-- Literals stand for themselves, however they are joined. -/
theorem spans_consNode (hlit : ∀ t, kind (lit t) = false) :
    spans kind start (cons n ns) = spans kind start (n :: ns) := by
  fun_cases cons n ns with
  | case1 ns =>
      rw [spans_cons_of_false (hlit [])]
      rfl
  | case2 c t u ns =>
      rw [spans_cons_of_false (hlit _), spans_cons_of_false (hlit _),
        spans_cons_of_false (hlit _)]
      simp only [raw, List.length_append]
      rw [Nat.add_assoc]
  | case3 => rfl

theorem spans_join (hlit : ∀ t, kind (lit t) = false) (start : Nat) (ns : List Node) :
    spans kind start (join ns) = spans kind start ns := by
  induction ns generalizing start with
  | nil => rfl
  | cons n ns ih =>
      rw [join_cons, spans_consNode hlit]
      cases hk : kind n with
      | true => rw [spans_cons_of_true hk, spans_cons_of_true hk, ih]
      | false => rw [spans_cons_of_false hk, spans_cons_of_false hk, ih]

/-- Characters are of no kind but their own. -/
theorem spans_chars_append (hlit : ∀ t, kind (lit t) = false) (t : Text) :
    spans kind start (chars t ++ ns) = spans kind (start + t.length) ns := by
  induction t generalizing start with
  | nil => rfl
  | cons c t ih =>
      rw [chars, List.map_cons, List.cons_append, ← chars, spans_cons_of_false (hlit _), ih,
        List.length_cons]
      congr 1
      simp only [raw, List.length_cons, List.length_nil]
      omega

end

/-! ## Two readers side by side -/

/-- The commands that a reader comes to, from a place in a text on: it reads there, or it is in a
region that is kept, with so many braces open inside. -/
def commandsAhead (read : Text → Construct) :
    (region : Option Nat) → (start : Nat) → Text → List (Nat × Nat)
  | none, start, t => spans isCommand start (sequence read t)
  | some opened, start, t =>
    match Region.bracedFrom opened 0 t with
    | none => []
    | some k => spans isCommand (start + k) (sequence read (t.drop k))

section
variable {read : Text → Construct} {start : Nat} {t : Text}

theorem le_of_mem_commandsAhead {region : Option Nat} {r : Nat × Nat}
    (h : r ∈ commandsAhead read region start t) : start ≤ r.1 := by
  cases region with
  | none => exact le_of_mem_spans h
  | some opened =>
      rw [commandsAhead] at h
      split at h
      · cases h
      · exact Nat.le_trans (Nat.le_add_right _ _) (le_of_mem_spans h)

/-- In a region that is kept, text is stepped over that does not close it. -/
theorem commandsAhead_append {opened d : Nat} {u : Text}
    (h : Region.balanceFrom opened u = some d) :
    commandsAhead read (some opened) start (u ++ t)
      = commandsAhead read (some d) (start + u.length) t := by
  rw [commandsAhead, commandsAhead, Region.bracedFrom_append_of_balanceFrom h,
    Region.bracedFrom_add]
  cases Region.bracedFrom d 0 t with
  | none => rfl
  | some k =>
      simp only [Option.map_some]
      rw [Nat.add_comm k, List.drop_length_add_append, Nat.add_assoc]

/-- The last brace closes the region. -/
theorem commandsAhead_close :
    commandsAhead read (some 0) start ('}' :: t) = commandsAhead read none (start + 1) t := rfl

/-- A character that is read alone is stepped over, in a region and outside. -/
theorem exists_commandsAhead_char {c : Char}
    (h : sequence read (c :: t) = lit [c] :: sequence read t) (start : Nat)
    (region : Option Nat) :
    ∃ region', commandsAhead read region start (c :: t)
      = commandsAhead read region' (start + 1) t := by
  have hstep : ∀ {opened d : Nat}, Region.balanceFrom opened [c] = some d →
      commandsAhead read (some opened) start (c :: t)
        = commandsAhead read (some d) (start + 1) t := fun hb => commandsAhead_append hb
  cases region with
  | none =>
      refine ⟨none, ?_⟩
      rw [commandsAhead, h]
      exact spans_cons_of_false rfl
  | some opened =>
      by_cases hopen : c = '{'
      · subst hopen
        exact ⟨some (opened + 1), hstep rfl⟩
      by_cases hclose : c = '}'
      · subst hclose
        cases opened with
        | zero => exact ⟨none, commandsAhead_close⟩
        | succ m => exact ⟨some m, hstep rfl⟩
      · exact ⟨some opened, hstep (Region.balanceFrom_char hopen hclose opened [])⟩

end

section
variable {commands bareNames : Bool} {room : Nat} {t : Text} {n : Node} {k : Nat}

/-- With references off, what is between braces is kept. -/
theorem commandsAhead_kept {start : Nat} :
    commandsAhead ((Grammar.ofValue false commands bareNames).construct (room + 1)) none start
        ('$' :: '{' :: t)
      = commandsAhead ((Grammar.ofValue false commands bareNames).construct (room + 1)) (some 0)
        (start + 2) t := by
  have hkept : (Grammar.ofValue false commands bareNames).construct (room + 1) ('{' :: t)
      = kept t := Grammar.construct_kept fun h => absurd h Bool.false_ne_true
  rw [commandsAhead, commandsAhead]
  unfold kept at hkept
  cases hend : Region.braced? t with
  | none =>
      rw [hend] at hkept
      rw [sequence_unterminated hkept, show Region.bracedFrom 0 0 t = none from hend]
      rfl
  | some k =>
      rw [hend] at hkept
      obtain ⟨inner, rest, rfl, rfl⟩ := Region.braced?_eq_some hend
      rw [sequence_node hkept, show Region.bracedFrom 0 0 _ = _ from hend,
        spans_cons_of_false rfl, raw, Grammar.take_length_add_one, List.drop_succ_cons]
      simp only [List.length_cons, List.length_append, List.length_nil]
      congr 1
      omega

/-- A command is read the same with references on and off, but for its line. -/
theorem exists_construct_paren
    (h : (Grammar.ofValue true commands bareNames).construct room ('(' :: t) = .node n k) :
    ∃ line, (Grammar.ofValue false commands bareNames).construct room ('(' :: t)
      = .node (command line n.raw) k := by
  cases commands with
  | false => rw [Grammar.construct_paren_of_none rfl] at h; cases h
  | true =>
      cases room with
      | zero => rw [Grammar.construct_paren_zero rfl] at h; cases h
      | succ room =>
          unfold Grammar.construct at h ⊢
          simp only [Grammar.ofValue, if_true] at h ⊢
          cases hend : Region.command? t with
          | none => rw [hend] at h; cases h
          | some j =>
              rw [hend] at h
              injection h with hn hk
              subst hn hk
              exact ⟨_, rfl⟩

/-- With references off, no name is read. -/
theorem construct_other_of_references_off {c : Char} (hbrace : c ≠ '{') (hparen : c ≠ '(') :
    (Grammar.ofValue false commands bareNames).construct room (c :: t) = .plain := by
  rw [Grammar.construct_name hbrace hparen]
  rfl

/-- Behind anything but a bracket, a name is read. -/
theorem exists_name_of_construct {g : Grammar} {c : Char} (hbrace : c ≠ '{') (hparen : c ≠ '(')
    (h : g.construct room (c :: t) = .node n k) : ∃ name, n.raw = '$' :: name ∧ '$' ∉ name := by
  rw [Grammar.construct_name hbrace hparen] at h
  split at h
  · next name after hv hname =>
    injection h with hn hk
    subst hn
    exact ⟨name, rfl, Name.not_mem_of_isName (Name.isName_of_leading? hname) rfl⟩
  · cases h

/-- A dollar that is plain with references on is plain with references off. -/
theorem construct_plain_of_references_off
    (h : (Grammar.ofValue true commands bareNames).construct room t = .plain) :
    (Grammar.ofValue false commands bareNames).construct room t = .plain := by
  cases t using Grammar.behind_cases with
  | nil => exact Grammar.construct_nil
  | brace t => exact absurd h Grammar.construct_open_ne_plain
  | paren t =>
      have hline := Grammar.line_of_construct_plain h
      have hcommands : commands = false := by
        cases commands with
        | false => rfl
        | true => cases hline
      subst hcommands
      exact Grammar.construct_paren_of_none rfl
  | other c t hbrace hparen => exact construct_other_of_references_off hbrace hparen

/-- What closes only braces that it opened is kept up to its last brace, and behind it the other
reader reads or is in the same region still. -/
theorem exists_commandsAhead_enclosed {raw rest : Text} (h : Region.Enclosed raw) (start : Nat) :
    ∃ region', commandsAhead ((Grammar.ofValue false commands bareNames).construct (room + 1)) none
        start (raw ++ rest)
      = commandsAhead ((Grammar.ofValue false commands bareNames).construct (room + 1)) region'
        (start + raw.length) rest := by
  obtain ⟨inner, rfl, hinner⟩ := h
  obtain ⟨d, hd⟩ := Region.closesOwn_iff.1 hinner
  have hbrace : sequence ((Grammar.ofValue false commands bareNames).construct (room + 1))
      ('}' :: rest) = _ := sequence_char (by decide) rest
  obtain ⟨region', hregion⟩ := exists_commandsAhead_char hbrace (start + 2 + inner.length) (some d)
  refine ⟨region', ?_⟩
  have hraw : '$' :: '{' :: (inner ++ ['}']) ++ rest = '$' :: '{' :: (inner ++ '}' :: rest) := by
    simp only [List.cons_append, List.append_assoc, List.nil_append]
  have hlength : start + ('$' :: '{' :: (inner ++ ['}'])).length
      = start + 2 + inner.length + 1 := by
    simp only [List.length_cons, List.length_append, List.length_nil]
    omega
  rw [hraw, hlength, commandsAhead_kept, commandsAhead_append hd, hregion]

/-- With references off, a name behind a dollar is read as it is written. -/
theorem commandsAhead_name {name rest : Text} {start : Nat} (hdollar : '$' ∉ name)
    (hplain : (Grammar.ofValue false commands bareNames).construct room (name ++ rest) = .plain) :
    commandsAhead ((Grammar.ofValue false commands bareNames).construct room) none start
        ('$' :: name ++ rest)
      = commandsAhead ((Grammar.ofValue false commands bareNames).construct room) none
        (start + ('$' :: name).length) rest := by
  have hlength : start + ('$' :: name).length = start + 1 + name.length := by
    rw [List.length_cons, Nat.add_assoc, Nat.add_comm 1]
  rw [commandsAhead, commandsAhead, List.cons_append, sequence_plain hplain,
    spans_cons_of_false rfl, sequence_chars hdollar, spans_chars_append fun _ => rfl, hlength]
  rfl

/-- **Behind a node that is read with references on**, the other reader reads or is in a region
that is kept. No command is between but the node itself. -/
theorem exists_commandsAhead_node {a : Nat} {l : Bool}
    (h : (Grammar.ofValue true commands bareNames).construct room t = .node n k)
    (hn : Everywhere CommandsCloseOwn a l [n]) (start : Nat) (region : Option Nat) :
    ∃ region', ∀ r ∈ commandsAhead ((Grammar.ofValue false commands bareNames).construct room)
        region start ('$' :: t), r.1 = start
      ∨ r ∈ commandsAhead ((Grammar.ofValue false commands bareNames).construct room) region'
        (start + n.raw.length) (t.drop k) := by
  have hr := Grammar.reads_drop_of_construct h
  have hraw := hr.raw_append
  cases region with
  | some opened =>
      -- the node closes only braces that it opened, and the region stays open
      obtain ⟨d, hd⟩ := (closesOwn_of_construct h hn).exists_balanceFrom opened
      refine ⟨some (opened + d), fun r hmem => Or.inr ?_⟩
      rwa [hraw, commandsAhead_append hd] at hmem
  | none =>
      cases t using Grammar.behind_cases with
      | nil => rw [Grammar.construct_nil] at h; cases h
      | brace v =>
          cases room with
          | zero => rw [Grammar.construct_open_zero] at h; cases h
          | succ room =>
              have henclosed :=
                enclosed_of_construct_open (fun hu => closesOwn_of_construct hu) h hn
              obtain ⟨region', hregion⟩ := exists_commandsAhead_enclosed henclosed start
              refine ⟨region', fun r hmem => Or.inr ?_⟩
              rwa [hraw, hregion] at hmem
      | paren v =>
          obtain ⟨line, hoff⟩ := exists_construct_paren h
          refine ⟨none, fun r hmem => ?_⟩
          rw [commandsAhead, sequence_node hoff, spans_cons_of_true rfl] at hmem
          rcases List.mem_cons.1 hmem with rfl | hmem
          · exact Or.inl rfl
          · exact Or.inr hmem
      | other c v hbrace hparen =>
          obtain ⟨name, hname, hdollar⟩ := exists_name_of_construct hbrace hparen h
          have hoff : (Grammar.ofValue false commands bareNames).construct room (c :: v) = .plain :=
            construct_other_of_references_off hbrace hparen
          refine ⟨none, fun r hmem => Or.inr ?_⟩
          rw [hname] at hraw ⊢
          rw [(List.cons.inj hraw).2] at hoff
          rwa [hraw, commandsAhead_name hdollar hoff] at hmem

/-- **Along a text, no command starts inside of a reference**: the other reader reads in step, or
it is in a region that is kept. -/
theorem apart_of_scans {a : Nat} {l : Bool} {ps : List Node} {rest : Text}
    (h : Scans ((Grammar.ofValue true commands bareNames).construct room) ps t rest)
    (hps : ∀ p ∈ ps, Everywhere CommandsCloseOwn a l [p]) (start : Nat) (region : Option Nat) :
    ∀ r ∈ spans isBracedReference start ps,
    ∀ c ∈ commandsAhead ((Grammar.ofValue false commands bareNames).construct room) region start t,
      ¬ (r.1 < c.1 ∧ c.1 < r.2) := by
  induction h generalizing start region with
  | nil =>
      intro r hr
      cases hr
  | @char c t rest ps hc hs ih =>
      have hoff : sequence ((Grammar.ofValue false commands bareNames).construct room)
          (c :: t) = _ := sequence_char hc t
      obtain ⟨region', hregion⟩ := exists_commandsAhead_char hoff start region
      rw [hregion, spans_cons_of_false rfl]
      exact ih (fun p hp => hps p (List.mem_cons_of_mem _ hp)) (start + 1) region'
  | @dollar t rest ps hplain hs ih =>
      have hoff := sequence_plain (construct_plain_of_references_off hplain)
      obtain ⟨region', hregion⟩ := exists_commandsAhead_char hoff start region
      rw [hregion, spans_cons_of_false rfl]
      exact ih (fun p hp => hps p (List.mem_cons_of_mem _ hp)) (start + 1) region'
  | @node t rest n k ps hnode hs ih =>
      obtain ⟨region', hregion⟩ :=
        exists_commandsAhead_node hnode (hps n List.mem_cons_self) start region
      have hrest := ih (fun p hp => hps p (List.mem_cons_of_mem _ hp))
        (start + n.raw.length) region'
      intro r hr c hc
      rintro ⟨hlo, hhi⟩
      have hcommand := hregion c hc
      -- the node itself, or a reference behind it
      have hreference : r = (start, start + n.raw.length)
          ∨ r ∈ spans isBracedReference (start + n.raw.length) ps := by
        cases hk : isBracedReference n with
        | true =>
            rw [spans_cons_of_true hk] at hr
            exact List.mem_cons.1 hr
        | false =>
            rw [spans_cons_of_false hk] at hr
            exact Or.inr hr
      rcases hreference with rfl | hr
      · rcases hcommand with hstart | hc
        · omega
        · have hle := le_of_mem_commandsAhead hc
          omega
      · rcases hcommand with hstart | hc
        · have hle := le_of_mem_spans hr
          omega
        · exact hrest r hr c hc ⟨hlo, hhi⟩

end

/-- **Where commands close only their own braces, no command that is read with references off
starts inside of a reference that is read with references on.** -/
theorem no_command_inside_reference (f : Features) (bareNames : Bool) (depth : Int) (t : Text)
    (h : Everywhere CommandsCloseOwn 0 false
      (parse { f with references := true } bareNames depth t)) :
    ∀ r ∈ spans isBracedReference 0 (parse { f with references := true } bareNames depth t),
    ∀ c ∈ spans isCommand 0 (parse { f with references := false } bareNames depth t),
      ¬ (r.1 < c.1 ∧ c.1 < r.2) := by
  obtain ⟨ps, tail, rest, hs, htail, hpieces⟩ := sequence_scans
    ((Grammar.ofValue true f.commands bareNames).construct depth.toNat) t
  have hon : parse { f with references := true } bareNames depth t = join (ps ++ tail) :=
    congrArg join hpieces
  have hnone : spans isBracedReference (0 + (rawAll ps).length) tail = [] := by
    cases htail with
    | done => rfl
    | unterminated => rfl
  rw [hon] at h ⊢
  rw [spans_join fun _ => rfl, spans_append, hnone, List.append_nil, parse, Grammar.nodes,
    spans_join fun _ => rfl]
  exact apart_of_scans hs (fun p hp => everywhere_singleton_of_join h (List.mem_append_left _ hp))
    0 none

/-- The command in the fallback closes the brace that it opens, and what is behind the reference
is a command on its own. -/
theorem no_command_inside_reference_say :
    Everywhere CommandsCloseOwn 0 false
      (parse { references := true } true 10 "${A:-$(say {x})}$(id)".toList)
    ∧ spans isBracedReference 0 (parse { references := true } true 10
        "${A:-$(say {x})}$(id)".toList) = [(0, 16)]
    ∧ spans isCommand 0 (parse { references := false } true 10
        "${A:-$(say {x})}$(id)".toList) = [(16, 21)]
    ∧ ¬ (0 < 16 ∧ 16 < 16) := by
  have hcommands : Everywhere CommandsCloseOwn 0 false
      (parse { references := true } true 10 "${A:-$(say {x})}$(id)".toList) := by decide +kernel
  have hreferences : spans isBracedReference 0 (parse { references := true } true 10
      "${A:-$(say {x})}$(id)".toList) = [(0, 16)] := by decide +kernel
  have hspans : spans isCommand 0 (parse { references := false } true 10
      "${A:-$(say {x})}$(id)".toList) = [(16, 21)] := by decide +kernel
  refine ⟨hcommands, hreferences, hspans, ?_⟩
  exact no_command_inside_reference {} true 10 "${A:-$(say {x})}$(id)".toList hcommands (0, 16)
    (by rw [hreferences]; exact List.mem_cons_self) (16, 21)
    (by rw [hspans]; exact List.mem_cons_self)

end Node

/-- The text `${A:-$(echo '}')$(id)}`. -/
def spilled : Text := "$\x7bA:-$(echo '\x7d')$(id)\x7d".toList

/-- The variable `A` is set, and references are off. -/
def Context.spilling : Context where
  bindings := Assignment.ofList [("A".toList, { value := "1".toList })]
  environment := ∅
  config := { features := { references := false } }
  shell := Script.shell { echo := true }

/-- **A kept region ends inside of a command that closes a brace it did not open.** With references
on, the text is one reference, and nothing of it is run as `A` is set. With references off, the
region ends at the quoted brace, and the second command of the fallback is run. -/
theorem kept_region_spills :
    Node.spans Node.isBracedReference 0 (Node.parse { references := true } true 10 spilled)
      = [(0, 22)]
    ∧ Node.spans Node.isCommand 0 (Node.parse { references := false } true 10 spilled)
      = [(16, 21)]
    ∧ ({ Context.spilling with config := {} }.interpolate spilled {}).2.calls.map Call.line = #[]
    ∧ (Context.spilling.interpolate spilled {}).2.calls.map Call.line = #["id".toList] := by
  refine ⟨by decide +kernel, by decide +kernel, by decide +kernel, by decide +kernel⟩

end EnvValues
