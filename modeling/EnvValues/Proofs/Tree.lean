import EnvValues.Node.Basic

/-!
# Sequences inside sequences

A value is read as one sequence of nodes, but a sequence stands in it wherever a
reference has a fallback or a command has a line, and so on inward. What is said of
reading is said of all of these, so the way inward is described once.

`Everywhere p` says that `p` holds of a sequence and of all sequences inside it, where
`p` is told two things about the place: how many references are around it, and
whether a command line is.

`Separated` is what `join` makes sure of: no literal is empty, and no two touch.
`joinedAll` joins at every depth, and leaves a tree that is separated everywhere as it
is.
-/

namespace EnvValues
namespace Node

/-- What is said of a sequence, of the number of references around it, and of whether
it stands inside a command line. -/
abbrev Placed := (around : Nat) → (inLine : Bool) → List Node → Prop

theorem exists_lit_of_isLit {n : Node} (h : n.isLit = true) : ∃ t, n = lit t := by
  cases n with
  | lit t => exact ⟨t, rfl⟩
  | _ => simp [isLit] at h

mutual

/-- Does `p` hold of every sequence inside a node? -/
def Inside (p : Placed) (around : Nat) (inLine : Bool) : Node → Prop
  | lit _ => True
  | ref _ _ _ none => True
  | ref _ _ _ (some ns) => p (around + 1) inLine ns ∧ InsideAll p (around + 1) inLine ns
  | command ns _ => p around true ns ∧ InsideAll p around true ns
  | group ns => p around inLine ns ∧ InsideAll p around inLine ns
  | nothing => True

/-- Does `p` hold of every sequence inside one of the nodes? -/
def InsideAll (p : Placed) (around : Nat) (inLine : Bool) : List Node → Prop
  | [] => True
  | n :: ns => Inside p around inLine n ∧ InsideAll p around inLine ns

end

/-- Does `p` hold of a sequence and of every sequence inside it? -/
def Everywhere (p : Placed) (around : Nat) (inLine : Bool) (ns : List Node) : Prop :=
  p around inLine ns ∧ ∀ n ∈ ns, Inside p around inLine n

section
variable {p q : Placed} {around : Nat} {inLine : Bool}

theorem insideAll_iff {ns : List Node} :
    InsideAll p around inLine ns ↔ ∀ n ∈ ns, Inside p around inLine n := by
  induction ns with
  | nil => simp [InsideAll]
  | cons n ns ih => simp [InsideAll, ih]

@[simp] theorem inside_lit (t : Text) : Inside p around inLine (lit t) := by
  rw [Inside]; trivial

theorem inside_of_isLit {n : Node} (h : n.isLit = true) : Inside p around inLine n := by
  obtain ⟨t, rfl⟩ := exists_lit_of_isLit h
  exact inside_lit t

@[simp] theorem inside_ref_none (name raw : Text) (op : Option Operator) :
    Inside p around inLine (ref name raw op none) := by
  rw [Inside]; trivial

/-- A fallback has one reference more around it. -/
@[simp] theorem inside_ref_some {name raw : Text} {op : Option Operator} {f : List Node} :
    Inside p around inLine (ref name raw op (some f)) ↔ Everywhere p (around + 1) inLine f := by
  rw [Inside, Everywhere, insideAll_iff]

/-- A command line has no reference more around it. -/
@[simp] theorem inside_command {line : List Node} {raw : Text} :
    Inside p around inLine (command line raw) ↔ Everywhere p around true line := by
  rw [Inside, Everywhere, insideAll_iff]

@[simp] theorem inside_group {ns : List Node} :
    Inside p around inLine (group ns) ↔ Everywhere p around inLine ns := by
  rw [Inside, Everywhere, insideAll_iff]

@[simp] theorem inside_nothing : Inside p around inLine nothing := by
  rw [Inside]; trivial

end

mutual

/-- What follows from `p` at every place holds wherever `p` does. -/
theorem Inside.mono {p q : Placed} (h : ∀ a l ns, p a l ns → q a l ns) {a : Nat} {l : Bool} :
    ∀ n : Node, Inside p a l n → Inside q a l n
  | lit _, _ => by simp
  | ref _ _ _ none, _ => by simp
  | ref _ _ _ (some ns), hp => by
      rw [Inside] at hp ⊢
      exact ⟨h _ _ _ hp.1, InsideAll.mono h ns hp.2⟩
  | command ns _, hp => by
      rw [Inside] at hp ⊢
      exact ⟨h _ _ _ hp.1, InsideAll.mono h ns hp.2⟩
  | group ns, hp => by
      rw [Inside] at hp ⊢
      exact ⟨h _ _ _ hp.1, InsideAll.mono h ns hp.2⟩
  | nothing, _ => by simp

theorem InsideAll.mono {p q : Placed} (h : ∀ a l ns, p a l ns → q a l ns) {a : Nat} {l : Bool} :
    ∀ ns : List Node, InsideAll p a l ns → InsideAll q a l ns
  | [], _ => by rw [InsideAll]; trivial
  | n :: ns, hp => by
      rw [InsideAll] at hp ⊢
      exact ⟨Inside.mono h n hp.1, InsideAll.mono h ns hp.2⟩

end

theorem Everywhere.mono {p q : Placed} (h : ∀ a l ns, p a l ns → q a l ns) {a : Nat} {l : Bool}
    {ns : List Node} (hp : Everywhere p a l ns) : Everywhere q a l ns :=
  ⟨h _ _ _ hp.1, fun n hn => Inside.mono h n (hp.2 n hn)⟩

mutual

/-- What holds of every sequence at every place holds inside every node. -/
theorem inside_of_forall {p : Placed} (h : ∀ a l ns, p a l ns) {a : Nat} {l : Bool} :
    ∀ n : Node, Inside p a l n
  | lit _ => by simp
  | ref _ _ _ none => by simp
  | ref _ _ _ (some ns) => by
      rw [Inside]
      exact ⟨h _ _ _, insideAll_of_forall h ns⟩
  | command ns _ => by
      rw [Inside]
      exact ⟨h _ _ _, insideAll_of_forall h ns⟩
  | group ns => by
      rw [Inside]
      exact ⟨h _ _ _, insideAll_of_forall h ns⟩
  | nothing => by simp

theorem insideAll_of_forall {p : Placed} (h : ∀ a l ns, p a l ns) {a : Nat} {l : Bool} :
    ∀ ns : List Node, InsideAll p a l ns
  | [] => by rw [InsideAll]; trivial
  | n :: ns => by
      rw [InsideAll]
      exact ⟨inside_of_forall h n, insideAll_of_forall h ns⟩

end

theorem everywhere_of_forall {p : Placed} (h : ∀ a l ns, p a l ns) (a : Nat) (l : Bool)
    (ns : List Node) : Everywhere p a l ns :=
  ⟨h a l ns, fun n _ => inside_of_forall h n⟩

mutual

/-- What holds with a reference less around holds one reference further out. -/
theorem Inside.outward {p : Placed} (h : ∀ a l ns, p (a + 1) l ns → p a l ns) {a : Nat} {l : Bool} :
    ∀ n : Node, Inside p (a + 1) l n → Inside p a l n
  | lit _, _ => by simp
  | ref _ _ _ none, _ => by simp
  | ref _ _ _ (some ns), hp => by
      rw [Inside] at hp ⊢
      exact ⟨h _ _ _ hp.1, InsideAll.outward h ns hp.2⟩
  | command ns _, hp => by
      rw [Inside] at hp ⊢
      exact ⟨h _ _ _ hp.1, InsideAll.outward h ns hp.2⟩
  | group ns, hp => by
      rw [Inside] at hp ⊢
      exact ⟨h _ _ _ hp.1, InsideAll.outward h ns hp.2⟩
  | nothing, _ => by simp

theorem InsideAll.outward {p : Placed} (h : ∀ a l ns, p (a + 1) l ns → p a l ns) {a : Nat}
    {l : Bool} : ∀ ns : List Node, InsideAll p (a + 1) l ns → InsideAll p a l ns
  | [], _ => by rw [InsideAll]; trivial
  | n :: ns, hp => by
      rw [InsideAll] at hp ⊢
      exact ⟨Inside.outward h n hp.1, InsideAll.outward h ns hp.2⟩

end

theorem Everywhere.outward {p : Placed} (h : ∀ a l ns, p (a + 1) l ns → p a l ns) {a : Nat}
    {l : Bool} {ns : List Node} (hp : Everywhere p (a + 1) l ns) : Everywhere p a l ns :=
  ⟨h _ _ _ hp.1, fun n hn => Inside.outward h n (hp.2 n hn)⟩

mutual

/-- Sequences inside a node can be checked. -/
def decidableInside (p : Placed) [∀ a l ns, Decidable (p a l ns)] (around : Nat) (inLine : Bool) :
    (n : Node) → Decidable (Inside p around inLine n)
  | lit _ => .isTrue (by simp)
  | ref _ _ _ none => .isTrue (by simp)
  | ref _ _ _ (some ns) =>
    have := decidableInsideAll p (around + 1) inLine ns
    decidable_of_iff (p (around + 1) inLine ns ∧ InsideAll p (around + 1) inLine ns)
      (by rw [Inside])
  | command ns _ =>
    have := decidableInsideAll p around true ns
    decidable_of_iff (p around true ns ∧ InsideAll p around true ns) (by rw [Inside])
  | group ns =>
    have := decidableInsideAll p around inLine ns
    decidable_of_iff (p around inLine ns ∧ InsideAll p around inLine ns) (by rw [Inside])
  | nothing => .isTrue (by simp)

/-- So can the sequences inside one of the nodes. -/
def decidableInsideAll (p : Placed) [∀ a l ns, Decidable (p a l ns)] (around : Nat)
    (inLine : Bool) : (ns : List Node) → Decidable (InsideAll p around inLine ns)
  | [] => .isTrue (by rw [InsideAll]; trivial)
  | n :: ns =>
    have := decidableInside p around inLine n
    have := decidableInsideAll p around inLine ns
    decidable_of_iff (Inside p around inLine n ∧ InsideAll p around inLine ns) (by rw [InsideAll])

end

instance (p : Placed) [∀ a l ns, Decidable (p a l ns)] (around : Nat) (inLine : Bool)
    (ns : List Node) : Decidable (Everywhere p around inLine ns) :=
  have := decidableInsideAll p around inLine ns
  decidable_of_iff (p around inLine ns ∧ InsideAll p around inLine ns)
    (and_congr_right' insideAll_iff)

/-! ## Literals that do not touch -/

/-- No literal is empty, and no literal stands directly behind another. -/
def Separated : List Node → Prop
  | [] => True
  | n :: ns => (n.isLit = true → n.raw ≠ [] ∧ ∀ m ∈ ns.head?, m.isLit = false) ∧ Separated ns

theorem separated_cons {n : Node} {ns : List Node} (h : Separated ns) :
    Separated (cons n ns) := by
  fun_cases cons n ns with
  | case1 => exact h
  | case2 c t u ns =>
      rw [Separated] at h ⊢
      exact ⟨fun _ => ⟨by simp [raw], (h.1 rfl).2⟩, h.2⟩
  | case3 n ns hne hnn =>
      -- nothing was joined: the node is no literal, or no literal comes next
      rw [Separated]
      refine ⟨fun hl => ?_, h⟩
      cases n with
      | lit t =>
          cases t with
          | nil => exact absurd rfl hne
          | cons c t =>
              refine ⟨by simp [raw], ?_⟩
              intro m hm
              cases ns with
              | nil => simp at hm
              | cons k ns =>
                  simp only [List.head?_cons, Option.mem_some] at hm
                  subst hm
                  cases k with
                  | lit u => exact absurd rfl (hnn c t u ns rfl)
                  | _ => rfl
      | _ => simp [isLit] at hl

/-- **Joining separates the literals.** -/
theorem separated_join (ns : List Node) : Separated (join ns) := by
  induction ns with
  | nil => exact trivial
  | cons n ns ih => exact separated_cons ih

theorem mem_of_mem_cons {n m : Node} {ns : List Node} (h : m ∈ cons n ns)
    (hm : m.isLit = false) : m = n ∨ m ∈ ns := by
  fun_cases cons n ns with
  | case1 => exact Or.inr h
  | case2 c t u ns =>
      rw [cons] at h
      rcases List.mem_cons.1 h with h | h
      · subst h; simp [isLit] at hm
      · exact Or.inr (List.mem_cons_of_mem _ h)
  | case3 n ns hne hnn =>
      rw [cons.eq_3 n ns hne hnn] at h
      exact List.mem_cons.1 h

/-- Joining makes no node that is not a literal. -/
theorem mem_of_mem_join {m : Node} {ns : List Node} (h : m ∈ join ns) (hm : m.isLit = false) :
    m ∈ ns := by
  induction ns with
  | nil => exact h
  | cons n ns ih =>
      rcases mem_of_mem_cons h hm with h | h
      · exact h ▸ List.mem_cons_self
      · exact List.mem_cons_of_mem _ (ih h)

/-- Only literals are joined. -/
theorem cons_of_not_lit {n : Node} {ns : List Node} (h : n.isLit = false) :
    cons n ns = n :: ns := by
  cases n with
  | lit t => exact nomatch h
  | _ => rfl

theorem mem_cons_of_mem {n m : Node} {ns : List Node} (h : m ∈ ns) (hm : m.isLit = false) :
    m ∈ cons n ns := by
  fun_cases cons n ns with
  | case1 => exact h
  | case2 c t u ns =>
      rcases List.mem_cons.1 h with rfl | h
      · cases hm
      · exact List.mem_cons_of_mem _ h
  | case3 => exact List.mem_cons_of_mem _ h

/-- Joining loses no node that is not a literal. -/
theorem mem_join_of_mem {m : Node} {ns : List Node} (h : m ∈ ns) (hm : m.isLit = false) :
    m ∈ join ns := by
  induction ns with
  | nil => exact h
  | cons n ns ih =>
      rcases List.mem_cons.1 h with rfl | h
      · rw [join_cons, cons_of_not_lit hm]
        exact List.mem_cons_self
      · exact mem_cons_of_mem (ih h) hm

/-! ## Joining at every depth -/

mutual

/-- The node with the literals inside it joined. -/
def joined : Node → Node
  | lit t => lit t
  | ref name raw op none => ref name raw op none
  | ref name raw op (some f) => ref name raw op (some (joinedAll f))
  | command line raw => command (joinedAll line) raw
  | group ns => group (joinedAll ns)
  | nothing => nothing

/-- The nodes with their literals joined, and those inside them. -/
def joinedAll : List Node → List Node
  | [] => []
  | n :: ns => cons (joined n) (joinedAll ns)

end

@[simp] theorem joined_lit (t : Text) : joined (lit t) = lit t := by rw [joined]

@[simp] theorem joined_ref_none (name raw : Text) (op : Option Operator) :
    joined (ref name raw op none) = ref name raw op none := by rw [joined]

@[simp] theorem joined_ref_some (name raw : Text) (op : Option Operator) (f : List Node) :
    joined (ref name raw op (some f)) = ref name raw op (some (joinedAll f)) := by rw [joined]

@[simp] theorem joined_command (line : List Node) (raw : Text) :
    joined (command line raw) = command (joinedAll line) raw := by rw [joined]

@[simp] theorem joinedAll_nil : joinedAll [] = [] := by rw [joinedAll]

@[simp] theorem joinedAll_cons (n : Node) (ns : List Node) :
    joinedAll (n :: ns) = cons (joined n) (joinedAll ns) := by rw [joinedAll]

theorem isLit_joined (n : Node) : (joined n).isLit = n.isLit := by
  cases n with
  | ref name raw op fallback => cases fallback <;> simp [isLit]
  | _ => simp [joined, isLit]

theorem hasExpansions_cons (n : Node) (ns : List Node) :
    hasExpansions (cons n ns) = hasExpansions (n :: ns) := by
  fun_cases cons n ns <;> simp [hasExpansions, isLit]

theorem hasExpansions_joinedAll (ns : List Node) :
    hasExpansions (joinedAll ns) = hasExpansions ns := by
  induction ns with
  | nil => rw [joinedAll_nil]
  | cons n ns ih =>
      rw [joinedAll_cons, hasExpansions_cons]
      simp only [hasExpansions, List.any_cons, isLit_joined] at ih ⊢
      rw [ih]

theorem cons_of_separated {n : Node} {ns : List Node} (h : Separated (n :: ns)) :
    cons n ns = n :: ns := by
  fun_cases cons n ns with
  | case1 => exact absurd rfl (h.1 rfl).1
  | case2 c t u ns =>
      have hlit : (lit u).isLit = false := (h.1 rfl).2 (lit u) rfl
      simp [isLit] at hlit
  | case3 => rfl

mutual

theorem joined_eq_self {a : Nat} {l : Bool} :
    ∀ n : Node, Inside (fun _ _ ns => Separated ns) a l n → joined n = n
  | lit _, _ => by rw [joined]
  | ref _ _ _ none, _ => by rw [joined]
  | ref _ _ _ (some ns), h => by
      rw [Inside] at h
      rw [joined, joinedAll_eq_self ns h.1 h.2]
  | command ns _, h => by
      rw [Inside] at h
      rw [joined, joinedAll_eq_self ns h.1 h.2]
  | group ns, h => by
      rw [Inside] at h
      rw [joined, joinedAll_eq_self ns h.1 h.2]
  | nothing, _ => by rw [joined]

theorem joinedAll_eq_self {a : Nat} {l : Bool} :
    ∀ ns : List Node, Separated ns → InsideAll (fun _ _ ns => Separated ns) a l ns →
      joinedAll ns = ns
  | [], _, _ => by rw [joinedAll]
  | n :: ns, hs, h => by
      rw [InsideAll] at h
      rw [joinedAll, joined_eq_self n h.1, joinedAll_eq_self ns hs.2 h.2, cons_of_separated hs]

end

/-- **A tree without literals that touch is joined already.** -/
theorem joinedAll_of_separated {a : Nat} {l : Bool} {ns : List Node}
    (h : Everywhere (fun _ _ ns => Separated ns) a l ns) : joinedAll ns = ns :=
  joinedAll_eq_self ns h.1 (insideAll_iff.2 h.2)

/-! ## A text as its characters -/

/-- A piece for each character of a text. -/
def chars (t : Text) : List Node := t.map fun c => lit [c]

theorem cons_cons_lit (c : Char) (t : Text) (ns : List Node) :
    cons (lit [c]) (cons (lit t) ns) = cons (lit (c :: t)) ns := by
  cases t with
  | nil =>
      cases ns with
      | nil => rfl
      | cons n ns => cases n <;> rfl
  | cons d t =>
      cases ns with
      | nil => rfl
      | cons n ns => cases n <;> rfl

/-- The characters of a text are joined to the text. -/
theorem join_chars_append (t : Text) (ns : List Node) :
    join (chars t ++ ns) = cons (lit t) (join ns) := by
  induction t with
  | nil => rw [chars, List.map_nil, List.nil_append, cons]
  | cons c t ih =>
      rw [chars, List.map_cons, List.cons_append, join_cons, ← chars, ih, cons_cons_lit]

end Node
end EnvValues
