import EnvValues.Config
import EnvValues.Name
import EnvValues.Node.Basic
import EnvValues.Node.Region

/-!
# Reading a value

A value is plain text but for what some of its dollars begin:

* `$NAME` and `${NAME}` refer to a variable;
* `${NAME op fallback}` refers to one with an operator and a fallback, which is read
  in turn, up to the brace that closes the reference;
* `$(line)` is a command, whose line is read for its braced references only, since
  the shell that runs it sees to everything else.

**Reading never fails.** Braces around anything else are kept as text, and a region
that is never closed, or that is nested deeper than there is room for, turns all that
follows its dollar into text.

`construct` reads what follows one dollar. It is recursive in the room that is left,
because only a fallback is read inside another region; along the text, `sequence` and
`fallback` go from character to character and step over what a construct took. Both
collect pieces, single characters among them, that `Node.join` puts together.
-/

namespace EnvValues
namespace Node

/-- What a dollar begins. -/
inductive Construct
  /-- Nothing: it is a character like any other. -/
  | plain
  /-- A region that does not end. -/
  | unterminated
  /-- A node, for which this many characters behind the dollar are taken. -/
  | node (n : Node) (taken : Nat)
  deriving Repr

/-- Which constructs are recognized. -/
structure Grammar where
  /-- References to variables. -/
  references : Bool
  /-- References without braces. -/
  bareNames : Bool
  /-- How the line of a command is read, with this much room left for nesting, if
  commands are recognized at all. -/
  line : Option (Nat → Text → List Node)

/-- The pieces of a text, behind those read before (kept last to first). The first
`skip` characters belong to the last piece already. -/
def sequenceFrom (read : Text → Construct) (done : List Node) : (skip : Nat) → Text → List Node
  | _, [] => done.reverse
  | skip + 1, _ :: t => sequenceFrom read done skip t
  | 0, c :: t =>
    if c = '$' then
      match read t with
      | .plain => sequenceFrom read (lit ['$'] :: done) 0 t
      | .unterminated => (lit ('$' :: t) :: done).reverse
      | .node n taken => sequenceFrom read (n :: done) taken t
    else sequenceFrom read (lit [c] :: done) 0 t

/-- The pieces of a text. -/
def sequence (read : Text → Construct) (t : Text) : List Node := sequenceFrom read [] 0 t

/-- Pieces that were read before stay in front. -/
theorem sequenceFrom_append (read : Text → Construct) (e done : List Node) (skip : Nat) (t : Text) :
    sequenceFrom read (done ++ e) skip t = e.reverse ++ sequenceFrom read done skip t := by
  fun_induction sequenceFrom read done skip t with
  | case1 => simp [sequenceFrom]
  | case2 done skip c t ih => rw [sequenceFrom]; exact ih
  | case3 done t h ih => rw [sequenceFrom, if_pos rfl, h]; exact ih
  | case4 done t h => simp [sequenceFrom, h]
  | case5 done t n k h ih => rw [sequenceFrom, if_pos rfl, h]; exact ih
  | case6 done c t hc ih => rw [sequenceFrom, if_neg hc]; exact ih

/-- Characters that belong to the last piece are not looked at. -/
theorem sequenceFrom_skip (read : Text → Construct) (done : List Node) (skip : Nat) (t : Text) :
    sequenceFrom read done skip t = sequenceFrom read done 0 (t.drop skip) := by
  induction t generalizing skip with
  | nil => cases skip <;> simp [sequenceFrom]
  | cons c t ih =>
    cases skip with
    | zero => rfl
    | succ k => rw [sequenceFrom, ih, List.drop_succ_cons]

/-- The pieces of a fallback, behind those read before (kept last to first), and the
number of characters up to and with the brace that ends it, when `n` of them have
gone before and `opened` braces of plain text are still open. -/
def fallbackFrom (read : Text → Construct) (done : List Node) (opened n : Nat) :
    (skip : Nat) → Text → Option (List Node × Nat)
  | _, [] => none
  | skip + 1, _ :: t => fallbackFrom read done opened (n + 1) skip t
  | 0, c :: t =>
    if c = '$' then
      match read t with
      | .plain => fallbackFrom read (lit ['$'] :: done) opened (n + 1) 0 t
      | .unterminated => none
      | .node m taken => fallbackFrom read (m :: done) opened (n + 1) taken t
    else if c = '{' then fallbackFrom read (lit [c] :: done) (opened + 1) (n + 1) 0 t
    else if c = '}' then
      match opened with
      | 0 => some (done.reverse, n + 1)
      | m + 1 => fallbackFrom read (lit [c] :: done) m (n + 1) 0 t
    else fallbackFrom read (lit [c] :: done) opened (n + 1) 0 t

/-- The pieces of the fallback that the text begins with, and the number of characters
up to and with the brace that ends it. -/
def fallback? (read : Text → Construct) (t : Text) : Option (List Node × Nat) :=
  fallbackFrom read [] 0 0 0 t

/-- A braced region that refers to nothing, kept as it is written. The text begins
behind the opening brace. -/
def kept (t : Text) : Construct :=
  match Region.braced? t with
  | none => .unterminated
  | some k => .node (lit ('$' :: '{' :: t.take k)) (k + 1)

/-- A braced region with the name and what stands behind the name told apart. A
fallback is read with `read`. The text begins behind the opening brace. -/
def braced (read : Text → Construct) (name after t : Text) : Construct :=
  match after with
  | '}' :: _ =>
    .node (ref name ('$' :: '{' :: t.take (name.length + 1)) none none) (name.length + 2)
  | _ =>
    match Operator.leading? after with
    | none => kept t
    | some op =>
      match fallback? read (after.drop op.token.length) with
      | none => .unterminated
      | some (pieces, k) =>
        let length := name.length + op.token.length + k
        .node (ref name ('$' :: '{' :: t.take length) (some op) (some (join pieces))) (length + 1)

namespace Grammar

/-- Read what follows a dollar, with room for so many regions inside each other. -/
def construct (g : Grammar) : (room : Nat) → Text → Construct
  | 0, '{' :: _ => .unterminated
  | room + 1, '{' :: t =>
    match g.references, Name.leading? t with
    | true, some (name, after) => braced (fun u => g.construct room u) name after t
    | _, _ => kept t
  | room, '(' :: t =>
    match g.line, room with
    | none, _ => .plain
    | some _, 0 => .unterminated
    | some line, room + 1 =>
      match Region.command? t with
      | none => .unterminated
      | some k =>
        .node (command (line (room + 1) (t.take (k - 1))) ('$' :: '(' :: t.take k)) (k + 1)
  | _, t =>
    match g.references && g.bareNames, Name.leading? t with
    | true, some (name, _) => .node (ref name ('$' :: name) none none) name.length
    | _, _ => .plain

/-- The nodes of a text, with room for so many regions inside each other. -/
def nodes (g : Grammar) (room : Nat) (t : Text) : List Node :=
  join (sequence (g.construct room) t)

/-- The grammar of a command line: braced references alone. -/
def ofLine (references : Bool) : Grammar := ⟨references, false, none⟩

/-- The grammar of a value. -/
def ofValue (references commands bareNames : Bool) : Grammar :=
  ⟨references, bareNames, if commands then some (ofLine references).nodes else none⟩

end Grammar

/-- Read a text, with or without references that have no braces. There is room for
`depth` regions inside each other, which is none where it is negative. -/
def parse (features : Features) (bareNames : Bool) (depth : Int) (t : Text) : List Node :=
  (Grammar.ofValue features.references features.commands bareNames).nodes depth.toNat t

end Node
end EnvValues
