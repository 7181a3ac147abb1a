import EnvValues.Shell.Posix.Machine

/-!
# Conditions

The conditions that `test` decides: about texts, numbers and files, with `!`, `-a`, `-o`
and parentheses. Whether an argument is an operator depends on the arguments around it,
so **an argument is looked at together with the two behind it**.
-/

namespace EnvValues
namespace Posix
namespace Condition

/-- A question about one text. -/
inductive Unary
  | empty | nonempty
  | readable | writable | executable
  | exists_ | regular | directory | characterDevice | blockDevice | pipe | socket | link
  | setUser | setGroup | sticky | hasContent | owned | ownedByGroup
  | terminal
  deriving DecidableEq, Repr

/-- A question about two texts. -/
inductive Binary
  | text (p : Text → Text → Bool)
  | number (p : Int → Int → Bool)
  | newer
  | older
  | same

/-- What an argument means. -/
inductive Operator
  | unary (o : Unary)
  | binary (o : Binary)
  | not
  | and
  | or
  | openParen
  | closeParen

/-- Does one text come before another one, by their bytes? -/
def before (a b : Text) : Bool := compare a b = .lt

/-- How operators are written. -/
def operators : List (String × Operator) :=
  [("-r", .unary .readable), ("-w", .unary .writable), ("-x", .unary .executable),
   ("-e", .unary .exists_), ("-f", .unary .regular), ("-d", .unary .directory),
   ("-c", .unary .characterDevice), ("-b", .unary .blockDevice), ("-p", .unary .pipe),
   ("-u", .unary .setUser), ("-g", .unary .setGroup), ("-k", .unary .sticky),
   ("-s", .unary .hasContent), ("-t", .unary .terminal), ("-z", .unary .empty),
   ("-n", .unary .nonempty), ("-h", .unary .link), ("-L", .unary .link), ("-O", .unary .owned),
   ("-G", .unary .ownedByGroup), ("-S", .unary .socket),
   ("=", .binary (.text fun a b => a = b)), ("!=", .binary (.text fun a b => a ≠ b)),
   ("<", .binary (.text before)), (">", .binary (.text fun a b => before b a)),
   ("-eq", .binary (.number fun a b => a = b)), ("-ne", .binary (.number fun a b => a ≠ b)),
   ("-ge", .binary (.number fun a b => a ≥ b)), ("-gt", .binary (.number fun a b => a > b)),
   ("-le", .binary (.number fun a b => a ≤ b)), ("-lt", .binary (.number fun a b => a < b)),
   ("-nt", .binary .newer), ("-ot", .binary .older), ("-ef", .binary .same),
   ("!", .not), ("-a", .and), ("-o", .or), ("(", .openParen), (")", .closeParen)]

/-- The operator that an argument writes. -/
def operator? (t : Text) : Option Operator := operators.lookup (String.ofList t)

/-- Is the argument an operator between two others? -/
def isBinary (t : Text) : Bool :=
  match operator? t with
  | some (.binary _) => true
  | _ => false

/-- What the first argument means. -/
inductive Meaning
  | nothing
  | operand
  | operator (o : Operator)

/-- What the first argument means, given those behind it. -/
def meaning : List Text → Meaning
  | [] => .nothing
  | t :: rest =>
    match operator? t, rest with
    | some (.unary _), [] => .operand
    | some (.unary o), u :: _ :: _ => if isBinary u then .operand else .operator (.unary o)
    | some .openParen, [] => .operand
    | some o, _ => .operator o
    | none, _ => .operand

/-- A number among the arguments. -/
def number (t : Text) : Run Int :=
  match Numeral.whole? false t with
  | some n => pure n
  | none => Run.fail ("Illegal number: ".toList ++ t)

/-- Where a descriptor of the process leads. -/
def openFile? (n : Nat) : Run (Option OpenFile) := do
  match ← Run.descriptor? n with
  | some d => return (← get).system.opened[d.target]?
  | none => pure none

/-- Are these directories made up by the system, so that they have no size? -/
def isVirtual (path : Text) : Bool := ["/proc", "/sys"].any fun d => d.toList.isPrefixOf path

/-- The answer to a question about a file. -/
def answer (o : Unary) (path : Text) (f : File) : Bool :=
  match o, f.kind with
  | .readable, _ | .writable, _ | .exists_, _ | .owned, _ | .ownedByGroup, _ => true
  | .executable, k => k = .directory || f.isExecutable
  | .regular, .regular _ | .regular, .program _ => true
  | .directory, .directory => true
  | .characterDevice, .device _ => true
  | .link, .link _ => true
  | .setUser, _ => f.mode &&& 0o4000 ≠ 0
  | .setGroup, _ => f.mode &&& 0o2000 ≠ 0
  | .sticky, _ => f.mode &&& 0o1000 ≠ 0
  | .hasContent, .regular t => !t.isEmpty
  | .hasContent, .program _ => true
  | .hasContent, .directory => !isVirtual path
  | _, _ => false

/-- The answer to a question about a stream. -/
def answerOfStream (o : Unary) : Bool :=
  [.readable, .writable, .exists_, .owned, .ownedByGroup, .pipe].contains o

/-- Answer a question about a file. -/
def ofFile (o : Unary) (path : Text) : Run Bool := do
  let m ← get
  match m.system.files.find m.process.directory path (o ≠ .link) with
  | .error _ => pure false
  | .ok (p, f) =>
    match f.kind with
    | .descriptor n => do
      match ← openFile? n with
      | none => pure false
      | some (.stream _ _) => pure (answerOfStream o)
      | some .directory => pure (answer o p ⟨.directory, 0o755⟩)
      | some (.device d) => pure (answer o p ⟨.device d, 0o666⟩)
      | some (.file p _ _) => pure ((m.system.files[p]?.map (answer o p)).getD false)
    | _ => pure (answer o p f)

/-- Answer a question about one text. -/
def ofOne (o : Unary) (t : Text) : Run Bool := do
  match o with
  | .empty => pure t.isEmpty
  | .nonempty => pure !t.isEmpty
  | .terminal => do
    let _ ← number t
    pure false
  | o => ofFile o t

/-- Answer a question about two texts. -/
def ofTwo (o : Binary) (a b : Text) : Run Bool := do
  match o with
  | .text p => pure (p a b)
  | .number p => do
    let m ← number a
    let n ← number b
    pure (p m n)
  | .newer | .older => pure false
  | .same =>
    let m ← get
    let find (t : Text) : Option Text :=
      ((m.system.files.find m.process.directory t true).toOption).map Prod.fst
    match find a, find b with
    | some p, some q => pure (p = q)
    | _, _ => pure false

/-- How loosely the operators bind that are looked for. -/
inductive Level
  | or
  | and
  | not
  | primary
  deriving DecidableEq, Repr

/-- Complain about an argument. -/
def refuse {α : Type} (t : Text) (message : String) : Run α :=
  Run.fail (if t.isEmpty then message.toList else t ++ ": ".toList ++ message.toList)

/-- Does the condition hold that the arguments begin with? The arguments left begin with the
last one that was used. -/
def leadingHolds : (fuel : Nat) → Level → Meaning → List Text → Run (Bool × List Text)
  | 0, _, _, args => pure (false, args)
  | fuel + 1, .or, m, args => do
    let (a, args) ← leadingHolds fuel .and m args
    match meaning (args.drop 1) with
    | .operator .or => do
      let args := args.drop 2
      let (b, args) ← leadingHolds fuel .or (meaning args) args
      pure (a || b, args)
    | _ => pure (a, args)
  | fuel + 1, .and, m, args => do
    let (a, args) ← leadingHolds fuel .not m args
    match meaning (args.drop 1) with
    | .operator .and => do
      let args := args.drop 2
      let (b, args) ← leadingHolds fuel .and (meaning args) args
      pure (a && b, args)
    | _ => pure (a, args)
  | fuel + 1, .not, m, args => do
    match m with
    | .operator .not => do
      let m := meaning (args.drop 1)
      let args := if args.length > 1 then args.drop 1 else args
      let (a, args) ← leadingHolds fuel .not m args
      pure (!a, args)
    | m => leadingHolds fuel .primary m args
  | fuel + 1, .primary, m, args => do
    match m with
    | .nothing => pure (false, args)
    | .operator .openParen =>
      let args := args.drop 1
      match meaning args with
      | .operator .closeParen => pure (false, args)
      | m => do
        let (a, args) ← leadingHolds fuel .or m args
        let args := args.drop 1
        match meaning args with
        | .operator .closeParen => pure (a, args)
        | _ => refuse [] "closing paren expected"
    | .operator (.unary o) =>
      match args with
      | _ :: t :: _ => do pure (← ofOne o t, args.drop 1)
      | args => refuse (args.headD []) "argument expected"
    | _ =>
      match args with
      | a :: op :: rest =>
        match meaning (op :: rest), rest with
        | .operator (.binary o), b :: _ => do pure (← ofTwo o a b, rest)
        | .operator (.binary _), [] => refuse op "argument expected"
        | _, _ => pure (!a.isEmpty, args)
      | [a] => pure (!a.isEmpty, [a])
      | [] => pure (false, [])

/-- Does the condition hold that all of the arguments write? -/
def holds (args : List Text) : Run Bool := do
  let whole (m : Meaning) (args : List Text) : Run Bool := do
    let (a, rest) ← leadingHolds (4 * args.length + 8) .or m args
    match rest with
    | t :: _ :: _ => refuse t "unexpected operator"
    | _ => pure a
  let inner (args : List Text) : Run Bool := whole (meaning args) args
  match args with
  | [] => pure false
  | [a, b, c] =>
    if isBinary b then whole .operand args
    else if a = ['('] && c = [')'] then inner [b]
    else if a = ['!'] then return !(← inner [b, c])
    else inner args
  | [a, b, c, d] =>
    if a = ['('] && d = [')'] then inner [b, c]
    else if a = ['!'] then
      -- what is left is looked at like a condition of its own
      if isBinary c then return !(← whole .operand [b, c, d])
      else if b = ['('] && d = [')'] then return !(← inner [c])
      else if b = ['!'] then return !(← inner [c, d])
      else return !(← inner [b, c, d])
    else inner args
  | args => inner args

end Condition
end Posix
end EnvValues
