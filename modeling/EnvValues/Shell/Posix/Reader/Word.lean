import EnvValues.Shell.Posix.Reader.Source

/-!
# Reading words

A word goes up to a character that ends words, but not inside quotes, braces or
parentheses. What is open at some point is a stack of levels: quotes open a mode on
their level, and braces and arithmetic open a level of their own where characters are
read in another mode than around them.

The text of a document is read in the same way, as if it stood between quotes, up to
the line that ends it.

Commands inside a word are read with the functions of `Scripts`, which are given.
-/

namespace EnvValues
namespace Posix

/-- What characters mean. -/
inductive Mode
  | plain
  | double
  | single
  | arithmetic
  deriving DecidableEq, Repr

/-- The kinds of characters. -/
inductive CharClass
  | ordinary
  /-- To be marked as standing for itself. -/
  | marked
  | newline
  | backslash
  | singleQuote
  | doubleQuote
  /-- The end of the quotes of the mode. -/
  | endQuote
  | dollar
  | backquote
  | closeBrace
  | openParen
  | closeParen
  /-- The end of a word. -/
  | ending
  deriving DecidableEq, Repr

/-- The bytes that never stand for themselves. -/
def isReservedByte (c : Char) : Bool := '\x81' ≤ c && c ≤ '\x88'

/-- The characters that mean something in patterns and in front of home directories. -/
def isMarkedInQuotes (c : Char) : Bool := "!*?[=~:/-]".toList.contains c

/-- The parameters that are named by one character. -/
def isSpecial (c : Char) : Bool := "@*#?-$!".toList.contains c || c.isDigit

/-- The kind of a character in a mode. -/
def Mode.classOf (m : Mode) (c : Char) : CharClass :=
  if c = '\n' then .newline
  else if isReservedByte c then .marked
  else match m with
  | plain =>
    match c with
    | '\\' => .backslash
    | '\'' => .singleQuote
    | '"' => .doubleQuote
    | '$' => .dollar
    | '\x60' => .backquote
    | '}' => .closeBrace
    | c => if "<>();&| \t".toList.contains c then .ending else .ordinary
  | double =>
    match c with
    | '\\' => .backslash
    | '"' => .endQuote
    | '$' => .dollar
    | '\x60' => .backquote
    | '}' => .closeBrace
    | c => if isMarkedInQuotes c then .marked else .ordinary
  | single =>
    if c = '\'' then .endQuote
    else if c = '\\' || isMarkedInQuotes c then .marked
    else .ordinary
  | arithmetic =>
    match c with
    | '\\' => .backslash
    | '$' => .dollar
    | '\x60' => .backquote
    | '}' => .closeBrace
    | '(' => .openParen
    | ')' => .closeParen
    | _ => .ordinary

/-- One level of what is open. -/
structure Level where
  mode : Mode
  /-- Are characters quoted as between double quotes? -/
  quoted : Bool := false
  /-- Do double quotes inside braces quote back? -/
  innerQuoted : Bool := false
  /-- Does the level end with its last brace? -/
  ofBrace : Bool := false
  braces : Nat := 0
  quotedBraces : Nat := 0
  parens : Nat := 0

/-- Something that was opened, and is built when it is closed. -/
inductive Opened
  | parameter (name : Text) (use : Use)
  /-- A value with more behind it, after which the word ends. -/
  | valueAndMore (name : Text)
  | arithmetic

/-- The parts that something opened gives, first to last. -/
def Opened.parts (w : Word) : Opened → Word
  | parameter name use => [.parameter name use w]
  | valueAndMore name => .parameter name .value [] :: w ++ [.stop]
  | arithmetic => [.arithmetic w]

/-- A word so far. -/
structure Draft where
  level : Level
  outer : List Level := []
  /-- What is open, and the parts in front of it (last to first). -/
  opened : List (Opened × Word) := []
  /-- The parts of the innermost thing that is open, last to first. -/
  parts : Word := []
  /-- Was something quoted? -/
  quoted : Bool := false

namespace Draft

/-- Add a part. -/
def put (d : Draft) (p : Part) : Draft := { d with parts := p :: d.parts }

/-- Add a character. -/
def char (d : Draft) (c : Char) : Draft := d.put (.char c)

/-- Add a character that stands for itself. -/
def escape (d : Draft) (c : Char) : Draft := d.put (.escaped c)

/-- Change the level. -/
def onLevel (d : Draft) (f : Level → Level) : Draft := { d with level := f d.level }

/-- Open something. -/
def enter (d : Draft) (o : Opened) : Draft :=
  { d with opened := (o, d.parts) :: d.opened, parts := [] }

/-- Close what was opened last. -/
def leave (d : Draft) : Draft :=
  match d.opened with
  | [] => d
  | (o, before) :: r =>
    { d with opened := r, parts := (o.parts d.parts.reverse).reverse ++ before }

/-- Begin a level. -/
def push (d : Draft) (l : Level) : Draft := { d with level := l, outer := d.level :: d.outer }

/-- End a level. -/
def pop (d : Draft) : Draft :=
  match d.outer with
  | [] => d
  | l :: r => { d with level := l, outer := r }

end Draft

/-- How the commands inside a word are read. -/
structure Scripts where
  /-- Up to a closing parenthesis. -/
  parenthesized : Read (Option Command)
  /-- A whole text. -/
  whole : Text → Read (Option Command)

/-- The line that ends a document. -/
structure Ending where
  line : Text
  dropsTabs : Bool

namespace Read

/-- The next character, as the mode of the level reads it. -/
def nextIn (fuel : Nat) (d : Draft) : Read (Option Char) :=
  if d.level.mode = .single then next else nextJoined fuel

/-- Read characters of a text as long as they match, and say whether all of it was read. -/
def matchText : Text → Option Char → Read (Bool × Option Char)
  | [], c => pure (true, c)
  | e :: es, c =>
    if c = some e then do matchText es (← next)
    else pure (false, c)

/-- Step over tabs. -/
def skipTabs : (fuel : Nat) → Option Char → Read (Option Char)
  | 0, c => pure c
  | fuel + 1, c => if c = some '\t' then do skipTabs fuel (← next) else pure c

/-- At the beginning of a line: nothing, if the line ends the document, and otherwise
its first character. -/
def startLine (fuel : Nat) (ending : Option Ending) (c : Option Char) : Read (Option Char) := do
  match ending with
  | none => pure c
  | some e =>
    let c ← if e.dropsTabs then skipTabs fuel c else pure c
    let before ← get
    let (all, after) ← matchText e.line c
    if all && (after = none || after = some '\n') then
      countLine
      pure none
    else
      set before
      pure c

/-- Read a name, of which a character was read already. Gives the name, last character
first, and the character behind it. -/
def nameFrom (fuel : Nat) (done : Text) : (steps : Nat) → Option Char → Read (Text × Option Char)
  | 0, c => pure (done, c)
  | steps + 1, c =>
    match c with
    | some a =>
      if Name.isPart a then do nameFrom fuel (a :: done) steps (← nextJoined fuel)
      else pure (done, c)
    | none => pure (done, c)

/-- Read digits in the same way. -/
def digitsFrom (fuel : Nat) (done : Text) : (steps : Nat) → Option Char → Read (Text × Option Char)
  | 0, c => pure (done, c)
  | steps + 1, c =>
    match c with
    | some a =>
      if a.isDigit then do digitsFrom fuel (a :: done) steps (← nextJoined fuel)
      else pure (done, c)
    | none => pure (done, c)

/-- The name of a parameter in braces, and the character behind it. The flag says
whether it is the length that is asked for. -/
def bracedName (fuel : Nat) (c : Option Char) : Read (Option (Text × Bool) × Option Char) := do
  let named (isLength : Bool) (c : Option Char) : Read (Option (Text × Bool) × Option Char) := do
    let digits := c.any Char.isDigit
    let (done, c) ← if digits then digitsFrom fuel [] fuel c else nameFrom fuel [] fuel c
    pure (some (done.reverse, isLength), c)
  match c with
  | none => pure (none, none)
  | some a =>
    if Name.isPart a then named false c
    else if a = '}' then pure (none, c)
    else
      let c ← nextJoined fuel
      let single (a : Char) (isLength : Bool) (c : Option Char) :
          Read (Option (Text × Bool) × Option Char) :=
        pure (if isSpecial a then some ([a], isLength) else none, c)
      if a ≠ '#' then single a false c
      else match c with
      | none => single '#' false c
      | some b =>
        if Name.isPart b then named true c
        else
          let c' ← nextJoined fuel
          if b = '}' || c' ≠ some '}' then
            unread c'
            single '#' false c
          else single b true c'

/-- What is done with a parameter, and with which colon, given the character behind its
name. Nothing if the braces close here. -/
def braceUse (fuel : Nat) (c : Option Char) : Read (Use × Bool) := do
  let byCharacter (colon : Bool) (c : Option Char) : Use × Bool :=
    match c with
    | some '}' => (.value, !colon)
    | some '-' => (.otherwise colon, false)
    | some '+' => (.instead colon, false)
    | some '?' => (.require colon, false)
    | some '=' => (.assign colon, false)
    | _ => (.bad, false)
  let trim (atEnd : Bool) (c : Char) : Read (Use × Bool) := do
    let c' ← nextJoined fuel
    if c' = some c then pure (.trim atEnd true, false)
    else
      unread c'
      pure (.trim atEnd false, false)
  match c with
  | some ':' => do pure (byCharacter true (← nextJoined fuel))
  | some '%' => trim true '%'
  | some '#' => trim false '#'
  | c => pure (byCharacter false c)

/-- Open a parameter in braces. -/
def openBraces (fuel : Nat) (d : Draft) : Read Draft := do
  let (name, c) ← bracedName fuel (← nextJoined fuel)
  let opening (o : Opened) (mode : Mode) : Draft :=
    let mode := if mode = .arithmetic then .double else mode
    let d := if mode ≠ d.level.mode || d.level.innerQuoted then
        d.push { mode := mode, quoted := mode ≠ .plain, ofBrace := true }
      else d
    let d := d.enter o
    d.onLevel fun l => { l with
      braces := l.braces + 1
      quotedBraces := if l.quoted then l.quotedBraces + 1 else l.quotedBraces }
  match name with
  | none =>
    unread c
    pure (opening (.parameter [] .bad) d.level.mode)
  | some (name, true) =>
    unread c
    pure (opening (.parameter name (if c = some '}' then .length else .bad)) d.level.mode)
  | some (name, false) =>
    match ← braceUse fuel c with
    | (.value, true) => pure (d.put (.parameter name .value []))
    | (.value, false) => pure (opening (.valueAndMore name) d.level.mode)
    | (.trim atEnd longest, _) => pure (opening (.parameter name (.trim atEnd longest)) .plain)
    | (use, _) => pure (opening (.parameter name use) d.level.mode)

/-- The text of a script between backquotes, read up to the closing one. -/
def backquoted (fuel : Nat) (quoted : Bool) (done : Text) : (steps : Nat) → Read Text
  | 0 => refuse "EOF in backquote substitution"
  | steps + 1 => do
    match ← nextJoined fuel with
    | none => refuse "EOF in backquote substitution"
    | some '\x60' => pure done.reverse
    | some '\\' =>
      match ← next with
      | none => refuse "EOF in backquote substitution"
      | some c =>
        if c = '\\' || c = '\x60' || c = '$' || (quoted && c = '"') then
          backquoted fuel quoted (c :: done) steps
        else backquoted fuel quoted (c :: '\\' :: done) steps
    | some '\n' =>
      countLine
      backquoted fuel quoted ('\n' :: done) steps
    | some c => backquoted fuel quoted (c :: done) steps

/-- Read what a dollar begins. -/
def dollar (fuel : Nat) (scripts : Scripts) (d : Draft) : Read Draft := do
  let c ← nextJoined fuel
  let plain : Read Draft := do
    unread c
    pure (d.char '$')
  if (← get).wanted.ending then plain
  else match c with
  | some '(' =>
    let c ← nextJoined fuel
    if c = some '(' then
      pure ((d.push { mode := .arithmetic, quoted := true }).enter .arithmetic)
    else
      unread c
      pure (d.put (.output (← scripts.parenthesized)))
  | some '{' => openBraces fuel d
  | some a =>
    if Name.isStart a then
      let (done, c) ← nameFrom fuel [] fuel (some a)
      unread c
      pure (d.put (.parameter done.reverse .value []))
    else if isSpecial a then pure (d.put (.parameter [a] .value []))
    else plain
  | none => plain

/-- Take one character into a word; `none` when the word ends in front of it. -/
def takeChar (fuel : Nat) (scripts : Scripts) (ending : Option Ending) (d : Draft) (c : Char) :
    Read (Option Draft) := do
  let l := d.level
  match l.mode.classOf c with
  | .newline => pure (if l.mode = .plain && l.braces = 0 then none else some (d.char c))
  | .ordinary => pure (some (d.char c))
  | .marked => pure (some (if ending.isNone || l.quoted then d.escape c else d.char c))
  | .backslash => do
    match ← next with
    | none => pure (some (d.escape '\\'))
    | some e =>
      let kept := l.quoted && e ≠ '\\' && e ≠ '\x60' && e ≠ '$' &&
        (e ≠ '"' || (ending.isSome && l.braces = 0)) && (e ≠ '}' || l.braces = 0)
      let d := if kept then d.escape '\\' else d
      pure (some { (d.escape e) with quoted := true })
  | .singleQuote =>
    let d := d.onLevel fun l => { l with mode := .single }
    pure (some (if ending.isNone then d.put .mark else d))
  | .doubleQuote =>
    let d := d.onLevel fun l => { l with
      mode := .double
      quoted := true
      innerQuoted := if l.braces > 0 then !l.innerQuoted else l.innerQuoted }
    pure (some (if ending.isNone then d.put .mark else d))
  | .endQuote =>
    if ending.isSome && l.braces = 0 then pure (some (d.char c))
    else
      let d := d.onLevel fun l =>
        if l.quotedBraces = 0 then { l with mode := .plain, quoted := false } else l
      let d := { d with quoted := true }
      let d := if c = '"' then
          d.onLevel fun l => { l with
            innerQuoted := if l.braces > 0 then !l.innerQuoted else l.innerQuoted }
        else d
      pure (some (if ending.isNone then d.put .mark else d))
  | .dollar => do pure (some (← dollar fuel scripts d))
  | .backquote => do
    if (← get).wanted.ending then pure (some (d.char c))
    else
      let t ← backquoted fuel l.quoted [] fuel
      pure (some (d.put (.output (← scripts.whole t))))
  | .closeBrace =>
    if !l.innerQuoted && l.braces > 0 then
      let d := d.onLevel fun l => { l with braces := l.braces - 1 }
      let d := if d.level.braces = 0 && l.ofBrace then d.pop
        else d.onLevel fun l => { l with quotedBraces := l.quotedBraces - 1 }
      pure (some d.leave)
    else pure (some (d.char c))
  | .openParen => pure (some ((d.onLevel fun l => { l with parens := l.parens + 1 }).char c))
  | .closeParen =>
    if l.parens > 0 then
      pure (some ((d.onLevel fun l => { l with parens := l.parens - 1 }).char c))
    else do
      let e ← nextJoined fuel
      if e = some ')' then pure (some d.pop.leave)
      else
        unread e
        pure (some (d.char ')'))
  | .ending => pure (if l.braces = 0 then none else some (d.char c))

/-- Take characters into a word until it ends. Gives the character behind it. -/
def takeAll (scripts : Scripts) (ending : Option Ending) :
    (fuel : Nat) → Draft → Option Char → Read (Draft × Option Char)
  | 0, d, c => pure (d, c)
  | fuel + 1, d, c => do
    match c with
    | none => pure (d, none)
    | some a =>
      match ← takeChar fuel scripts ending d a with
      | none => pure (d, c)
      | some d =>
        if a = '\n' then countLine
        let c ← nextIn fuel d
        let c ← if a = '\n' then startLine fuel ending c else pure c
        takeAll scripts ending fuel d c

/-- Complain if something is still open at the end of a word. -/
def closed (ending : Option Ending) (d : Draft) : Read Unit :=
  if d.level.mode = .arithmetic then refuse "Missing '))'"
  else if d.level.mode ≠ .plain && ending.isNone then refuse "Unterminated quoted string"
  else if d.level.braces ≠ 0 then refuse "Missing '\x7d'"
  else pure ()

/-- The text of a document. -/
def document (fuel : Nat) (scripts : Scripts) (w : Waiting) : Read Word := do
  let ending : Option Ending := some ⟨w.ending, w.dropsTabs⟩
  let mode : Mode := if w.literal then .single else .double
  let d : Draft := { level := { mode := mode, quoted := !w.literal } }
  let c ← nextIn fuel d
  let c ← startLine fuel ending c
  let (d, _) ← takeAll scripts ending fuel d c
  closed ending d
  pure d.parts.reverse

/-- Read the documents that were asked for. -/
def documents (fuel : Nat) (scripts : Scripts) : Read Unit := do
  let ws := (← get).waiting
  modify fun s => { s with waiting := [] }
  ws.forM fun w => do
    let t ← document fuel scripts w
    modify fun s => { s with documents := s.documents.setIfInBounds w.number t }

/-- The direction that a redirection operator gives, of which the first character was
read, and the descriptor that it changes if none is named. -/
def direction (fuel : Nat) (c : Char) : Read (Nat × Direction) := do
  let e ← nextJoined fuel
  if c = '>' then
    match e with
    | some '>' => pure (1, .open .append)
    | some '|' => pure (1, .open .overwrite)
    | some '&' => pure (1, .copy)
    | e =>
      unread e
      pure (1, .open .write)
  else
    match e with
    | some '<' =>
      match ← nextJoined fuel with
      | some '-' => pure (0, .document true)
      | e =>
        unread e
        pure (0, .document false)
    | some '&' => pure (0, .copy)
    | some '>' => pure (0, .open .readWrite)
    | e =>
      unread e
      pure (0, .open .read)

/-- Read a word, or a redirection operator, that begins with the character. -/
def wordToken (fuel : Nat) (scripts : Scripts) (c : Char) : Read Token := do
  let (d, c) ← takeAll scripts none fuel { level := { mode := .plain } } (some c)
  closed none d
  let descriptor? : Option (Option Nat) := match d.parts with
    | [] => some none
    | [.char a] => if a.isDigit then some (some (a.toNat - '0'.toNat)) else none
    | _ => none
  match descriptor?, c with
  | some n, some a =>
    if (a = '<' || a = '>') && !d.quoted then
      let (usual, dir) ← direction fuel a
      pure (.redirection (n.getD usual) dir)
    else do
      unread c
      modify fun s => { s with word := d.parts.reverse, quoted := d.quoted }
      pure .word
  | _, c => do
    unread c
    modify fun s => { s with word := d.parts.reverse, quoted := d.quoted }
    pure .word

/-- Step over a comment. -/
def skipComment : (fuel : Nat) → Read Unit
  | 0 => pure ()
  | fuel + 1 => do
    match ← next with
    | none => pure ()
    | some '\n' => unread (some '\n')
    | some _ => skipComment fuel

/-- Read a token: an operator that may have a second character, or a word. -/
def rawToken (scripts : Scripts) : (fuel : Nat) → Read Token
  | 0 => pure .endOfText
  | fuel + 1 => do
    let second (c : Char) (two one : Token) : Read Token := do
      let e ← nextJoined fuel
      if e = some c then pure two
      else
        unread e
        pure one
    match ← nextJoined fuel with
    | none => pure .endOfText
    | some ' ' | some '\t' => rawToken scripts fuel
    | some '#' =>
      skipComment fuel
      rawToken scripts fuel
    | some '\n' =>
      countLine
      pure .newline
    | some '&' => second '&' .andAnd .ampersand
    | some '|' => second '|' .orOr .pipe
    | some ';' => second ';' .endOfCase .semicolon
    | some '(' => pure .openParen
    | some ')' => pure .closeParen
    | some c => wordToken fuel scripts c

/-- The next token as it stands, or the one that was given back. -/
def tokenAsIs (fuel : Nat) (scripts : Scripts) : Read Token := do
  let s ← get
  if s.givenBack then
    set { s with givenBack := false }
    pure s.token
  else
    let t ← rawToken scripts fuel
    modify fun s => { s with token := t }
    pure t

/-- Step over newlines. Documents stand behind them. -/
def skipNewlines (scripts : Scripts) : (fuel : Nat) → Token → Read Token
  | 0, t => pure t
  | fuel + 1, t =>
    if t = .newline then do
      documents fuel scripts
      skipNewlines scripts fuel (← tokenAsIs fuel scripts)
    else pure t

/-- The alias that a word is, unless its text is being read. -/
def alias? (s : Source) : Option Pushed :=
  match plainText? s.word with
  | none => none
  | some name =>
    if s.pushed.any fun p => p.name = name then none
    else (s.aliases.lookup name).map fun t =>
      ⟨t, name, t.getLast? = some ' ' || t.getLast? = some '\t'⟩

/-- Read the next token, with what is wanted of it. -/
def token (scripts : Scripts) (wanted : Wanted) : (fuel : Nat) → Read Token
  | 0 => pure .endOfText
  | fuel + 1 => do
    let t ← tokenAsIs fuel scripts
    let t ← if wanted.newlines then skipNewlines scripts fuel t else pure t
    let s ← get
    let wanted := { wanted with
      newlines := wanted.newlines || s.wanted.newlines
      keywords := wanted.keywords || s.wanted.keywords
      aliases := wanted.aliases || s.wanted.aliases }
    let s := { s with wanted := {} }
    set s
    if t ≠ .word || s.quoted then pure t
    else
      match if wanted.keywords then (plainText? s.word).bind Keyword.ofText? else none with
      | some k =>
        set { s with token := .keyword k }
        pure (.keyword k)
      | none =>
        match if wanted.aliases then alias? s else none with
        | some p =>
          set { s with pushed := p :: s.pushed }
          token scripts wanted fuel
        | none => pure t

/-- Read the next token, with what was wanted of it beforehand. -/
def nextToken (fuel : Nat) (scripts : Scripts) : Read Token := do
  token scripts (← get).wanted fuel

end Read
end Posix
end EnvValues
