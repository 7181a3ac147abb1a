import EnvValues.Name
import EnvValues.Shell.Posix.Syntax

/-!
# What is being read

Commands are read character by character from a text. In front of the text may stand
the texts of aliases: **a word that is an alias is replaced by text that is read in
turn**, and the alias is not replaced again inside its own text.

A token may be given back, so that it is the next one again.
-/

namespace EnvValues
namespace Posix

/-- Why a text is no command. -/
structure SyntaxError where
  line : Nat
  message : Text

/-- The words that have a meaning of their own where a command may begin. -/
inductive Keyword
  | bang | case | do_ | done | elif | else_ | esac | fi | for_ | if_ | in_ | then_ | until_
  | while_ | openBrace | closeBrace
  deriving DecidableEq, Repr

namespace Keyword

/-- How a keyword is written. -/
def written : Keyword → String
  | bang => "!"
  | case => "case"
  | do_ => "do"
  | done => "done"
  | elif => "elif"
  | else_ => "else"
  | esac => "esac"
  | fi => "fi"
  | for_ => "for"
  | if_ => "if"
  | in_ => "in"
  | then_ => "then"
  | until_ => "until"
  | while_ => "while"
  | openBrace => "\x7b"
  | closeBrace => "\x7d"

/-- All keywords. -/
def all : List Keyword :=
  [bang, case, do_, done, elif, else_, esac, fi, for_, if_, in_, then_, until_, while_, openBrace,
   closeBrace]

/-- The keyword that a text is. -/
def ofText? (t : Text) : Option Keyword := all.find? fun k => k.written.toList = t

/-- Does the keyword end a list of commands? -/
def endsList : Keyword → Bool
  | do_ | done | elif | else_ | esac | fi | then_ | closeBrace => true
  | _ => false

end Keyword

/-- What a redirection does, as its operator says. -/
inductive Direction
  | open (access : Access)
  | copy
  /-- To a text behind the line, with or without the tabs its lines begin with. -/
  | document (dropsTabs : Bool)
  deriving DecidableEq, Repr

/-- What commands are made of. The word of a word token is kept apart from it. -/
inductive Token
  | endOfText
  | newline
  | semicolon
  | ampersand
  | andAnd
  | orOr
  | pipe
  | openParen
  | closeParen
  | endOfCase
  | word
  | keyword (k : Keyword)
  | redirection (descriptor : Nat) (d : Direction)
  deriving DecidableEq, Repr

namespace Token

/-- A token, as an error message names it. -/
def name : Token → String
  | endOfText => "end of file"
  | newline => "newline"
  | semicolon => "\";\""
  | ampersand => "\"&\""
  | andAnd => "\"&&\""
  | orOr => "\"||\""
  | pipe => "\"|\""
  | openParen => "\"(\""
  | closeParen => "\")\""
  | endOfCase => "\";;\""
  | word => "word"
  | keyword k => "\"" ++ k.written ++ "\""
  | redirection _ _ => "redirection"

/-- Does the token end a list of commands? -/
def endsList : Token → Bool
  | endOfText | closeParen | endOfCase => true
  | keyword k => k.endsList
  | _ => false

end Token

/-- What is looked for in the next token. -/
structure Wanted where
  /-- Newlines are stepped over. -/
  newlines : Bool := false
  /-- A word may be a keyword. -/
  keywords : Bool := false
  /-- A word may be an alias. -/
  aliases : Bool := false
  /-- The word ends a document, so nothing in it is expanded. -/
  ending : Bool := false

namespace Wanted

/-- Where a command begins. -/
def command : Wanted := { keywords := true, aliases := true }

/-- Where a command begins, perhaps on a later line. -/
def commandLater : Wanted := { newlines := true, keywords := true, aliases := true }

end Wanted

/-- The text of an alias that is being read. -/
structure Pushed where
  text : Text
  name : Text
  /-- A text that ends in a blank lets the next word be an alias, too. -/
  blankAtEnd : Bool

/-- A document that is still to be read. -/
structure Waiting where
  number : Nat
  ending : Text
  dropsTabs : Bool
  /-- Is its text taken as it is written? -/
  literal : Bool

/-- The state of a reader. -/
structure Source where
  text : Text
  line : Nat := 1
  pushed : List Pushed := []
  aliases : List (Text × Text) := []
  wanted : Wanted := {}
  token : Token := .newline
  /-- Is the token to be read again? -/
  givenBack : Bool := false
  word : Word := []
  /-- Was some of the word quoted? -/
  quoted : Bool := false
  waiting : List Waiting := []
  /-- The texts of documents, each known by its place. -/
  documents : Array Word := #[]

/-- A reader, which may find that a text is no command. -/
abbrev Read := StateT Source (Except SyntaxError)

namespace Read

/-- Stop at an error. -/
def refuse {α : Type} (message : String) : Read α := fun s => .error ⟨s.line, message.toList⟩

/-- The next character, if there is one. The end of the text of an alias is no
character. -/
def nextOf (s : Source) : Option Char × Source :=
  go s s.pushed
where
  /-- Take a character from the innermost text that has one left. -/
  go (s : Source) : List Pushed → Option Char × Source
    | [] =>
      match s.text with
      | [] => (none, { s with pushed := [] })
      | c :: r => (some c, { s with pushed := [], text := r })
    | p :: ps =>
      match p.text with
      | c :: r => (some c, { s with pushed := { p with text := r } :: ps })
      | [] =>
        go (if p.blankAtEnd then { s with wanted := { s.wanted with aliases := true } } else s) ps

/-- Read a character. -/
def next : Read (Option Char) := fun s => .ok (nextOf s)

/-- Give back a character. -/
def unread : Option Char → Read Unit
  | none => pure ()
  | some c => modify fun s =>
    match s.pushed with
    | [] => { s with text := c :: s.text }
    | p :: ps => { s with pushed := { p with text := c :: p.text } :: ps }

/-- Count a line. -/
def countLine : Read Unit := modify fun s => { s with line := s.line + 1 }

/-- Read a character, stepping over ends of lines behind a backslash. -/
def nextJoined : (fuel : Nat) → Read (Option Char)
  | 0 => next
  | fuel + 1 => do
    match ← next with
    | some '\\' =>
      match ← next with
      | some '\n' =>
        countLine
        nextJoined fuel
      | c =>
        unread c
        pure (some '\\')
    | c => pure c

/-- Want something of the next token. -/
def want (w : Wanted) : Read Unit := modify fun s => { s with wanted := w }

/-- Let the token be the next one again. -/
def giveBack : Read Unit := modify fun s => { s with givenBack := true }

/-- Stop at a token that cannot stand there. -/
def unexpected {α : Type} : Read α := do
  refuse ((← get).token.name ++ " unexpected")

/-- Stop at a token where another one must stand. -/
def expected {α : Type} (t : Token) : Read α := do
  refuse ((← get).token.name ++ " unexpected (expecting " ++ t.name ++ ")")

end Read
end Posix
end EnvValues
