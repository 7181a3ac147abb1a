import EnvValues.Shell.Posix.Reader.Word

/-!
# Reading commands

The grammar, one function for each of its levels: lists, chains of `&&` and `||`,
pipelines, commands, simple commands. Words hold commands and commands hold words, so
**all of them count down from the same fuel**, which bounds how long and how deeply
nested a command may be.

A shell reads one line of commands and runs it before it reads the next, so the entry
is `Source.command?`, which gives the commands of one line and the source behind it.
-/

namespace EnvValues
namespace Posix

/-- Where a list of commands stands. -/
inductive Place
  /-- In a compound command: there must be a command. -/
  | inner
  /-- In a script, of which one line is read. -/
  | line
  /-- In a place that may be left empty. -/
  | optional
  deriving DecidableEq, Repr

/-- The commands that must not be functions: the special ones of the shell. -/
def specialNames : List String :=
  ["break", ":", "continue", ".", "eval", "exec", "exit", "export", "local", "readonly", "return",
   "set", "shift", "times", "trap", "unset"]

/-- One command behind another one, if there is one. -/
def andThen (a : Option Command) (b : Command) : Command :=
  match a with
  | none => b
  | some a => .sequence a b

/-- The command, to be run in the background. -/
def inBackground : Command → Command
  | .pipeline _ stages => .pipeline true stages
  | .redirected _ body rs => .background body rs
  | c => .background c []

/-- Does a word begin with a name and an equals sign? -/
def isAssignment (w : Word) : Bool :=
  match plainText? (w.takeWhile fun p => match p with
    | .char c => c ≠ '='
    | _ => false) with
  | some name =>
    Name.isName name && match w.drop name.length with
      | .char '=' :: _ => true
      | _ => false
  | none => false

/-- The word of all arguments. -/
def allArguments : Word := [.mark, .parameter ['@'] .value [], .mark]

namespace Read

/-- The text of a word that ends a document: what is written, without its quotes. -/
def endingText (w : Word) : Text :=
  w.filterMap fun p =>
    match p with
    | .char c | .escaped c => some c
    | _ => none

/-- What a redirection does, of which the operator was read. -/
def redirect (token : Read Token) (descriptor : Nat) (d : Direction) : Read Redirect := do
  match d with
  | .document _ => want { ending := true }
  | _ => pure ()
  if (← token) ≠ .word then unexpected
  let s ← get
  match d with
  | .open access => pure (.file descriptor access s.word)
  | .copy =>
    match s.word with
    | [.char c] =>
      if c.isDigit then pure (.copy descriptor (some (c.toNat - '0'.toNat)))
      else if c = '-' then pure (.copy descriptor none)
      else pure (.copyNamed descriptor s.word)
    | w => pure (.copyNamed descriptor w)
  | .document dropsTabs =>
    let n := s.documents.size
    let w : Waiting := ⟨n, endingText s.word, dropsTabs, s.quoted⟩
    set { s with documents := s.documents.push [], waiting := s.waiting ++ [w] }
    pure (.document descriptor n)

/-- Read redirections, as many as there are, behind those read before (last to first). -/
def redirects (token : Read Token) (done : List Redirect) : (fuel : Nat) → Read (List Redirect)
  | 0 => pure done.reverse
  | fuel + 1 => do
    match ← token with
    | .redirection descriptor d => do
      let r ← redirect token descriptor d
      redirects token (r :: done) fuel
    | _ =>
      giveBack
      pure done.reverse

/-- Read words up to another token. -/
def words (token : Read Token) (done : List Word) : (fuel : Nat) → Read (List Word)
  | 0 => pure done.reverse
  | fuel + 1 => do
    match ← token with
    | .word => do words token ((← get).word :: done) fuel
    | _ => pure done.reverse

/-- Read the patterns of a branch, of which the first token was read, up to a closing
parenthesis. A token that is no word leaves the word that was read last. -/
def patterns (token : Read Token) (done : List Word) : (fuel : Nat) → Read (List Word)
  | 0 => pure done.reverse
  | fuel + 1 => do
    let done := (← get).word :: done
    match ← token with
    | .pipe =>
      let _ ← token
      patterns token done fuel
    | .closeParen => pure done.reverse
    | _ => expected .closeParen

/-- A simple command so far. -/
structure Simple where
  assignments : List Word := []
  words : List Word := []
  redirects : List Redirect := []

/-- The command, when nothing follows. -/
def Simple.command (s : Simple) (line : Nat) : Command :=
  .simple line s.assignments.reverse s.words.reverse s.redirects.reverse

/-- Read the rest of a simple command. When it turns out to be the definition of a
function, the rest of that is read with `body`. -/
def simple (token : Read Token) (body : Read Command) (line : Nat) (s : Simple) :
    (fuel : Nat) → Read Command
  | 0 => pure (s.command line)
  | fuel + 1 => do
    want { aliases := s.words.isEmpty }
    match ← token with
    | .word =>
      let w := (← get).word
      if s.words.isEmpty && isAssignment w then
        simple token body line { s with assignments := w :: s.assignments } fuel
      else simple token body line { s with words := w :: s.words } fuel
    | .redirection descriptor d => do
      let r ← redirect token descriptor d
      simple token body line { s with redirects := r :: s.redirects } fuel
    | .openParen =>
      match s with
      | ⟨[], [name], []⟩ => do
        if (← token) ≠ .closeParen then expected .closeParen
        match plainText? name with
        | some n =>
          if !Name.isName n || specialNames.any fun w => w.toList = n then
            refuse "Bad function name"
          else
            want .commandLater
            let line := (← get).line
            pure (.define line n (← body))
        | none => refuse "Bad function name"
      | s =>
        giveBack
        pure (s.command line)
    | _ =>
      giveBack
      pure (s.command line)

mutual

/-- The readers of commands inside words. -/
def scripts : (fuel : Nat) → Scripts
  | 0 => ⟨pure none, fun _ => pure none⟩
  | fuel + 1 =>
    { parenthesized := do
        let waiting := (← get).waiting
        modify fun s => { s with waiting := [] }
        let c ← list .optional fuel
        let t ← nextToken fuel (scripts fuel)
        if t ≠ .closeParen then expected .closeParen
        modify fun s => { s with waiting := waiting }
        pure c
      whole := fun t => do
        let outer ← get
        set { outer with text := t, line := 1, pushed := [], waiting := [] }
        let c ← list .optional fuel
        modify fun s => { s with
          text := outer.text, line := outer.line, pushed := outer.pushed
          waiting := outer.waiting, givenBack := false }
        pure c }

/-- Read a list of commands. -/
def list (p : Place) : (fuel : Nat) → Read (Option Command)
  | 0 => pure none
  | fuel + 1 => listFrom p none fuel

/-- Read a list of commands, behind those read before. -/
def listFrom (p : Place) (done : Option Command) : (fuel : Nat) → Read (Option Command)
  | 0 => pure done
  | fuel + 1 => do
    want (if p = .line then .command else .commandLater)
    let t ← nextToken fuel (scripts fuel)
    match t with
    | .newline =>
      documents fuel (scripts fuel)
      pure done
    | .endOfText =>
      documents fuel (scripts fuel)
      giveBack
      pure done
    | _ =>
      giveBack
      if t.endsList && p ≠ .line && (p = .optional || done.isSome) then pure done
      else
        let c ← chain fuel
        let t ← nextToken fuel (scripts fuel)
        let c := if t = .ampersand then inBackground c else c
        let done := some (andThen done c)
        match t with
        | .endOfText =>
          documents fuel (scripts fuel)
          giveBack
          pure done
        | .newline =>
          giveBack
          listFrom p done fuel
        | .ampersand | .semicolon => listFrom p done fuel
        | _ =>
          if p = .line then unexpected
          else
            giveBack
            pure done

/-- Read pipelines joined by `&&` and `||`. -/
def chain : (fuel : Nat) → Read Command
  | 0 => unexpected
  | fuel + 1 => do
    let c ← pipeline fuel
    chainFrom c fuel

/-- Read a chain of pipelines behind a command. -/
def chainFrom (done : Command) : (fuel : Nat) → Read Command
  | 0 => pure done
  | fuel + 1 => do
    match ← nextToken fuel (scripts fuel) with
    | .andAnd => do
      want .commandLater
      let c ← pipeline fuel
      chainFrom (.both done c) fuel
    | .orOr => do
      want .commandLater
      let c ← pipeline fuel
      chainFrom (.either done c) fuel
    | _ =>
      giveBack
      pure done

/-- Read commands joined by `|`, perhaps negated. -/
def pipeline : (fuel : Nat) → Read Command
  | 0 => unexpected
  | fuel + 1 => do
    let negated := (← nextToken fuel (scripts fuel)) = .keyword .bang
    if negated then want .command else giveBack
    let first ← command fuel
    let c ← match ← nextToken fuel (scripts fuel) with
      | .pipe => stages [first] fuel
      | _ => do
        giveBack
        pure first
    pure (if negated then .negation c else c)

/-- Read the commands of a pipeline behind those read before (last to first). -/
def stages (done : List Command) : (fuel : Nat) → Read Command
  | 0 => unexpected
  | fuel + 1 => do
    want .commandLater
    let c ← command fuel
    match ← nextToken fuel (scripts fuel) with
    | .pipe => stages (c :: done) fuel
    | _ =>
      giveBack
      pure (.pipeline false (c :: done).reverse)

/-- Read a list that must hold a command, and the keyword behind it. -/
def block (ending : Keyword) : (fuel : Nat) → Read Command
  | 0 => unexpected
  | fuel + 1 => do
    let c ← list .inner fuel
    if (← nextToken fuel (scripts fuel)) ≠ .keyword ending then expected (.keyword ending)
    pure (c.getD default)

/-- Read what stands behind `if` or `elif`, up to `fi`. -/
def branches : (fuel : Nat) → Read Command
  | 0 => unexpected
  | fuel + 1 => do
    let test ← block .then_ fuel
    let yes := (← list .inner fuel).getD default
    match ← nextToken fuel (scripts fuel) with
    | .keyword .elif => do
      pure (.conditional test yes (some (← branches fuel)))
    | .keyword .else_ => do
      pure (.conditional test yes (some (← block .fi fuel)))
    | .keyword .fi => pure (.conditional test yes none)
    | _ => expected (.keyword .fi)

/-- Read the branches of a selection behind those read before (last to first). -/
def cases (line : Nat) (w : Word) (done : List Branch) : (fuel : Nat) → Read Command
  | 0 => unexpected
  | fuel + 1 => do
    want { newlines := true, keywords := true }
    match ← nextToken fuel (scripts fuel) with
    | .keyword .esac => pure (.select line w done.reverse)
    | t =>
      if t = .openParen then
        let _ ← nextToken fuel (scripts fuel)
      let ps ← patterns (nextToken fuel (scripts fuel)) [] fuel
      let body ← list .optional fuel
      let done := (ps, body) :: done
      want { newlines := true, keywords := true }
      match ← nextToken fuel (scripts fuel) with
      | .keyword .esac => pure (.select line w done.reverse)
      | .endOfCase => cases line w done fuel
      | _ => expected .endOfCase

/-- Read what stands behind `for`. -/
def forEach (line : Nat) : (fuel : Nat) → Read Command
  | 0 => unexpected
  | fuel + 1 => do
    let t ← nextToken fuel (scripts fuel)
    let s ← get
    match if t = .word && !s.quoted then plainText? s.word else none with
    | none => refuse "Bad for loop variable"
    | some name =>
      if !Name.isName name then refuse "Bad for loop variable"
      want .commandLater
      let t ← nextToken fuel (scripts fuel)
      let ws ← if t = .keyword .in_ then do
          let ws ← words (nextToken fuel (scripts fuel)) [] fuel
          let t := (← get).token
          if t ≠ .newline && t ≠ .semicolon then unexpected
          pure ws
        else do
          if t ≠ .semicolon then giveBack
          pure [allArguments]
      want .commandLater
      if (← nextToken fuel (scripts fuel)) ≠ .keyword .do_ then expected (.keyword .do_)
      pure (.forEach line name ws (← block .done fuel))

/-- Read a command that is no pipeline. -/
def command : (fuel : Nat) → Read Command
  | 0 => unexpected
  | fuel + 1 => do
    let line := (← get).line
    let withRedirects (c : Command) : Read Command := do
      want .command
      let rs ← redirects (do let t ← nextToken fuel (scripts fuel); pure t) [] fuel
      pure (match c, rs with
        | c, [] => c
        | .subshell line body _, rs => .subshell line body rs
        | c, rs => .redirected line c rs)
    match ← nextToken fuel (scripts fuel) with
    | .keyword .if_ => do withRedirects (← branches fuel)
    | .keyword .while_ => do
      let test ← block .do_ fuel
      let body ← block .done fuel
      withRedirects (.loop false test body)
    | .keyword .until_ => do
      let test ← block .do_ fuel
      let body ← block .done fuel
      withRedirects (.loop true test body)
    | .keyword .for_ => do withRedirects (← forEach line fuel)
    | .keyword .case => do
      if (← nextToken fuel (scripts fuel)) ≠ .word then expected .word
      let w := (← get).word
      want .commandLater
      if (← nextToken fuel (scripts fuel)) ≠ .keyword .in_ then expected (.keyword .in_)
      withRedirects (← cases line w [] fuel)
    | .openParen => do
      let c ← list .inner fuel
      if (← nextToken fuel (scripts fuel)) ≠ .closeParen then expected .closeParen
      withRedirects (.subshell line (c.getD default) [])
    | .keyword .openBrace => do withRedirects (← block .closeBrace fuel)
    | .word | .redirection _ _ => do
      giveBack
      simple (nextToken fuel (scripts fuel)) (command fuel) line {} fuel
    | _ => unexpected

end

end Read

/-- How long and how deeply nested a command may be. -/
def readingFuel : Nat := 100000000

/-- The commands of the first line that is left; nothing behind the end of the text.
A line may hold no command. -/
def Source.command? (s : Source) : Except SyntaxError (Option (Option Command) × Source) := do
  let s := { s with givenBack := false, wanted := {}, waiting := [] }
  let (c, s) ← Read.list .line readingFuel |>.run s
  pure (if c.isNone && s.token = .endOfText then none else some c, s)

/-- Was the end of the text seen, and is to be seen again? -/
def Source.atEnd (s : Source) : Bool := s.token = .endOfText && s.givenBack

/-- A text, read as if it stood between quotes. -/
def Source.quoted? (s : Source) (t : Text) : Except SyntaxError Word := do
  let s := { s with text := t, line := 1, pushed := [], waiting := [] }
  -- no line ends the text before its end
  let w : Waiting := ⟨0, ['\x00'], false, false⟩
  let (w, _) ← Read.document readingFuel (Read.scripts readingFuel) w |>.run s
  pure w

end Posix
end EnvValues
