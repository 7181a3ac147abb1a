import EnvValues.Shell.Posix.Variables

/-!
# Arguments of built-in commands

Options stand in front of the other arguments, several of them in one argument or each in
its own, up to an argument that is no option or to `--`.
-/

namespace EnvValues
namespace Posix

/-- A text in quotes, so that a shell reads it as one word. -/
def quotedText (t : Text) : Text :=
  let run := t.takeWhile (· ≠ '\'')
  let rest := t.drop run.length
  '\'' :: run ++ '\'' :: quotes rest.length rest
where
  /-- Go on at a quote. -/
  quotes : (fuel : Nat) → Text → Text
    | 0, _ => []
    | _, [] => []
    | fuel + 1, t =>
      let qs := t.takeWhile (· = '\'')
      let rest := t.drop qs.length
      let run := rest.takeWhile (· ≠ '\'')
      let tail := if rest.isEmpty then [] else
        '\'' :: run ++ '\'' :: quotes fuel (rest.drop run.length)
      '"' :: qs ++ '"' :: tail

/-- A text with blanks behind it, so many characters long at least. -/
def padded (n : Nat) (t : Text) : Text := t ++ List.replicate (n - t.length) ' '

/-- An option, with its argument if it takes one. -/
abbrev Flag := Char × Text

namespace Run

/-- The options among the letters of an argument. A letter with a colon behind it among
the accepted ones takes what is left of the argument, or the next argument. -/
def flagsOf (accepted : Text) (args : List Text) : Text → Run (List Flag × List Text)
  | [] => pure ([], args)
  | c :: r => do
    if c = ':' || !accepted.contains c then fail ("Illegal option -".toList ++ [c])
    else if (accepted.dropWhile (· ≠ c))[1]? = some ':' then
      match r, args with
      | [], [] => fail ("No arg for -".toList ++ c :: " option".toList)
      | [], a :: args => pure ([(c, a)], args)
      | r, args => pure ([(c, r)], args)
    else
      let (fs, args) ← flagsOf accepted args r
      pure ((c, []) :: fs, args)

/-- The options in front of the other arguments, and the other arguments. -/
def flags (accepted : Text) (done : List Flag) : (fuel : Nat) → List Text →
    Run (List Flag × List Text)
  | 0, args => pure (done, args)
  | fuel + 1, args => do
    match args with
    | ['-', '-'] :: args => pure (done, args)
    | ('-' :: c :: r) :: args => do
      let (fs, args) ← flagsOf accepted args (c :: r)
      flags accepted (done ++ fs) fuel args
    | args => pure (done, args)

/-- The options in front of the other arguments, and the other arguments. -/
def takeFlags (accepted : String) (args : List Text) : Run (List Flag × List Text) :=
  flags accepted.toList [] (args.length + 1) args

/-- The arguments of a command that takes no options. -/
def noFlags (args : List Text) : Run (List Text) := do return (← takeFlags "" args).2

/-- Print a line. -/
def printLine (t : Text) : Run Unit := print (t ++ ['\n'])

end Run
end Posix
end EnvValues
