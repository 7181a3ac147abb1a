import EnvValues.Shell.Posix.Builtin.Variables
import EnvValues.Shell.Posix.Interpreter

/-!
# How a shell starts

A shell takes its variables from the environment, and its options and its script from its
arguments: the script is the argument behind `-c` and the options, or the text of a file,
or what is there to read.
-/

namespace EnvValues
namespace Posix

/-- The script that the arguments of a shell name. -/
inductive ScriptSource
  | command (t : Text)
  | file (path : Text) (arguments : List Text)
  | input

namespace Run

/-- Get to know the variables of the environment. -/
def importVariables (given : List (Text × Text)) : Run Unit := do
  firstVariables.reverse.forM fun (n, v) => setVariable n.toList v { fixed := true } false
  given.forM fun (n, v) => do
    if Name.isName n then setVariable n (some v) { exported := true } true
  setVariable "IFS".toList (some " \t\n".toList) {} true
  setVariable "OPTIND".toList (some ['1']) {} true
  let p ← process
  setVariable "PPID".toList (some (Numeral.decimal p.parent)) {} true
  let m ← get
  let path? (t : Text) : Option Text :=
    ((m.system.files.find p.directory t true).toOption).map Prod.fst
  match ← lookup "PWD".toList with
  | some t =>
    if t.head? = some '/' && (path? t).isSome && path? t = path? p.directory then
      update fun p => { p with directory := t }
    else update fun p => { p with directory := (path? p.directory).getD p.directory }
  | none => update fun p => { p with directory := (path? p.directory).getD p.directory }
  setVariable "PWD".toList (some (← process).directory) { exported := true } true

/-- Take the options among the letters of an argument. The flag says whether a script
stands among the arguments. -/
def startLetters (on : Bool) (scripted : Bool) (args : List Text) : Text → Run (Bool × List Text)
  | [] => pure (scripted, args)
  | c :: r => do
    if c = 'c' then startLetters on true args r
    else if c = 'l' then startLetters on scripted args r
    else if c = 'o' then
      match args with
      | [] => listOptions on
      | a :: _ => switchName a on
      startLetters on scripted (args.drop 1) r
    else
      switchLetter c on
      startLetters on scripted args r

/-- Take options, and give the arguments behind them. -/
def startOptions (scripted : Bool) : (fuel : Nat) → List Text → Run (Bool × List Text)
  | 0, args => pure (scripted, args)
  | fuel + 1, args => do
    match args with
    | ['-'] :: r | ['-', '-'] :: r => pure (scripted, r)
    | ('-' :: letters) :: r => do
      let (scripted, r) ← startLetters true scripted r letters
      startOptions scripted fuel r
    | ('+' :: letters) :: r => do
      let (scripted, r) ← startLetters false scripted r letters
      startOptions scripted fuel r
    | args => pure (scripted, args)

/-- Take the arguments of a shell. -/
def startArguments (args : List Text) : Run ScriptSource := do
  let (scripted, args) ← startOptions false (args.length + 1) args
  match scripted, args with
  | true, [] => fail "-c requires an argument".toList
  | true, t :: rest => do
    match rest with
    | name :: rest => update fun p => { p with program := name, arguments := rest }
    | [] => pure ()
    pure (.command t)
  | false, [] => do
    switchOption 's' true
    pure .input
  | false, path :: rest => do
    if ← option 's' then
      setArguments args
      pure .input
    else pure (.file path rest)

/-- Read all there is to read from a descriptor. -/
def readAll (n : Nat) : Run Text := do
  match ← readFrom n none with
  | .ok t => pure t
  | .error _ => pure []

/-- The text of a file of commands. -/
def scriptText (path : Text) : Run Text := do
  match ← openForReading path with
  | .ok d =>
    match ← readOpened d.target none with
    | .ok t => pure t
    | .error _ => pure []
  | .error e =>
    let message := match e with
      | .missing | .notDirectory => "No such file"
      | e => e.message
    fail ("cannot open ".toList ++ path ++ ": ".toList ++ message.toList)

/-- Begin a shell in place of the process, with these arguments and this environment, and
run it to its end. -/
def startShell (i : Interpreter) (program : Text) (args : List Text)
    (given : List (Text × Text)) : Run Outcome := do
  let p ← process
  update fun _ =>
    { program := program, number := p.number, main := p.number, parent := p.parent
      descriptors := p.descriptors, directory := p.directory, mask := p.mask
      traps := p.traps.filter (fun t => t.2.isEmpty) }
  let r ← attempt do
    importVariables given
    match ← startArguments args with
    | .command t => do
      let _ ← script i {} t
      if ← option 's' then
        let _ ← script i {} (← readAll 0)
    | .file path rest => do
      let t ← scriptText path
      update fun p => { p with program := path, arguments := rest }
      let _ ← script i {} t
    | .input => do
      let t ← readAll 0
      let _ ← script i {} t
  let o ← endProcess i r
  runSuspended i (fun s => s.process.parent = p.number) mostSuspended
  pure o

end Run
end Posix
end EnvValues
