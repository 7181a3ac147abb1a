import EnvValues.Shell.Posix.Lookup
import EnvValues.Shell.Posix.Program.Files
import EnvValues.Shell.Posix.Program.Filters
import EnvValues.Shell.Posix.Program.Plain
import EnvValues.Shell.Posix.Startup

/-!
# Starting programs

A program takes the place of the process that starts it. A file that is no program but may
be run is a script: for the interpreter that its first line names, or for a shell.
-/

namespace EnvValues
namespace Posix

/-- The programs that need nothing but their arguments. -/
def plainPrograms : List (String × Program) :=
  [("cat", Program.cat), ("tee", Program.tee), ("tr", Program.tr), ("head", Program.head),
   ("tail", Program.tail), ("wc", Program.wc), ("sort", Program.sort), ("uniq", Program.uniq),
   ("cut", Program.cut), ("rev", Program.rev), ("true", Program.succeed),
   ("false", Program.failing), ("echo", Program.echo), ("printf", Program.printf),
   ("test", Program.test), ("[", Program.test), ("whoami", Program.whoami), ("id", Program.id_),
   ("uname", Program.uname), ("pwd", Program.pwd), ("basename", Program.basename),
   ("dirname", Program.dirname), ("seq", Program.seq), ("expr", Program.expr),
   ("mkdir", Program.mkdir), ("rmdir", Program.rmdir), ("rm", Program.rm),
   ("touch", Program.touch), ("chmod", Program.chmod), ("ls", Program.ls)]

/-- The programs that are installed. -/
def installedPrograms : List String :=
  plainPrograms.map Prod.fst ++ ["dash", "env", "printenv", "sleep"]

namespace Run

/-- The environment of a program. -/
abbrev Given := List (Text × Text)

/-- Is the text a span of time? -/
def isInterval (t : Text) : Bool :=
  let t := if t.getLast?.any "smhd".toList.contains then t.dropLast else t
  match Floating.read? t with
  | some (f, _, []) => !f.negative
  | _ => false

/-- Let time pass, in which what runs in the background comes to its end. -/
def sleep (i : Interpreter) : Program := fun name args => do
  if args.isEmpty then Program.misused 1 name "missing operand".toList
  else
    match args.filter fun a => !isInterval a with
    | [] =>
      runSuspended i (fun _ => true) mostSuspended
      pure 0
    | bad =>
      bad.forM fun a =>
        Program.complain name ("invalid time interval ".toList ++ Program.quoted a)
      Program.suggestHelp name
      pure 1

/-- Give a name another value in an environment. -/
def setGiven (given : Given) (name value : Text) : Given :=
  if (given.lookup name).isSome then
    given.map fun e => if e.1 = name then (name, value) else e
  else given ++ [(name, value)]

/-- What the arguments of `env` ask for: an environment, and a program with its arguments;
or the letter of an option there is not. -/
def envArguments (given : Given) : (fuel : Nat) → List Text →
    Except Char (Given × List Text)
  | 0, args => .ok (given, args)
  | fuel + 1, args =>
    match args with
    | ['-', 'i'] :: r | ['-'] :: r => envArguments [] fuel r
    | ['-', 'u'] :: n :: r => envArguments (given.filter fun e => e.1 ≠ n) fuel r
    | ['-', '-'] :: r => .ok (assigned given r)
    | ('-' :: c :: _) :: _ => .error c
    | args => .ok (assigned given args)
where
  /-- Take assignments. -/
  assigned (given : Given) : List Text → Given × List Text
    | [] => (given, [])
    | a :: r =>
      if a.contains '=' then
        let name := a.takeWhile (· ≠ '=')
        assigned (setGiven given name (a.drop (name.length + 1))) r
      else (given, a :: r)

/-- The first line of a script that names its interpreter: its path, and an argument. -/
def interpreterLine? (t : Text) : Option (Text × List Text) :=
  match t with
  | '#' :: '!' :: r =>
    let isBlank (c : Char) : Bool := c = ' ' || c = '\t'
    let l := (r.takeWhile (· ≠ '\n')).dropWhile isBlank
    let l := (l.reverse.dropWhile isBlank).reverse
    let path := l.takeWhile fun c => !isBlank c
    let rest := (l.drop path.length).dropWhile isBlank
    if path.isEmpty then none else some (path, if rest.isEmpty then [] else [rest])
  | _ => none

/-- Start a program in place of the process. -/
def startProgram (i : Interpreter) (given : Given) : (fuel : Nat) → (path name : Text) →
    List Text → Run (Except SystemError Outcome)
  | 0, _, _, _ => pure (.error .tooManyLinks)
  | fuel + 1, path, name, args => do
    let m ← get
    let done (x : Run Nat) : Run (Except SystemError Outcome) := do
      return .ok (.exited (← x))
    match m.system.files.find m.process.directory path true with
    | .error e => pure (.error e)
    | .ok (_, f) =>
      if !isProgram f then pure (.error .denied)
      else
        match f.kind with
        | .program p =>
          match String.ofList p with
          | "dash" => return .ok (← startShell i name args given)
          | "env" =>
            match envArguments given (args.length + 1) args with
            | .error c =>
              done (Program.misused 125 name ("invalid option -- \'".toList ++ [c, '\'']))
            | .ok (given, []) =>
              done (Program.write name (Program.textOf (given.map fun (n, v) => n ++ '=' :: v)) 0)
            | .ok (given, command :: args) =>
              let there ← if command.contains '/' then pure (some command)
                else
                  let path := (given.lookup "PATH".toList).getD "/bin:/usr/bin".toList
                  match ← search command false (Text.pieces ':' path) with
                  | .program p => pure (some p)
                  | _ => pure none
              let r ← match there with
                | some p => startProgram i given fuel p command args
                | none => pure (.error .missing)
              match r with
              | .ok o => pure (.ok o)
              | .error e => done do
                Program.complain name (Program.quoted command ++ ": ".toList ++ e.message.toList)
                pure (if e = .missing then 127 else 126)
          | "printenv" => done (Program.printenv given name args)
          | "sleep" => done (sleep i name args)
          | p =>
            match plainPrograms.lookup p with
            | some program => done (program name args)
            | none => pure (.error .missing)
        | .regular t =>
          match interpreterLine? t with
          | some (p, more) => startProgram i given fuel p p (more ++ path :: args)
          | none => return .ok (← startShell i path args given)
        | _ => pure (.error .denied)

/-- How often a script may be the interpreter of a script. -/
def deepestInterpreter : Nat := 8

/-- Start the program of a path in place of the process, or complain and end it. -/
def replaceBy (i : Interpreter) (path name : Text) (args : List Text) : Run Nat := do
  match ← startProgram i (← environment) deepestInterpreter path name args with
  | .ok o => throw (.ended o)
  | .error e =>
    let missing := e = .missing || e = .notDirectory
    complain (name ++ ": ".toList ++ (if missing then "not found" else e.message).toList)
    update fun p => { p with
      status := if missing || e = .tooManyLinks then 127 else 126, skip := .nothing }
    throw .finished

end Run
end Posix
end EnvValues
