import EnvValues.Shell.Posix.Builtin.Directories
import EnvValues.Shell.Posix.Builtin.Names
import EnvValues.Shell.Posix.Builtin.Signals
import EnvValues.Shell.Posix.Builtin.Variables
import EnvValues.Shell.Posix.Condition
import EnvValues.Shell.Posix.Format
import EnvValues.Shell.Posix.Launch

/-!
# Built-in commands

What each built-in command does, by its name. Those that run other commands, end things or
jump are here; the others have modules of their own.
-/

namespace EnvValues
namespace Posix
namespace Run

/-! ## Output -/

/-- Print the arguments, and a newline unless told not to. -/
def echo (args : List Text) : Run Nat := do
  let (newline, args) := match args with
    | ['-', 'n'] :: r => (false, r)
    | r => (true, r)
  let (t, stopped) := Format.echo ([' '].intercalate args)
  print (if newline && !stopped then t ++ ['\n'] else t)
  pure 0

/-- Print a format with its arguments. -/
def printf (args : List Text) : Run Nat := do
  match ← noFlags args with
  | [] => fail "usage: printf format [arg ...]".toList
  | format :: args =>
    let o := Format.printf format args
    o.complaints.reverse.forM complain
    print o.text.reverse
    pure (if o.failed then 2 else if o.complaints.isEmpty then 0 else 1)

/-- Tell by the exit status whether a condition holds. -/
def test (args : List Text) : Run Nat := return if ← Condition.holds args then 0 else 1

/-- The same, between brackets. -/
def testInBrackets (args : List Text) : Run Nat := do
  if args.getLast? ≠ some [']'] then fail "missing ]".toList
  test args.dropLast

/-! ## Jumps and ends -/

/-- Leave loops, or go on with the next round of one. -/
def jump (goOn : Bool) (args : List Text) : Run Nat := do
  let n ← match args with
    | [] => pure 1
    | a :: _ => do
      let n ← number a
      if n = 0 then fail ("Illegal number: ".toList ++ a)
      pure n
  update fun p =>
    if p.loops = 0 then p else { p with skip := .loops goOn (min n p.loops) }
  pure 0

/-- Return from a function or a script. -/
def return_ (args : List Text) : Run Nat := do
  let status ← match args with
    | [] => do pure (← process).status
    | a :: _ => number a
  update fun p => { p with skip := .function (!args.isEmpty) }
  pure status

/-- End the process. -/
def exit_ (args : List Text) : Run Nat := do
  match args with
  | [] => pure ()
  | a :: _ => do
    let n ← number a
    update fun p => { p with kept := some n }
  throw .exit

/-! ## Other commands -/

/-- Run the arguments as a script. -/
def eval (i : Interpreter) (s : Situation) (args : List Text) : Run Nat :=
  script i { tested := s.tested } ([' '].intercalate args)

/-- The path of a script that is named without one: in the directories where programs are
looked for. -/
def findScript (name : Text) : List Text → Run Text
  | [] => fail (name ++ ": not found".toList)
  | d :: ds => do
    let m ← get
    let path := inDirectory d name
    match m.system.files.find m.process.directory path true with
    | .ok (_, f) =>
      match f.kind with
      | .regular _ | .program _ => pure path
      | _ => findScript name ds
    | .error _ => findScript name ds

/-- Run the commands of a file. -/
def source_ (i : Interpreter) (args : List Text) : Run Nat := do
  match ← noFlags args with
  | [] => pure 0
  | name :: _ =>
    let path ← if name.contains '/' then pure name
      else findScript name (Text.pieces ':' ((← lookup "PATH".toList).getD []))
    let t ← scriptText path
    update fun p => { p with command := some path }
    let status ← script i {} t
    update fun p => match p.skip with
      | .function _ => { p with skip := .nothing }
      | _ => p
    pure status

/-- Run a program in place of the process. -/
def exec (i : Interpreter) (args : List Text) : Run Nat := do
  match args with
  | [] => pure 0
  | name :: rest =>
    let e ← if name.contains '/' then pure (.program name)
      else
        match ← lookup "PATH".toList with
        | some path => search name false (Text.pieces ':' path)
        | none => pure (.none_ false)
    match e with
    | .program path => replaceBy i path name rest
    | .none_ true =>
      complain (name ++ ": Permission denied".toList)
      update fun p => { p with status := 126 }
      throw .finished
    | _ =>
      complain (name ++ ": not found".toList)
      update fun p => { p with status := 127 }
      throw .finished

/-! ## Things a shell in a terminal would do -/

/-- Go on with a job, which is not possible without a terminal. -/
def resume (args : List Text) : Run Nat := do
  let _ ← jobNamed (args.headD [])
  fail "job (null) not created under job control".toList

/-- Print the time that was used. -/
def times : Run Nat := do
  printLine "0m0.000000s 0m0.000000s".toList
  printLine "0m0.000000s 0m0.000000s".toList
  pure 0

/-- The limits of a process: what they limit, their letters, and what they are. -/
def limits : List (String × Char × String) :=
  [("time(seconds)", 't', "unlimited"), ("file(blocks)", 'f', "unlimited"),
   ("data(kbytes)", 'd', "unlimited"), ("stack(kbytes)", 's', "8192"),
   ("coredump(blocks)", 'c', "0"), ("memory(kbytes)", 'm', "unlimited"),
   ("locked memory(kbytes)", 'l', "8192"), ("process", 'p', "unlimited"),
   ("nofiles", 'n', "1048576"), ("vmemory(kbytes)", 'v', "unlimited"),
   ("locks", 'w', "unlimited"), ("rtprio", 'r', "0")]

/-- Print limits. -/
def ulimit (args : List Text) : Run Nat := do
  let (fs, args) ← takeFlags "HSatfdscmlpnvwr" args
  let letter := ((fs.filter fun f => f.1 ≠ 'H' && f.1 ≠ 'S').getLast?.map Prod.fst).getD 'f'
  match args with
  | [] =>
    if letter = 'a' then
      limits.forM fun (name, _, value) => printLine (padded 20 name.toList ++ ' ' :: value.toList)
    else
      match limits.find? fun l => l.2.1 = letter with
      | some (_, _, value) => printLine value.toList
      | none => pure ()
    pure 0
  | [a] =>
    if letter = 'a' || a = "unlimited".toList || a.all Char.isDigit then pure 0
    else fail "bad number".toList
  | _ => fail "too many arguments".toList

/-! ## All of them -/

/-- Run the built-in command of a name. -/
def builtin (i : Interpreter) (s : Situation) (name : Text) (args : List Text) : Run Nat :=
  match String.ofList name with
  | ":" | "true" => pure 0
  | "false" => pure 1
  | "." => source_ i args
  | "[" => testInBrackets args
  | "alias" => alias_ args
  | "bg" | "fg" => do resume (← noFlags args)
  | "break" => jump false args
  | "cd" | "chdir" => cd args
  | "command" => describeCommand args
  | "continue" => jump true args
  | "echo" => echo args
  | "eval" => eval i s args
  | "exec" => exec i args
  | "exit" => exit_ args
  | "export" => export_ args
  | "getopts" => getopts args
  | "hash" => hash_ args
  | "jobs" => jobs args
  | "kill" => kill args
  | "local" => local_ args
  | "printf" => printf args
  | "pwd" => pwd args
  | "read" => read args
  | "readonly" => readonly args
  | "return" => return_ args
  | "set" => set args
  | "shift" => shift args
  | "test" => test args
  | "times" => times
  | "trap" => trap args
  | "type" => type_ args
  | "ulimit" => ulimit args
  | "umask" => umask args
  | "unalias" => unalias args
  | "unset" => unset_ args
  | "wait" => wait i args
  | _ => pure 127

end Run
end Posix
end EnvValues
