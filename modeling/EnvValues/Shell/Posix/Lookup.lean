import EnvValues.Shell.Posix.Variables

/-!
# What the name of a command stands for

A name stands for a function, for a built-in command, or for a program in one of the
directories of the search path. A name with a slash in it is the path of a program.
Programs that were found are remembered until the search path changes.
-/

namespace EnvValues
namespace Posix

/-- The special built-in commands: an error in one of them ends a script, and assignments
in front of them last. -/
def specialBuiltins : List String :=
  [".", ":", "break", "continue", "eval", "exec", "exit", "export", "local", "readonly", "return",
   "set", "shift", "times", "trap", "unset"]

/-- The other built-in commands. -/
def otherBuiltins : List String :=
  ["[", "alias", "bg", "cd", "chdir", "command", "echo", "false", "fg", "getopts", "hash", "jobs",
   "kill", "printf", "pwd", "read", "test", "true", "type", "ulimit", "umask", "unalias", "wait"]

/-- The built-in commands whose arguments may be assignments. -/
def assigningBuiltins : List String := ["alias", "export", "local", "readonly"]

/-- Is the name on the list? -/
def isListed (l : List String) (name : Text) : Bool := l.any fun s => s.toList = name

/-- What the name of a command stands for. -/
inductive Executable
  | builtin
  | function (f : Function)
  | program (path : Text)
  /-- Nothing. There may be a file that cannot be run. -/
  | none_ (denied : Bool)

namespace Run

/-- A path in a directory. -/
def inDirectory (d name : Text) : Text := if d.isEmpty then name else d ++ '/' :: name

/-- Can the file be run as a program? -/
def isProgram (f : File) : Bool :=
  f.isExecutable && match f.kind with
    | .regular _ | .program _ => true
    | _ => false

/-- Look for a program in directories. -/
def search (name : Text) (denied : Bool) : List Text → Run Executable
  | [] => pure (.none_ denied)
  | d :: ds => do
    let m ← get
    let path := inDirectory d name
    match m.system.files.find m.process.directory path true with
    | .ok (_, f) => if isProgram f then pure (.program path) else search name true ds
    | .error .missing | .error .notDirectory => search name denied ds
    | .error _ => search name true ds

/-- Look for a program, on the search path that is given or on the shell's own. -/
def findProgram (path : Option Text) (name : Text) : Run Executable := do
  if name.contains '/' then pure (.program name)
  else
    match path with
    | some path => search name false (Text.pieces ':' path)
    | none => do
      match (← process).remembered.lookup name with
      | some p => pure (.program p)
      | none =>
        match ← lookup "PATH".toList with
        | none => pure (.none_ false)
        | some path => do
          let e ← search name false (Text.pieces ':' path)
          match e with
          | .program p => update fun q => { q with remembered := q.remembered ++ [(name, p)] }
          | _ => pure ()
          pure e

/-- What a name stands for. -/
def executable (functions : Bool) (path : Option Text) (name : Text) : Run Executable := do
  let p ← process
  match if functions then p.functions[name]? else none with
  | some f => pure (.function f)
  | none =>
    if isListed specialBuiltins name || isListed otherBuiltins name then pure .builtin
    else findProgram path name

/-- Complain that there is nothing to run. -/
def complainMissing (name : Text) (denied : Bool) : Run Unit :=
  complain (name ++ (if denied then ": Permission denied" else ": not found").toList)

end Run
end Posix
end EnvValues
