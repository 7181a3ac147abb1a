import EnvValues.Name
import EnvValues.Shell.Basic
import EnvValues.Shell.Posix.Execution
import EnvValues.Text.Literal
import EnvValues.Text.Utf8

/-!
# A shell in a process of its own

For each call a shell is started with the command line and exactly the environment of
the call, and with nothing to read. What it writes is decoded, and a process that a
signal ended has the number of the signal, below zero, as its exit code.

Starting can fail in two ways. The system refuses a command line or an environment that
cannot be handed to a process at all. And the program may be missing, be no program, or
get more than a program can be given: that is a failure of the command like any other,
with an exit code and an error text.
-/

namespace EnvValues
namespace Posix

/-- The files of the system before a command is run. -/
def standardFiles : Files := Standard.files installedPrograms

/-- Why a program cannot be started. -/
inductive StartFailure
  | missing
  | denied
  | notDirectory
  | tooLong
  deriving DecidableEq, Repr

/-- The wording of a start failure, with the name of the program. -/
def StartFailure.message (program : Text) (f : StartFailure) : Text :=
  let why := match f with
    | missing => "[Errno 2] No such file or directory: "
    | denied => "[Errno 13] Permission denied: "
    | notDirectory => "[Errno 20] Not a directory: "
    | tooLong => "[Errno 7] Argument list too long: "
  why.toList ++ Literal.ofText program

/-- The program that a path leads to. -/
def startPath (path : Text) : Except StartFailure Text :=
  match standardFiles.find ['/'] path true with
  | .ok (_, f) => if Run.isProgram f then .ok path else .error .denied
  | .error .notDirectory => .error .notDirectory
  | .error _ => .error .missing

/-- The directories in which a program is looked for. -/
def searchPath (e : Environment) : List Text :=
  match e["PATH".toList]? with
  | none => ["/bin".toList, "/usr/bin".toList]
  | some t => Text.pieces ':' t

/-- Look for a program in directories. Of several failures the first one that says more
than that there is no such file is told. -/
def startAmong (program : Text) (failure : StartFailure) :
    List Text → Except StartFailure Text
  | [] => .error failure
  | d :: ds =>
    match startPath (d ++ '/' :: program) with
    | .ok path => .ok path
    | .error .denied =>
      startAmong program (if failure = .missing then .denied else failure) ds
    | .error _ => startAmong program failure ds

/-- Find a program. One that is named by a path is not looked for. -/
def start (program : Text) (e : Environment) : Except StartFailure Text :=
  if program.contains '/' then startPath program
  else startAmong program .missing (searchPath e)

/-- The encoding in which the system takes texts, told by what it cannot write. -/
structure Encoding where
  /-- What is said of a text in which something has no bytes. -/
  complaint? : Text → Option Text

namespace Encoding

/-- UTF-8 has bytes for every character. What it has none for is a half of a surrogate pair, and
that is no character. -/
def utf8 : Encoding := ⟨fun _ => none⟩

/-- Why no process can be given a text, if none can. -/
def refusal? (e : Encoding) (t : Text) : Option Refusal :=
  match e.complaint? t with
  | some complaint => some (.unencodable complaint)
  | none => if t.contains '\x00' then some .nullCharacter else none

/-- Why a name and its value make no entry of an environment, if they do not. -/
def entryRefusal? (e : Encoding) (name value : Text) : Option Refusal :=
  match e.complaint? name with
  | some complaint => some (.unencodable complaint)
  | none =>
    if name.contains '=' then some .illegalName
    else (e.complaint? value).map .unencodable

end Encoding

/-- Why a call cannot be handed to a process, if it cannot. Where there are several reasons, one of
them is told. -/
def refusal? (e : Encoding) (program : Text) (call : Call) : Option Refusal :=
  let entries := call.environment.toList
  (entries.findSome? fun p => e.entryRefusal? p.1 p.2).or <|
    ([program, call.line].findSome? e.refusal?).or <|
      if entries.any fun p => p.1.contains '\x00' || p.2.contains '\x00' then some .nullCharacter
      else none

/-- A text as a row of bytes. -/
def bytes (t : Text) : Text := (Utf8.encode t).map fun b => Char.ofNat b.toNat

/-- The text that a row of bytes stands for. -/
def decoded (t : Text) : Text := Utf8.decode (t.map fun c => UInt8.ofNat c.toNat)

/-- The environment of a call, in bytes. -/
def given (e : Environment) : Run.Given := e.toList.map fun p => (bytes p.1, bytes p.2)

/-- How long one argument or one variable may be, with the byte that ends it. -/
def longestArgument : Nat := 131072

/-- How much all arguments and variables together may take. -/
def mostArguments : Nat := 2097152

/-- Is there more than a program can be given? -/
def isTooLong (arguments : List Text) (e : Run.Given) : Bool :=
  let named := e.map fun p => p.1.length + p.2.length + 2
  let sizes := arguments.map (·.length + 1) ++ named
  sizes.any (longestArgument < ·) ||
    mostArguments < sizes.foldl (· + ·) 0 + 8 * (sizes.length + 2) + 4096

/-- How deep commands may be nested or repeated. -/
def depth : Nat := 40000

/-- Run a command line in a process. -/
def runProcess (program : Text) (call : Call) : Output :=
  let system : System := {
    files := standardFiles
    opened := #[.device .null, .stream [] [], .stream [] []] }
  let process : Process := {
    program := bytes program
    descriptors := [(0, ⟨0, true, false⟩), (1, ⟨1, false, true⟩), (2, ⟨2, false, true⟩)] }
  let args := ["-c".toList, bytes call.line]
  let (r, m) := (Run.startShell (Run.interpreter depth) (bytes program) args
    (given call.environment)).run.run ⟨system, process⟩
  let written (n : Nat) : Text :=
    match m.system.opened[n]? with
    | some (.stream unread written) => decoded (unread ++ written.reverse)
    | _ => []
  let code : Int := match r with
    | .ok (.exited s) | .error (.ended (.exited s)) => s
    | .ok (.signalled n) | .error (.ended (.signalled n)) => -n
    | .error _ => m.process.status
  { stdout := written 1, exitCode := code, stderr := written 2 }

/-- The shell that starts the program of this name for each call. -/
def shell (program : Text) : Shell where
  quote := ShellWord.quote
  answer _ call :=
    match refusal? .utf8 program call, start program call.environment with
    | some r, _ => .error r
    | none, .error f => .ok { exitCode := 127, stderr := f.message program }
    | none, .ok _ =>
      if isTooLong [bytes program, "-c".toList, bytes call.line] (given call.environment) then
        .ok { exitCode := 127, stderr := StartFailure.tooLong.message program }
      else .ok (runProcess program call)

end Posix
end EnvValues
