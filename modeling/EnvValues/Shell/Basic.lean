import EnvValues.Assignment
import EnvValues.Shell.Word

/-!
# Shells

A shell runs command lines. What it answers may depend on the command lines it ran
before, so an answer is a function of the calls made so far and of the new one: a
shell has no memory of its own, and two runs that make the same calls get the same
answers.

A call may be refused before any process is started, because no process could be
given such a command line or environment. That is no failure of the command, and it
is told apart from one.
-/

namespace EnvValues

/-- One run of a command line. -/
structure Call where
  line : Text
  environment : Environment

/-- What a command left behind. -/
structure Output where
  stdout : Text := []
  exitCode : Int := 0
  stderr : Text := []
  deriving DecidableEq, Repr

/-- Why no process can be started for a call. -/
inductive Refusal
  /-- The command line or the environment holds the character U+0000. -/
  | nullCharacter
  /-- The environment has a name that holds `=`. -/
  | illegalName
  /-- The command line or the environment cannot be written in bytes, as its encoding words it. -/
  | unencodable (complaint : Text)
  deriving DecidableEq, Repr

/-- The wording of a refusal. -/
def Refusal.message : Refusal → Text
  | .nullCharacter => "embedded null byte".toList
  | .illegalName => "illegal environment variable name".toList
  | .unencodable complaint => complaint

/-- Something that runs command lines. -/
structure Shell where
  /-- How a value is written as one word of a command line. -/
  quote : Text → Text
  /-- What the shell answers to a call after the calls made before. -/
  answer : (before : Array Call) → Call → Except Refusal Output

/-- A shell that refuses no call. -/
def Shell.Willing (sh : Shell) : Prop := ∀ before call, ∃ o, sh.answer before call = .ok o

/-- A shell whose answers depend on the command lines alone: on those it ran before and on the
new one, and on no environment. -/
def Shell.FollowsLines (sh : Shell) : Prop :=
  ∀ before before' call call', before'.map Call.line = before.map Call.line →
    call'.line = call.line → sh.answer before' call' = sh.answer before call

namespace Output

/-- The text that a command is replaced by: its output less one newline at the end. -/
def substituted (o : Output) : Text :=
  if o.stdout.getLast? = some '\n' then o.stdout.dropLast else o.stdout

end Output
end EnvValues
