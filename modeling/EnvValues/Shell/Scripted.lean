import EnvValues.Shell.Basic

/-!
# Scripted shells

A scripted shell runs nothing. It knows what to answer to some command lines, each
time they are run, and answers any other as a shell that finds no such command,
unless it was told better.
-/

namespace EnvValues

/-- How a scripted shell writes a value as one word. -/
inductive Script.Quoting
  /-- As a shell would read it back. -/
  | word
  /-- Between angle brackets. -/
  | angle
  deriving DecidableEq, Repr

/-- What a scripted shell answers. -/
structure Script where
  quoting : Script.Quoting := .word
  /-- The answers to a command line: the first run gets the first one, and so on, and
  the last one is for all runs after. -/
  outputs : Assignment (List Output) := ∅
  /-- Does an unknown command line write out itself? -/
  echo : Bool := false
  /-- What an unknown command line gives, if not that. -/
  unknown : Option Output := none

namespace Script

/-- A value as a word of a command line. -/
def quote (s : Script) (t : Text) : Text :=
  match s.quoting with
  | .word => ShellWord.quote t
  | .angle => '<' :: (t ++ ['>'])

/-- The answer to a command line that has none of its own. -/
def unknownOutput (s : Script) (line : Text) : Output :=
  if s.echo then { stdout := line }
  else s.unknown.getD { exitCode := 127, stderr := line ++ ": not found".toList }

/-- The answer to a command line that was run `n` times before. -/
def output (s : Script) (line : Text) (n : Nat) : Output :=
  match s.outputs[line]? with
  | none => s.unknownOutput line
  | some os => (os[n]?.or os.getLast?).getD {}

/-- The script with another answer to a command line, for every run of it. -/
def setOutputs (s : Script) (line : Text) (os : List Output) : Script :=
  { s with outputs := s.outputs.insert line os }

/-- The shell that follows the script. It refuses no call. -/
def shell (s : Script) : Shell where
  quote := s.quote
  answer before call := .ok (s.output call.line (before.countP fun c => c.line = call.line))

theorem willing_shell (s : Script) : s.shell.Willing := fun _ _ => ⟨_, rfl⟩

theorem followsLines_shell (s : Script) : s.shell.FollowsLines := by
  intro before before' call call' hbefore hcall
  -- how often a line was run can be counted on the lines alone
  have hcount : ∀ cs : Array Call, cs.countP (fun c => c.line = call.line)
      = (cs.map Call.line).countP (· = call.line) := fun cs => by
    rw [Array.countP_map]
    rfl
  simp only [shell, hcall, hcount, hbefore]

end Script
end EnvValues
