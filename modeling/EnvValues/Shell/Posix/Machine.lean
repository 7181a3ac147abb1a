import EnvValues.Name
import EnvValues.Shell.Posix.Files
import EnvValues.Shell.Posix.Numeral
import EnvValues.Shell.Posix.Reader.Source
import EnvValues.Shell.Posix.Signal

/-!
# Processes

A `System` holds what all processes share: the files, and what was opened, through which
they pass on what they write. A `Process` is one shell: its variables, and where its
descriptors lead. **A shell that runs a command in a process of its own goes on with its
own `Process` afterwards and keeps the `System`.**

A `Run` changes both, and may leave: because of an error, to end the process, or because
a signal ended it. What was written before stays written.
-/

namespace EnvValues
namespace Posix

/-- Something that was opened. Descriptors that were copied share it. -/
inductive OpenFile
  /-- Something that is written at one end and read at the other: what was not read yet,
  and what was written since (last to first). -/
  | stream (unread written : Text)
  /-- A file, and the place in it. -/
  | file (path : Text) (offset : Nat) (append : Bool)
  | directory
  | device (d : Device)

/-- Where a descriptor leads. -/
structure Descriptor where
  target : Nat
  readable : Bool
  writable : Bool
  deriving DecidableEq, Repr

/-- How a process ended. -/
inductive Outcome
  | exited (status : Nat)
  | signalled (n : Nat)
  deriving DecidableEq, Repr

namespace Outcome

/-- The exit status by which a shell knows the outcome. -/
def status : Outcome → Nat
  | exited s => s
  | signalled n => 128 + n

end Outcome

/-- A variable of a shell. One without a value is only known by name. -/
structure Variable where
  value : Option Text
  exported : Bool := false
  readOnly : Bool := false
  /-- Are the other fields kept when the value is taken away? -/
  fixed : Bool := false
  /-- Which of the variables was there first. -/
  serial : Nat := 0
  deriving Repr

/-- What was changed for a while, as it was before. -/
inductive Saved
  | variable (name : Text) (before : Option Variable)
  | options (before : Text)

/-- A function: its body, and the line on which it begins. -/
structure Function where
  line : Nat
  body : Command

/-- What is being skipped. -/
inductive Skip
  | nothing
  /-- The rest of loops, the innermost of which is left or goes on. -/
  | loops (goOn : Bool) (n : Nat)
  /-- The rest of a function or script. The flag says whether the status was given. -/
  | function (withStatus : Bool)
  deriving DecidableEq, Repr

/-- A process that was started in the background. -/
structure Job where
  process : Nat
  /-- The number that the shell that started it knows it by. -/
  place : Nat
  /-- Has the shell seen that it ended? -/
  seen : Bool := false
  deriving DecidableEq, Repr

/-- A shell. -/
structure Process where
  /-- The name the shell was started by. -/
  program : Text
  number : Nat := 100
  /-- The number of the process that the whole script runs in. -/
  main : Nat := 100
  parent : Nat := 1
  bindings : Assignment Variable := ∅
  nextSerial : Nat := 0
  arguments : List Text := []
  /-- How far `getopts` is: the argument it looks at, and the place in it. -/
  optionIndex : Nat := 1
  optionOffset : Option Nat := none
  functions : Assignment Function := ∅
  /-- The aliases, in the order in which they were made. -/
  aliases : List (Text × Text) := []
  /-- The letters of the options that are on. -/
  options : Text := []
  /-- The exit status of the last command. -/
  status : Nat := 0
  /-- The exit status to go back to, while the action of a trap runs. -/
  kept : Option Nat := none
  /-- The exit status of the last command whose output was substituted. -/
  substituted : Nat := 0
  /-- The line that complaints are about. -/
  line : Nat := 0
  /-- The line up to which commands were read. -/
  readLine : Nat := 1
  /-- Was the end of the commands seen? -/
  readAll : Bool := false
  /-- The built-in command that runs. -/
  command : Option Text := none
  descriptors : List (Nat × Descriptor) := []
  directory : Text := ['/']
  /-- What to do when a signal comes. Nothing at all, if the script is empty. -/
  traps : List (Nat × Text) := []
  /-- The signals that came and were not looked at. -/
  pending : List Nat := []
  /-- Variables that are restored when a command ends, innermost command first. -/
  locals : List (List Saved) := []
  /-- How many functions are being run inside each other. -/
  calls : Nat := 0
  /-- How many loops are being run inside each other. -/
  loops : Nat := 0
  skip : Skip := .nothing
  /-- The processes that were started in the background, last to first. -/
  jobs : List Job := []
  lastBackground : Option Nat := none
  mask : Nat := 0o022
  /-- The programs that were found, and where. -/
  remembered : List (Text × Text) := []
  /-- The texts of documents, known by their places. -/
  documents : Array Word := #[]
  /-- What the command that runs has printed and not written yet, last to first. -/
  printed : Text := []

/-- A process in the background, which has not run yet: it runs when it is waited for, or
at the latest when the process that started it ends. -/
structure Suspended where
  process : Process
  body : Command
  tested : Bool

/-- What all processes share. -/
structure System where
  files : Files
  opened : Array OpenFile
  nextProcess : Nat := 101
  suspended : List Suspended := []
  /-- How processes in the background ended. -/
  outcomes : List (Nat × Outcome) := []
  /-- Signals that were sent to a process that does not run at the moment. -/
  sent : List (Nat × Nat) := []

/-- A process among the others. -/
structure Machine where
  system : System
  process : Process

/-- Why a run is left before its end. -/
inductive Leave
  /-- There was an error, which was complained about. -/
  | error
  /-- The process is asked to end. -/
  | exit
  /-- There is nothing left to do. -/
  | finished
  /-- The process has ended already. -/
  | ended (o : Outcome)
  deriving DecidableEq, Repr

/-- A change of the machine that may leave. -/
abbrev Run := ExceptT Leave (StateM Machine)

namespace Run

/-- The process. -/
def process : Run Process := return (← get).process

/-- Change the process. -/
def update (f : Process → Process) : Run Unit :=
  modify fun m => { m with process := f m.process }

/-- Change the system. -/
def updateSystem (f : System → System) : Run Unit :=
  modify fun m => { m with system := f m.system }

/-- Run, and give what came of it. -/
def attempt {α : Type} (x : Run α) : Run (Except Leave α) :=
  ExceptT.mk fun m =>
    let (r, m') := x.run.run m
    (.ok r, m')

/-- Run, and do something afterwards, also where the run is left. -/
def afterwards {α : Type} (x : Run α) (y : Run Unit) : Run α := do
  match ← attempt x with
  | .ok a =>
    y
    pure a
  | .error e =>
    y
    throw e

/-- Is an option on? -/
def option (c : Char) : Run Bool := return (← process).options.contains c

/-! ## Files that are open -/

/-- Open something: the number it is known by. -/
def register (f : OpenFile) : Run Nat := do
  let n := (← get).system.opened.size
  updateSystem fun s => { s with opened := s.opened.push f }
  pure n

/-- Change something that is open. -/
def setOpened (n : Nat) (f : OpenFile) : Run Unit :=
  updateSystem fun s => { s with opened := s.opened.setIfInBounds n f }

/-- Where a descriptor leads. -/
def descriptor? (n : Nat) : Run (Option Descriptor) := return (← process).descriptors.lookup n

/-- Let a descriptor lead somewhere, or nowhere. -/
def setDescriptor (n : Nat) (d : Option Descriptor) : Run Unit :=
  update fun p =>
    let others := p.descriptors.filter fun e => e.1 ≠ n
    { p with descriptors := match d with
      | some d => (n, d) :: others
      | none => others }

/-- The text of a file. -/
def content (path : Text) : Run Text := do
  match ((← get).system.files[path]?).map File.kind with
  | some (.regular t) => pure t
  | _ => pure []

/-- Change the text of a file. -/
def setContent (path t : Text) : Run Unit :=
  updateSystem fun s =>
    let mode := (s.files[path]?.map File.mode).getD 0o644
    { s with files := s.files.insert path ⟨.regular t, mode⟩ }

/-- Write to something that is open. -/
def writeOpened (n : Nat) (t : Text) : Run (Option SystemError) := do
  match (← get).system.opened[n]? with
  | some (.stream unread written) =>
    setOpened n (.stream unread (t.reverse ++ written))
    pure none
  | some (.file path offset append) =>
    let old ← content path
    let at_ := if append then old.length else offset
    let gap := List.replicate (at_ - old.length) '\x00'
    setContent path (old.take at_ ++ gap ++ t ++ old.drop (at_ + t.length))
    setOpened n (.file path (at_ + t.length) append)
    pure none
  | some .directory => pure (some .isDirectory)
  | some (.device .full) => pure (if t.isEmpty then none else some .noSpace)
  | some (.device _) => pure none
  | none => pure (some .badDescriptor)

/-- Write to a descriptor. -/
def writeTo (n : Nat) (t : Text) : Run (Option SystemError) := do
  match ← descriptor? n with
  | some d => if d.writable then writeOpened d.target t else pure (some .badDescriptor)
  | none => pure (some .badDescriptor)

/-- Read from something that is open, not more than so many bytes if there is a limit. -/
def readOpened (n : Nat) (limit : Option Nat) : Run (Except SystemError Text) := do
  let cut (t : Text) : Text × Text :=
    match limit with
    | some k => (t.take k, t.drop k)
    | none => (t, [])
  match (← get).system.opened[n]? with
  | some (.stream unread written) =>
    let unread := if written.isEmpty then unread else unread ++ written.reverse
    let (t, r) := cut unread
    setOpened n (.stream r [])
    pure (.ok t)
  | some (.file path offset append) =>
    let (t, _) := cut ((← content path).drop offset)
    setOpened n (.file path (offset + t.length) append)
    pure (.ok t)
  | some .directory => pure (.error .isDirectory)
  | some (.device .zero) | some (.device .full) =>
    pure (.ok (List.replicate (limit.getD 65536) '\x00'))
  | some (.device _) => pure (.ok [])
  | none => pure (.error .badDescriptor)

/-- Read from a descriptor. -/
def readFrom (n : Nat) (limit : Option Nat) : Run (Except SystemError Text) := do
  match ← descriptor? n with
  | some d => if d.readable then readOpened d.target limit else pure (.error .badDescriptor)
  | none => pure (.error .badDescriptor)

/-- Open a file for reading, as a program does. -/
def openForReading (path : Text) : Run (Except SystemError Descriptor) := do
  let m ← get
  let opened (f : OpenFile) : Run (Except SystemError Descriptor) := do
    pure (.ok ⟨← register f, true, false⟩)
  match m.system.files.find m.process.directory path true with
  | .error e => pure (.error e)
  | .ok (p, f) =>
    match f.kind with
    | .directory => opened .directory
    | .device .terminal => pure (.error .missing)
    | .device d => opened (.device d)
    | .descriptor n =>
      match ← descriptor? n with
      | some d => pure (.ok { d with readable := true })
      | none => pure (.error .missing)
    | _ => opened (.file p 0 false)

/-- Open a file for writing, as a program does. -/
def openForWriting (path : Text) (readable append exclusive : Bool) :
    Run (Except SystemError Descriptor) := do
  let m ← get
  let opened (f : OpenFile) : Run (Except SystemError Descriptor) := do
    pure (.ok ⟨← register f, readable, true⟩)
  match m.system.files.resolve m.process.directory path true with
  | .error e => pure (.error e)
  | .ok p =>
    match (m.system.files[p]?).map File.kind with
    | none =>
      updateSystem fun s => { s with
        files := s.files.insert p ⟨.regular [], 0o666 - (0o666 &&& m.process.mask)⟩ }
      opened (.file p 0 append)
    | some .directory => pure (.error .isDirectory)
    | some (.device .terminal) => pure (.error .missing)
    | some (.device d) => opened (.device d)
    | some (.descriptor n) =>
      match ← descriptor? n with
      | some d => pure (.ok { d with writable := true })
      | none => pure (.error .missing)
    | some _ =>
      if exclusive then pure (.error .exists_)
      else
        if !append && !readable then setContent p []
        opened (.file p 0 append)

/-! ## Output and complaints -/

/-- Print something. It is written when the command that runs has ended. -/
def print (t : Text) : Run Unit :=
  update fun p => { p with printed := t.reverse ++ p.printed }

/-- Write what was printed. -/
def flush : Run (Option SystemError) := do
  let t := (← process).printed
  update fun p => { p with printed := [] }
  if t.isEmpty then pure none else writeTo 1 t.reverse

/-- Write to the output for errors. If that is not possible, nobody hears of it. -/
def writeError (t : Text) : Run Unit := do
  let _ ← writeTo 2 t

/-- Complain, with the name of the shell, the line and the command that runs. -/
def complain (t : Text) : Run Unit := do
  let p ← process
  let command := match p.command with
    | some c => c ++ ": ".toList
    | none => []
  writeError (p.program ++ ": ".toList ++ Numeral.decimal p.line ++ ": ".toList ++ command ++ t ++
    ['\n'])

/-- Complain, and give up. -/
def fail {α : Type} (t : Text) : Run α := do
  complain t
  update fun p => { p with status := 2 }
  throw .error

/-- Complain about a mistake in the commands that were read, and give up. -/
def refuse {α : Type} (line : Nat) (t : Text) : Run α := do
  update fun p => { p with line := line }
  fail ("Syntax error: ".toList ++ t)

/-- The number that an argument must write. -/
def number (t : Text) : Run Nat :=
  match Numeral.whole? false t with
  | some n =>
    if 0 ≤ n && n < (Nat.pow 2 31 : Int) then pure n.toNat
    else fail ("Illegal number: ".toList ++ t)
  | none => fail ("Illegal number: ".toList ++ t)

end Run
end Posix
end EnvValues
