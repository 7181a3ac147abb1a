import EnvValues.Shell.Posix.Reader.Command
import EnvValues.Shell.Posix.Variables

/-!
# Scripts, traps and processes

What it takes to run commands, but for the commands themselves: an `Interpreter` is given
that runs one. A script is read line by line, so what a line changes is known to the
reader of the next one.

Signals that come are looked at before and after each command. A process ends by itself,
by `exit`, by an error, or by a signal; **`Run.endProcess` is the one place where the way
it was left becomes the way it ended**, and the action for its end runs there.
-/

namespace EnvValues
namespace Posix

/-- How a command stands among others. -/
structure Situation where
  /-- Is its exit status looked at, so that a failure is none of the script? -/
  tested : Bool := false
  /-- Is it the last thing that its process does? -/
  last : Bool := false
  deriving DecidableEq, Repr

/-- Something that runs commands, or a line without one, and gives the exit status. -/
structure Interpreter where
  run : Situation → Option Command → Run Nat

namespace Run

/-! ## Scripts -/

/-- Run the lines of a script behind those that gave `status`. -/
def lines (i : Interpreter) (s : Situation) (status : Nat) : (fuel : Nat) → Source → Run Nat
  | 0, _ => pure status
  | fuel + 1, source => do
    let p ← process
    match { source with aliases := p.aliases, documents := p.documents }.command? with
    | .error e => refuse e.line e.message
    | .ok (none, _) => pure status
    | .ok (some c, source) => do
      update fun p => { p with
        documents := source.documents, readLine := source.line, readAll := source.atEnd }
      let result ← i.run s c
      let status := if c.isSome then result else status
      if (← process).skip = .nothing then lines i s status fuel source else pure status

/-- How many lines a script may have. -/
def longestScript : Nat := Nat.pow 2 40

/-- Run a script. -/
def script (i : Interpreter) (s : Situation) (t : Text) : Run Nat := do
  let outer ← process
  afterwards (lines i s 0 longestScript { text := t }) do
    update fun p => { p with readLine := outer.readLine, readAll := outer.readAll }

/-! ## Signals -/

/-- Get a signal. -/
def receive (n : Nat) : Run Unit := do
  let p ← process
  match if Signal.isFinal n then none else p.traps.lookup n with
  | some [] => pure ()
  | some _ => update fun p => { p with pending := n :: p.pending.filter (· ≠ n) }
  | none => if n = 0 || Signal.isHarmless n then pure () else throw (Leave.ended (.signalled n))

/-- Run the actions for signals that came, in the order of their numbers. While commands
are being skipped the signals wait. -/
def actions (i : Interpreter) (status : Nat) : List Nat → Run Unit
  | [] => pure ()
  | n :: ns => do
    let p ← process
    if p.pending.contains n && p.skip = .nothing then
      update fun p => { p with pending := p.pending.filter (· ≠ n) }
      match p.traps.lookup n with
      | none => pure ()
      | some t =>
        let _ ← script i {} t
        update fun p => if p.skip = .function true then p else { p with status := status }
    actions i status ns

/-- Look at the signals that came. -/
def lookAtSignals (i : Interpreter) : Run Unit := do
  let p ← process
  if !p.pending.isEmpty then
    let status := p.kept.getD p.status
    update fun p => { p with kept := some status }
    actions i status (List.range Signal.count)
    update fun q => { q with kept := p.kept }

/-! ## Processes -/

/-- Go back to the exit status that was kept, if the process was left by `exit` or an
action ran to its end. -/
def settleStatus (byExit : Bool) : Run Unit :=
  update fun p =>
    match p.kept with
    | some s =>
      let s := if byExit || p.skip = .function false then s else p.status
      { p with status := s, kept := none }
    | none => p

/-- Is a process left because it is asked to end? -/
def isExit {α : Type} : Except Leave α → Bool
  | .error .exit => true
  | _ => false

/-- End a process, which was left in some way, and run its action for the end. -/
def endProcess (i : Interpreter) (left : Except Leave Unit) : Run Outcome := do
  match left with
  | .error (.ended o) => pure o
  | left =>
    settleStatus (isExit left)
    let exited : Run Outcome := return .exited ((← process).status % 256)
    match (← process).traps.lookup 0 with
    | none => exited
    | some t => do
      update fun p => { p with
        kept := some p.status, skip := .nothing, command := none
        traps := p.traps.filter (fun e => e.1 ≠ 0) }
      match ← attempt (script i {} t) with
      | .error (.ended o) => pure o
      | r =>
        if r.toOption.isSome then update fun p => { p with skip := .function false }
        settleStatus (isExit r)
        exited

/-- Run what processes run that were started in the background by the one of this number. -/
def runSuspended (i : Interpreter) (wanted : Suspended → Bool) : (fuel : Nat) → Run Unit
  | 0 => pure ()
  | fuel + 1 => do
    let m ← get
    match m.system.suspended.find? wanted with
    | none => pure ()
    | some s =>
      let n := s.process.number
      updateSystem fun y => { y with
        suspended := y.suspended.filter (fun s => s.process.number ≠ n) }
      update fun _ => s.process
      let r ← attempt (do let _ ← i.run { tested := s.tested, last := true } (some s.body))
      let o ← endProcess i r
      updateSystem fun y => { y with outcomes := (n, o) :: y.outcomes }
      runSuspended i (fun s => s.process.parent = n) fuel
      update fun _ => m.process
      runSuspended i wanted fuel

/-- How many processes may run in the background. -/
def mostSuspended : Nat := 100000

/-- What a new process is like that goes on as a copy of another one. -/
def fork (number : Nat) (p : Process) : Process :=
  { p with
    number := number
    parent := p.number
    traps := p.traps.filter (fun t => t.2.isEmpty)
    pending := []
    jobs := []
    printed := [] }

/-- Take a number for a new process. -/
def nextNumber : Run Nat := do
  let n := (← get).system.nextProcess
  updateSystem fun y => { y with nextProcess := n + 1 }
  pure n

/-- Get the signals that were sent while other processes ran. -/
def collectSignals : Run Unit := do
  let m ← get
  let (mine, others) := m.system.sent.partition fun s => s.1 = m.process.number
  updateSystem fun y => { y with sent := others }
  mine.reverse.forM fun s => receive s.2

/-- Run something in a process of its own, after a change to it. -/
def inChild (i : Interpreter) (change : Process → Process) (x : Run Unit) : Run Outcome := do
  let before ← process
  let n ← nextNumber
  update fun p => change (fork n p)
  let r ← attempt x
  let o ← endProcess i r
  runSuspended i (fun s => s.process.parent = n) mostSuspended
  update fun _ => before
  collectSignals
  pure o

/-- Tell of a process that a signal ended. -/
def tell (o : Outcome) : Run Unit :=
  match o with
  | .exited _ => pure ()
  | .signalled n =>
    if Signal.isQuiet n then pure () else writeError ((Signal.description n).toList ++ ['\n'])

/-- See which of the processes in the background have ended. -/
def seeEnded : Run Unit := do
  let running := (← get).system.suspended.map fun s => s.process.number
  update fun p =>
    let jobs := p.jobs.map fun j => { j with seen := j.seen || !running.contains j.process }
    { p with jobs := jobs }

/-- Wait for processes that belong to one command, and give the exit status of the last
one. -/
def await (os : List Outcome) : Run Nat := do
  os.forM tell
  seeEnded
  pure ((os.getLast?.map Outcome.status).getD 0)

/-- Something that is written at one end and read at the other. -/
def newStream : Run Nat := register (.stream [] [])

/-- What was written to a stream and not read. -/
def takeStream (n : Nat) : Run Text := do
  match ← readOpened n none with
  | .ok t => pure t
  | .error _ => pure []

/-- What a command writes. Its exit status is kept as that of a substitution. -/
def output (i : Interpreter) (c : Option Command) : Run Text := do
  match c with
  | none => pure []
  | some c =>
    let n ← newStream
    let writing (p : Process) : Process :=
      { p with descriptors := (1, ⟨n, false, true⟩) :: p.descriptors.filter (fun d => d.1 ≠ 1) }
    let o ← inChild i writing (do let _ ← i.run { last := true } (some c))
    let t ← takeStream n
    let s ← await [o]
    update fun p => { p with substituted := s }
    pure t

end Run
end Posix
end EnvValues
