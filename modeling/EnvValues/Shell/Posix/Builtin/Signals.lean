import EnvValues.Shell.Posix.Builtin.Basic
import EnvValues.Shell.Posix.Interpreter

/-!
# Commands about signals and processes

`trap`, `kill`, `wait` and `jobs`.
-/

namespace EnvValues
namespace Posix
namespace Run

/-! ## Signals -/

/-- Say what is to be done when a signal comes. Nothing said is as it was at first. -/
def setTrap (n : Nat) (action : Option Text) : Run Unit :=
  update fun p =>
    let others := p.traps.filter fun t => t.1 ≠ n
    { p with traps := match action with
      | some a => (n, a) :: others
      | none => others }

/-- Say what is to be done when signals come, up to a name that is none. -/
def setTraps (action : Option Text) : List Text → Run Nat
  | [] => pure 0
  | a :: r => do
    match Signal.ofText? 0 a with
    | some n =>
      setTrap n action
      setTraps action r
    | none =>
      writeError ("trap: ".toList ++ a ++ ": bad trap\n".toList)
      pure 1

/-- Say what is to be done when signals come, or list it. -/
def trap (args : List Text) : Run Nat := do
  match ← noFlags args with
  | [] =>
    let traps := (← process).traps
    (List.range Signal.count).forM fun n =>
      match traps.lookup n with
      | some a => printLine ("trap -- ".toList ++ quotedText a ++ ' ' :: Signal.name n)
      | none => pure ()
    pure 0
  | [a] => setTraps none [a]
  | a :: r =>
    if (Signal.ofNumber? a).isSome then setTraps none (a :: r)
    else setTraps (if a = ['-'] then none else some a) r

/-- Send a signal to a process, if there is one of that number. -/
def send (target signal : Nat) : Run Bool := do
  let m ← get
  let p := m.process
  if target = p.number then
    receive signal
    pure true
  else
    match m.system.suspended.find? fun s => s.process.number = target with
    | some s =>
      let ignored := !Signal.isFinal signal && s.process.traps.lookup signal = some []
      if !(signal = 0 || Signal.isHarmless signal || ignored) then
        updateSystem fun y => { y with
          suspended := y.suspended.filter (fun s => s.process.number ≠ target)
          outcomes := (target, .signalled signal) :: y.outcomes }
      pure true
    | none =>
      if p.jobs.any fun j => j.process = target && !j.seen then pure true
      else if target = p.parent || target = p.main then
        if signal ≠ 0 then
          updateSystem fun y => { y with sent := (target, signal) :: y.sent }
        pure true
      else pure false

/-- The job that is named by its place. -/
def jobNamed (t : Text) : Run Job := do
  let jobs := (← process).jobs
  let none_ {α : Type} : Run α := fail ("No such job: ".toList ++ t)
  match t.drop 1 with
  | [] | ['%'] | ['+'] =>
    match jobs with
    | j :: _ => pure j
    | [] => fail "No current job".toList
  | ['-'] =>
    match jobs with
    | _ :: j :: _ => pure j
    | _ => fail "No previous job".toList
  | ds =>
    match Numeral.digits? 10 ds with
    | some (n, []) =>
      match jobs.find? fun j => j.place = n with
      | some j => pure j
      | none => none_
    | _ => none_

/-- The process that an argument names. -/
def processNamed (t : Text) : Run Nat := do
  if t.head? = some '%' then return (← jobNamed t).process
  else if t.head? = some '-' then number (t.drop 1)
  else number t

/-- How `kill` is used. -/
def killUsage : Text :=
  "Usage: kill [-s sigspec | -signum | -sigspec] [pid | job]... or\nkill -l [exitstatus]".toList

/-- Print the names of signals, or of the one that a number stands for. -/
def listSignals : List Text → Run Nat
  | [] => do
    printLine ['0']
    ((List.range Signal.count).drop 1).forM fun n => printLine (Signal.name n)
    pure 0
  | a :: _ => do
    let n ← number a
    let n := if n > 128 then n - 128 else n
    if 0 < n && n < Signal.count then
      printLine (Signal.name n)
      pure 0
    else fail ("invalid signal number or exit status: ".toList ++ a)

/-- The signal of an argument such as `-TERM`. -/
def signalOption? : List Text → Option (Nat × List Text)
  | ('-' :: t) :: r => (Signal.ofText? 1 t).map fun n => (n, r)
  | _ => none

/-- What the options of `kill` ask for: whether to list, and the signal. -/
def killOptions (listing : Bool) (signal : Option Nat) : List Flag → Run (Bool × Option Nat)
  | [] => pure (listing, signal)
  | ('s', name) :: fs => do
    match Signal.ofText? 1 name with
    | some n => killOptions listing (some n) fs
    | none => fail ("invalid signal number or name: ".toList ++ name)
  | _ :: fs => killOptions true signal fs

/-- Send a signal to processes, or list signals. -/
def kill (args : List Text) : Run Nat := do
  if args.isEmpty then fail killUsage
  let (listing, signal, targets) ← match signalOption? args with
    | some (n, r) => pure (false, some n, r)
    | none =>
      if (args.head?.bind List.head?) = some '-' then
        let (fs, r) ← takeFlags "ls:" args
        let (listing, signal) ← killOptions false none fs
        pure (listing, signal, r)
      else pure (false, none, args)
  if listing then
    if signal.isSome then fail killUsage
    listSignals targets
  else
    if targets.isEmpty then fail killUsage
    let mut status := 0
    for t in targets do
      if !(← send (← processNamed t) (signal.getD 15)) then
        complain "No such process\n".toList
        status := 1
    pure status

/-! ## Processes in the background -/

/-- Wait for a job to end, and give its exit status. -/
def waitFor (i : Interpreter) (j : Job) : Run Nat := do
  runSuspended i (fun s => s.process.number = j.process) mostSuspended
  collectSignals
  let o := ((← get).system.outcomes.lookup j.process).getD (.exited 0)
  if !j.seen then tell o
  seeEnded
  pure o.status

/-- Wait for one process after the other, and give the exit status of the last one. -/
def waitAll (i : Interpreter) (status : Nat) : List Text → Run Nat
  | [] => pure status
  | a :: r => do
    let job ← if a.head? = some '%' then some <$> jobNamed a
      else do
        let n ← number a
        pure ((← process).jobs.find? fun j => j.process = n)
    let status ← match job with
      | some j => waitFor i j
      | none => pure 127
    waitAll i status r

/-- Wait for processes, or for all that there are. -/
def wait (i : Interpreter) (args : List Text) : Run Nat := do
  match ← noFlags args with
  | [] =>
    let jobs := (← process).jobs
    runSuspended i (fun s => jobs.any fun j => j.process = s.process.number) mostSuspended
    collectSignals
    seeEnded
    pure 0
  | args => waitAll i 127 args

/-- How a process in the background is doing. -/
def jobState (j : Job) : Run (Bool × Text) := do
  let y := (← get).system
  if y.suspended.any fun s => s.process.number = j.process then pure (true, "Running".toList)
  else
    match (y.outcomes.lookup j.process).getD (.exited 0) with
    | .exited 0 => pure (false, "Done".toList)
    | .exited n => pure (false, "Done(".toList ++ Numeral.decimal n ++ [')'])
    | .signalled n => pure (false, (Signal.description n).toList)

/-- List jobs behind those that go on running. Those that have ended are forgotten. -/
def listJobs (mode : Option Char) (running : List Job) : List Job → Run (List Job)
  | [] => pure running.reverse
  | j :: r => do
    let (runs, state) ← jobState j
    let sign := match running.length with
      | 0 => '+'
      | 1 => '-'
      | _ => ' '
    let number := Numeral.decimal j.process
    if mode = some 'p' then printLine number
    else
      let lead := '[' :: Numeral.decimal j.place ++ [']', ' ', sign, ' ']
      let lead := if mode = some 'l' then lead ++ number ++ [' '] else lead
      printLine (padded 33 (lead ++ state))
    listJobs mode (if runs then j :: running else running) r

/-- List the processes in the background. -/
def jobs (args : List Text) : Run Nat := do
  let (fs, _) ← takeFlags "lp" args
  let left ← listJobs (fs.getLast?.map Prod.fst) [] (← process).jobs
  update fun p => { p with jobs := left }
  pure 0

end Run
end Posix
end EnvValues
