import EnvValues.Shell.Posix.Builtin
import EnvValues.Shell.Posix.Callee

/-!
# Running commands

`Run.step` runs one command, given how to run those inside it, and `Run.interpreter` counts
down how deep that may go: a process that goes deeper is ended by a signal. What a command
skips after `break`, `continue` or `return` is decided by looking at the process after
each part of it.
-/

namespace EnvValues
namespace Posix
namespace Run

/-! ## Simple commands -/

/-- Is something to be done when a signal comes, or at the end? -/
def hasTraps : Run Bool := return (← process).traps.any fun t => !t.2.isEmpty

/-- Close frames, down to so many. -/
def closeFrames (n : Nat) : (fuel : Nat) → Run Unit
  | 0 => pure ()
  | fuel + 1 => do
    if (← process).locals.length > n then
      closeFrame
      closeFrames n fuel

/-- Make an assignment, for the command alone or for the shell. The text is what it writes. -/
def makeAssignment (output : Option Command → Run Text) (own exported : Bool) (w : Word) :
    Run Text := do
  let t ← expandAssignment output w
  let (name, value) := splitAssignment t
  if own then ownVariable name value { exported := true }
  else setVariable name value { exported := exported } true
  pure t

/-- What stands in front of commands that are shown before they run. -/
def traceMark (i : Interpreter) : Run Text := do
  let p ← process
  let t := (p.bindings["PS4".toList]?.bind Variable.value).getD []
  -- commands in the text are read where the reader of the script stands, so behind the end
  -- of that there are none
  let reader : Source := {
    text := [], aliases := p.aliases, documents := p.documents
    token := if p.readAll then .endOfText else .newline, givenBack := p.readAll }
  match reader.quoted? t with
  | .error e =>
    let _ ← attempt (refuse e.line e.message : Run Unit)
    update fun q => { q with status := p.status }
    pure t
  | .ok w =>
    switchOption 'x' false
    let r ← attempt (expandDocument (output i) w)
    switchOption 'x' true
    match r with
    | .ok t => pure t
    | .error .error => pure t
    | .error e => throw e

/-- Show a command before it runs, where complaints went before its redirections. -/
def trace (i : Interpreter) (before : List (Nat × Descriptor)) (texts : List Text) : Run Unit := do
  if ← option 'x' then
    let t ← traceMark i
    match before.lookup 2 with
    | some d =>
      let _ ← writeOpened d.target (t ++ [' '].intercalate texts ++ ['\n'])
    | none => pure ()

/-- Run a built-in command, and write what it printed. An error in one that is not special
gives an exit status and no more. -/
def callBuiltin (i : Interpreter) (s : Situation) (special : Bool) (name : Text)
    (args : List Text) : Run Nat := do
  let before := (← process).command
  update fun p => { p with command := some name }
  let r ← attempt (do
    let status ← builtin i s name args
    match ← flush with
    | none => pure status
    | some _ => do
      complain (((← process).command.getD name) ++ ": I/O error".toList)
      pure (status ||| 1))
  update fun p => { p with command := before, printed := [] }
  match r with
  | .ok status => pure status
  | .error .error => if special then throw .error else return (← process).status
  | .error e => throw e

/-- How many functions may be run inside each other. -/
def mostCalls : Nat := 1000

/-- Call a function. A call that is refused counts as one that has not ended. -/
def callFunction (i : Interpreter) (s : Situation) (f : Function) (args : List Text) : Run Nat := do
  update fun p => { p with calls := p.calls + 1 }
  let before ← process
  if mostCalls < before.calls then
    fail ("Maximum function recursion depth (".toList ++ Numeral.decimal mostCalls ++
      ") reached".toList)
  update fun p => { p with
    arguments := args, optionIndex := 1, optionOffset := none, loops := 0 }
  afterwards (do
    let _ ← i.run { tested := s.tested } (some f.body)) do
    update fun p => { p with
      arguments := before.arguments, optionIndex := before.optionIndex
      optionOffset := before.optionOffset, loops := before.loops, calls := p.calls - 1
      skip := match p.skip with
        | .function _ => .nothing
        | k => k }
  return (← process).status

/-- Run what a command calls. -/
def call (i : Interpreter) (s : Situation) (c : Callee) : Run Nat := do
  match c.fields.drop c.before with
  | [] => return (← process).substituted
  | name :: args =>
    match ← executable c.functions c.path name with
    | .builtin => callBuiltin i s c.special name args
    | .function f => callFunction i s f args
    | .none_ denied =>
      complainMissing name denied
      pure 127
    | .program path =>
      if s.last && !(← hasTraps) then replaceBy i path name args
      else await [← inChild i id (do let _ ← replaceBy i path name args)]

/-- Run a simple command. -/
def simple (i : Interpreter) (s : Situation) (line : Nat) (assignments words : List Word)
    (redirects : List Redirect) : Run Nat := do
  update fun p => { p with line := line, substituted := 0 }
  let c ← callee (output i) words
  let frames := (← process).locals.length
  if c.owns then openFrame
  let detours ← redirects.mapM (expandRedirect (output i))
  let before := (← process).descriptors
  let keeps := c.replaces
  let r ← attempt (do
    if !(← redirectAll (output i) detours) then
      update fun p => { p with status := 2 }
      if c.special then throw .error
      pure 2
    else
      let exported := keeps && c.before + 1 < c.fields.length
      let shown ← assignments.mapM (makeAssignment (output i) c.owns exported)
      trace i before (shown ++ c.fields)
      call i s c)
  if !(keeps && r.toOption.isSome) then restoreDescriptors before
  match r with
  | .ok status =>
    update fun p => { p with status := status }
    closeFrames frames ((← process).locals.length + 1)
    pure status
  | .error e => throw e

/-! ## Processes -/

/-- Remember the programs that the commands of a pipeline call. -/
def rememberProgram : Command → Run Unit
  | .simple _ _ (w :: _) _ => do
    match plainText? w with
    | some name =>
      if name.all Name.isPart then
        let _ ← executable true none name
    | none => pure ()
  | _ => pure ()

/-- Let a descriptor of a process lead to something that is open. -/
def leading (n : Nat) (d : Descriptor) (p : Process) : Process :=
  { p with descriptors := (n, d) :: p.descriptors.filter (fun e => e.1 ≠ n) }

/-- Run the commands of a pipeline, each of which reads what the one before it wrote. Gives
how they ended. -/
def stages (i : Interpreter) (s : Situation) (input : Option Nat) : List Command →
    Run (List Outcome)
  | [] => pure []
  | c :: cs => do
    rememberProgram c
    let next ← if cs.isEmpty then pure none else some <$> newStream
    let change (p : Process) : Process :=
      let p := match input with
        | some n => leading 0 ⟨n, true, false⟩ p
        | none => p
      match next with
      | some n => leading 1 ⟨n, false, true⟩ p
      | none => p
    let o ← inChild i change (do let _ ← i.run { s with last := true } (some c))
    return o :: (← stages i s next cs)

/-- Let a command run in the background, with nothing to read. -/
def inBackground (s : Situation) (body : Command) : Run Nat := do
  let n ← nextNumber
  let nothing ← register (.device .null)
  let p ← process
  let child := leading 0 ⟨nothing, true, false⟩ (fork n p)
  updateSystem fun y => { y with suspended := y.suspended ++ [⟨child, body, s.tested⟩] }
  let taken := p.jobs.map Job.place
  let place := ((List.range (taken.length + 1)).map (· + 1)).find? fun k => !taken.contains k
  update fun p => { p with jobs := ⟨n, place.getD 1, false⟩ :: p.jobs, lastBackground := some n }
  pure 0

/-- Run a command in a process of its own. -/
def subshell (i : Interpreter) (s : Situation) (line : Nat) (body : Command)
    (redirects : List Redirect) : Run Nat := do
  update fun p => { p with line := line }
  let detours ← redirects.mapM (expandRedirect (output i))
  let inside : Run Nat := do
    detours.forM (redirect (output i))
    i.run { s with last := true } (some body)
  if s.last && !(← hasTraps) then inside
  else await [← inChild i id (do let _ ← inside)]

/-- Run a command with redirections. -/
def redirected (i : Interpreter) (s : Situation) (line : Nat) (body : Command)
    (redirects : List Redirect) : Run Nat := do
  update fun p => { p with line := line }
  let detours ← redirects.mapM (expandRedirect (output i))
  let before := (← process).descriptors
  afterwards (do
    if ← redirectAll (output i) detours then i.run { tested := s.tested } (some body)
    else pure 2) (restoreDescriptors before)

/-! ## Loops and choices -/

/-- What is skipped at the end of a round of a loop. The loop has its share of it then. -/
def endRound : Run Skip := do
  let k := (← process).skip
  match k with
  | .loops _ n =>
    if n ≤ 1 then
      update fun p => { p with skip := .nothing }
      pure k
    else
      update fun p => { p with skip := match p.skip with
        | .loops goOn n => .loops goOn (n - 1)
        | k => k }
      pure (.loops false n)
  | k => pure k

/-- Does the loop go on after that was skipped? -/
def goesOn : Skip → Bool
  | .nothing | .loops true _ => true
  | _ => false

/-- Repeat a command while, or until, a test succeeds. The status is that of the last
round. -/
def loop (i : Interpreter) (s : Situation) (untilTrue : Bool) (test body : Command)
    (status : Nat) : (fuel : Nat) → Run Nat
  | 0 => pure status
  | fuel + 1 => do
    let t ← i.run { tested := true } (some test)
    match ← endRound with
    | .nothing =>
      if (t = 0) = untilTrue then pure status
      else
        let status ← i.run { tested := s.tested } (some body)
        if goesOn (← endRound) then loop i s untilTrue test body status fuel else pure status
    | k =>
      let status := if k = .function true then t else status
      if goesOn k then loop i s untilTrue test body status fuel else pure status

/-- Run a command for each value of a variable. -/
def forEach (i : Interpreter) (s : Situation) (name : Text) (body : Command) (status : Nat) :
    List Text → Run Nat
  | [] => pure status
  | v :: vs => do
    assign name v {}
    let status ← i.run { tested := s.tested } (some body)
    if goesOn (← endRound) then forEach i s name body status vs else pure status

/-- Does one of the patterns match? -/
def anyMatches (output : Option Command → Run Text) (t : Text) : List Word → Run Bool
  | [] => pure false
  | w :: ws => do
    if (← expandPattern output w).covers t then pure true else anyMatches output t ws

/-- The first branch with a pattern that matches. -/
def branch? (output : Option Command → Run Text) (t : Text) : List Branch →
    Run (Option Branch)
  | [] => pure none
  | b :: bs => do
    if ← anyMatches output t b.1 then pure (some b) else branch? output t bs

/-- Run something inside a loop. -/
def inLoop (x : Run Nat) : Run Nat := do
  update fun p => { p with loops := p.loops + 1 }
  let status ← x
  update fun p => { p with loops := p.loops - 1 }
  pure status

/-- How many rounds a loop may have. -/
def mostRounds : Nat := Nat.pow 2 60

/-- Set the exit status. -/
def settle (x : Run Nat) : Run Nat := do
  let status ← x
  update fun p => { p with status := status }
  pure status

/-- Run one command. The status may be one that a failure would be told by: not if the
command is put together from others, or is skipped in part. -/
def body (i : Interpreter) (s : Situation) (c : Command) : Run Nat := do
  let skipping : Run Bool := return (← process).skip ≠ .nothing
  match c with
  | .negation c => settle do
    let status ← i.run { tested := true } (some c)
    if ← skipping then pure status else pure (if status = 0 then 1 else 0)
  | .redirected line c rs => settle (redirected i s line c rs)
  | .simple line assignments words rs => settle (simple i s line assignments words rs)
  | .subshell line c rs => settle (subshell i s line c rs)
  | .background c [] => settle (inBackground s c)
  | .background c rs => settle do inBackground s (.redirected (← process).line c rs)
  | .pipeline true cs => settle (inBackground s (.pipeline false cs))
  | .pipeline false cs => settle do await (← stages i s none cs)
  | .forEach line name words c => settle do
    update fun p => { p with line := line }
    let values ← words.mapM (expandFields (output i))
    inLoop (forEach i s name c 0 values.flatten)
  | .loop untilTrue test c => settle (inLoop (loop i s untilTrue test c 0 mostRounds))
  | .select line w branches => settle do
    update fun p => { p with line := line }
    let t ← expandText (output i) w
    match ← branch? (output i) t branches with
    | some (_, some c) => i.run s (some c)
    | _ => pure 0
  | .both a b => do
    let status ← i.run { tested := true } (some a)
    if status ≠ 0 || (← skipping) then pure status else settle (i.run s (some b))
  | .either a b => do
    let status ← i.run { tested := true } (some a)
    if status = 0 || (← skipping) then pure status else settle (i.run s (some b))
  | .sequence a b => do
    let status ← i.run { tested := s.tested } (some a)
    if ← skipping then pure status else settle (i.run s (some b))
  | .conditional test yes no => do
    let status ← i.run { tested := true } (some test)
    if ← skipping then pure status
    else if status = 0 then settle (i.run s (some yes))
    else
      match no with
      | some no => settle (i.run s (some no))
      | none => settle (pure 0)
  | .define line name c => settle do
    update fun p => { p with
      functions := p.functions.insert name ⟨line, c⟩
      remembered := p.remembered.filter (fun e => e.1 ≠ name) }
    pure 0

/-- Can a failure of the command be one of the script? One that is put together from others
has seen to the failures of those. -/
def canFail : Command → Bool
  | .simple .. | .subshell .. | .background .. | .pipeline .. => true
  | _ => false

/-- Run one command, or none, given how to run those inside it. -/
def step (i : Interpreter) (s : Situation) (c : Option Command) : Run Nat := do
  let failed ← match c with
    | some c => do
      if ← option 'n' then pure false
      else
        lookAtSignals i
        let status ← body i s c
        pure (canFail c && status ≠ 0)
    | none => pure false
  lookAtSignals i
  if failed && !s.tested && (← option 'e') then throw .finished
  if s.last then throw .finished
  return (← process).status

/-- Runs commands that are nested so deep at most. A process that would go deeper is ended. -/
def interpreter : (depth : Nat) → Interpreter
  | 0 => ⟨fun _ _ => throw (.ended (.signalled 11))⟩
  | depth + 1 => ⟨fun s c => step (interpreter depth) s c⟩

end Run
end Posix
end EnvValues
