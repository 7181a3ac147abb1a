import EnvValues.Interpolation
import EnvValues.Shell.Posix
import EnvValues.Shell.Scripted

/-!
# Sessions

An interpolator is built once, from variables, options, an environment and a shell,
and then asked many things. `Session.step` is one such request: it answers, and what
it leaves behind is what the next request meets.

An interpolator **copies what it is built from**. The mappings the caller holds are
part of a session too, under `sources`, so that changing them is a step like any
other; nothing the interpolator answers reads them.
-/

namespace EnvValues

/-- Which shell runs the commands. -/
inductive ShellChoice
  | scripted (s : Script)
  /-- The shell of this name, in a process of its own. -/
  | posix (program : Text)

/-- The shell that was chosen. -/
def ShellChoice.shell : ShellChoice → Shell
  | scripted s => s.shell
  | posix program => Posix.shell program

/-- The mappings an interpolator is built from, as the caller holds them. -/
structure Sources where
  bindings : List (Text × Given) := []
  environment : List (Text × Text) := []

namespace Sources

/-- Assign a variable, as a whole. -/
def setVariable (s : Sources) (name : Text) (g : Given) : Sources :=
  { s with bindings := (name, g) :: s.bindings.filter fun p => p.1 ≠ name }

/-- Assign the `value` inside variables that are given as records. -/
def setValue (s : Sources) (name : Text) (value : Datum) : Sources :=
  { s with bindings := s.bindings.map fun p =>
      match p with
      | (n, .datum (.record r)) =>
        if n = name then
          (n, .datum (.record (("value", value) :: r.filter fun f => f.1 ≠ "value")))
        else p
      | p => p }

/-- Assign a variable of the environment. -/
def setEnvironment (s : Sources) (name value : Text) : Sources :=
  { s with environment := (name, value) :: s.environment.filter fun p => p.1 ≠ name }

end Sources

/-- A value to expand, with variables and options of its own in place of the
interpolator's, where it has some. -/
structure Request where
  text : Datum
  bindings : Option (List (Text × Given)) := none
  config : Option Options := none

/-- What can be asked of an interpolator, and what can be done around it. -/
inductive Session.Step
  | run (r : Request)
  | unwrap (r : Request)
  | config
  | bindings
  | assignConfig (path : List String) (value : Datum)
  | sourceVariable (name : Text) (given : Given)
  | sourceValue (name : Text) (value : Datum)
  | sourceEnvironment (name value : Text)
  | lookupEnvironment (name : Text)
  /-- Take a copy of the environment and change the copy. -/
  | copyEnvironment (changes : List (Text × Text))
  | setOutputs (line : Text) (outputs : List Output)
  | notices

/-- The answer to a step. A run is answered together with the notices it raised and
the calls it made. -/
inductive Session.Answer
  | result (r : Except Refusal Result) (notices : Array Notice) (calls : Array Call)
  | unwrapped (r : Except Refusal (Except CommandError Text)) (notices : Array Notice)
      (calls : Array Call)
  | config (c : Config)
  | bindings (v : Variables)
  | value (v : Option Text)
  | environment (e : Environment)
  | notices (ns : Array Notice)
  | done

/-- An interpolator and what it has done so far. -/
structure Session where
  bindings : Variables
  environment : Environment
  config : Config
  shell : ShellChoice
  sources : Sources
  trace : Trace := {}

namespace Session

/-- Build an interpolator. -/
def start (sources : Sources) (config : Options) (shell : ShellChoice) : Session where
  bindings := .ofGiven sources.bindings
  environment := .ofList sources.environment
  config := .ofOptions config
  shell := shell
  sources := sources

/-- What the expansion of a request reads. -/
def context (s : Session) (r : Request) : Context where
  bindings := (r.bindings.map Variables.ofGiven).getD s.bindings
  environment := s.environment
  config := (r.config.map Config.ofOptions).getD s.config
  shell := s.shell.shell

/-- Expand the value of a request: the result, the notices raised, the calls made, and
the session after it. -/
def interpolate (s : Session) (r : Request) :
    Except Refusal Result × Array Notice × Array Call × Session :=
  let (result, trace) := (s.context r).interpolateDatum r.text s.trace
  (result, trace.notices.extract s.trace.notices.size, trace.calls.extract s.trace.calls.size,
    { s with trace := trace })

/-- Answer one step. -/
def step (s : Session) : Step → Answer × Session
  | .run r =>
    let (result, notices, calls, s') := s.interpolate r
    (.result result notices calls, s')
  | .unwrap r =>
    let (result, notices, calls, s') := s.interpolate r
    (.unwrapped (result.map Result.unwrap) notices calls, s')
  | .config => (.config s.config, s)
  | .bindings => (.bindings s.bindings, s)
  | .assignConfig path value => (.done, { s with config := s.config.assign path value })
  | .sourceVariable name g => (.done, { s with sources := s.sources.setVariable name g })
  | .sourceValue name v => (.done, { s with sources := s.sources.setValue name v })
  | .sourceEnvironment name v => (.done, { s with sources := s.sources.setEnvironment name v })
  | .lookupEnvironment name => (.value s.environment[name]?, s)
  | .copyEnvironment changes => (.environment (s.environment.overlay (.ofList changes)), s)
  | .setOutputs line outputs =>
    match s.shell with
    | .scripted script => (.done, { s with shell := .scripted (script.setOutputs line outputs) })
    | .posix _ => (.done, s)
  | .notices => (.notices s.trace.notices, s)

/-- Answer the steps in order. -/
def answers (s : Session) : List Step → List Answer
  | [] => []
  | a :: rest =>
    let (answer, s') := s.step a
    answer :: s'.answers rest

end Session
end EnvValues
