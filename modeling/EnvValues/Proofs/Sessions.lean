import EnvValues.Proofs.Mirror
import EnvValues.Session

/-!
# Requests do not get into each other

An interpolator is asked many things, one after the other. What is left of a request is its
trace: notices, which no run looks at again, and calls, which a shell may count. So **a request
is answered as a new interpolator would answer it** (`step_run_renewed`), one that is built
with the variables and options in force and on the same shell.

What a caller does to the mappings that an interpolator was built from does not get into it,
and reading does nothing at all: steps of these kinds can be left out of a session, or put
into one, and **all other answers stay what they are** (`answers_kept`).
-/

namespace EnvValues

/-! ## Runs from a new trace -/

/-- A trace that goes on from earlier notices, and one that began without them. -/
structure Trace.Later (earlier : Array Notice) (s s' : Trace) : Prop where
  written : s'.written = s.written
  notices : s.notices = earlier ++ s'.notices
  calls : s'.calls = s.calls

namespace Context
variable {earlier : Array Notice}

theorem steady_later : Steady (Trace.Later earlier) where
  written h := h.written
  count _ h := ⟨rfl, h.notices, h.calls⟩
  notice n h := ⟨h.written, by rw [h.notices, Array.push_append], h.calls⟩

/-- A shell is asked with the calls before it, and without the notices. -/
theorem mirrored_later (ctx : Context) (earlier : Array Notice) :
    Mirrored (Trace.Later earlier) ctx ctx where
  steady := steady_later
  config := rfl
  lookup _ _ := rfl
  quote _ _ _ := rfl
  call _ line := by
    intro s s' hT
    rw [call, Expansion.after_ofTrace, Expansion.after_ofTrace]
    dsimp only
    rw [hT.calls]
    split
    · exact ⟨rfl, hT.written, hT.notices, rfl⟩
    · exact ⟨rfl, hT.written, hT.notices, rfl⟩

/-- What was written before a pass does not count in it. -/
theorem passes_of_written (ctx : Context) (budget : Nat) (v : Text) (done : Nat) (s : Trace)
    (k : Nat) : ctx.passes budget v done { s with written := k } = ctx.passes budget v done s
      ∨ ctx.passes budget v done { s with written := k }
        = { ctx.passes budget v done s with
            trace := { (ctx.passes budget v done s).trace with written := k } } := by
  by_cases hp : ctx.Pending v
  · cases budget with
    | zero =>
        rw [passes_zero_of_pending hp, passes_zero_of_pending hp]
        exact Or.inr rfl
    | succ budget =>
        rw [Pending] at hp
        exact Or.inl (by simp only [passes, if_pos hp, pass])
  · rw [passes_of_not_pending hp, passes_of_not_pending hp]
    exact Or.inr rfl

theorem conclude_of_written (ctx : Context) (p : Passes) (k : Nat) :
    ctx.conclude { p with trace := { p.trace with written := k } }
      = ((ctx.conclude p).1, { (ctx.conclude p).2 with written := k }) := by
  obtain ⟨ending, v, count, s⟩ := p
  cases ending with
  | settled => rfl
  | exhausted =>
      simp only [conclude]
      split <;> rfl
  | halted h => cases h <;> rfl

/-- **What was written before a run does not count in it.** -/
theorem interpolate_of_written (ctx : Context) (t : Text) (s : Trace) (k : Nat) :
    (ctx.interpolate t { s with written := k }).1 = (ctx.interpolate t s).1
    ∧ (ctx.interpolate t { s with written := k }).2.notices = (ctx.interpolate t s).2.notices
    ∧ (ctx.interpolate t { s with written := k }).2.calls = (ctx.interpolate t s).2.calls := by
  rw [interpolate_eq, interpolate_eq]
  split
  · exact ⟨rfl, rfl, rfl⟩
  · rw [interpolateInner, interpolateInner]
    split
    · exact ⟨rfl, rfl, rfl⟩
    · obtain heq | heq := ctx.passes_of_written ctx.config.budget (OuterQuotes.split t).2 0 s k
      · rw [heq]
        exact ⟨rfl, rfl, rfl⟩
      · rw [heq, conclude_of_written]
        exact ⟨rfl, rfl, rfl⟩

/-- **A run goes on from a trace as from a new one with the same calls**: it gives the same,
adds the same notices and makes the same calls. -/
theorem interpolateDatum_afresh (ctx : Context) (d : Datum) (s : Trace) :
    (ctx.interpolateDatum d s).1 = (ctx.interpolateDatum d { calls := s.calls }).1
    ∧ (ctx.interpolateDatum d s).2.notices
      = s.notices ++ (ctx.interpolateDatum d { calls := s.calls }).2.notices
    ∧ (ctx.interpolateDatum d s).2.calls
      = (ctx.interpolateDatum d { calls := s.calls }).2.calls := by
  have htext : ∀ t, (ctx.interpolate t s).1 = (ctx.interpolate t { calls := s.calls }).1
      ∧ (ctx.interpolate t s).2.notices
        = s.notices ++ (ctx.interpolate t { calls := s.calls }).2.notices
      ∧ (ctx.interpolate t s).2.calls = (ctx.interpolate t { calls := s.calls }).2.calls := by
    intro t
    obtain ⟨hresult, hnotices, hcalls⟩ := ctx.interpolate_of_written t s 0
    have hlater : Trace.Later s.notices { s with written := 0 } { calls := s.calls } :=
      ⟨rfl, by simp only [Array.append_empty], rfl⟩
    obtain ⟨hsame, hT⟩ := (ctx.mirrored_later s.notices).interpolate t hlater
    exact ⟨(hsame.trans hresult).symm, hnotices.symm.trans hT.notices,
      (hT.calls.trans hcalls).symm⟩
  cases d with
  | null => exact ⟨rfl, by simp only [interpolateDatum, Array.append_empty], rfl⟩
  | _ => exact htext _

end Context

namespace Session

/-- The session that some steps leave. -/
def behind (s : Session) : List Step → Session
  | [] => s
  | a :: steps => (s.step a).2.behind steps

/-- A new interpolator with finished options, on a shell that was given calls before. -/
def build (sources : Sources) (config : Config) (shell : ShellChoice) (calls : Array Call) :
    Session where
  bindings := .ofGiven sources.bindings
  environment := .ofList sources.environment
  config := config
  shell := shell
  sources := sources
  trace := { calls := calls }

/-- A session starts with what is built from its mappings and options, and no calls made. -/
theorem start_eq_build (sources : Sources) (options : Options) (shell : ShellChoice) :
    start sources options shell = build sources (.ofOptions options) shell #[] := rfl

/-- A new interpolator for one request, in place of one that was built from some mappings. It
is built from them and with the options in force, but where the request has variables or
options of its own, with those; and it is given the same shell. -/
def renewed (s : Session) (sources : Sources) (r : Request) : Session :=
  build { sources with bindings := r.bindings.getD sources.bindings }
    ((r.config.map Config.ofOptions).getD s.config) s.shell s.trace.calls

/-- An interpolator that was built from some mappings. -/
structure BuiltFrom (sources : Sources) (s : Session) : Prop where
  bindings : s.bindings = .ofGiven sources.bindings
  environment : s.environment = .ofList sources.environment

variable {s : Session} {sources : Sources}

/-! ## One step -/

/-- A run leaves its trace, and nothing else. -/
theorem step_run_snd (s : Session) (r : Request) :
    (s.step (.run r)).2
      = { s with trace := ((s.context r).interpolateDatum r.text s.trace).2 } := rfl

theorem step_unwrap_snd (s : Session) (r : Request) :
    (s.step (.unwrap r)).2
      = { s with trace := ((s.context r).interpolateDatum r.text s.trace).2 } := rfl

/-- **No step changes the variables or the environment of an interpolator.** -/
theorem BuiltFrom.step (h : BuiltFrom sources s) (a : Step) : BuiltFrom sources (s.step a).2 := by
  cases a with
  | setOutputs line outputs =>
      rw [Session.step]
      split
      · exact ⟨h.bindings, h.environment⟩
      · exact h
  | _ => exact ⟨h.bindings, h.environment⟩

theorem BuiltFrom.behind (h : BuiltFrom sources s) (steps : List Step) :
    BuiltFrom sources (s.behind steps) := by
  induction steps generalizing s with
  | nil => exact h
  | cons a steps ih => exact ih (h.step a)

/-- A request means the same to a new interpolator that is built for it. -/
theorem context_renewed (h : BuiltFrom sources s) (r : Request) :
    (s.renewed sources r).context { text := r.text } = s.context r := by
  have hbindings : Variables.ofGiven (r.bindings.getD sources.bindings)
      = (r.bindings.map Variables.ofGiven).getD s.bindings := by
    cases r.bindings with
    | none => exact h.bindings.symm
    | some l => rfl
  simp only [context, renewed, build, Option.map_none, Option.getD_none, hbindings,
    h.environment]

/-- A new interpolator gives the same, raises the same notices and makes the same calls. -/
theorem interpolate_renewed (h : BuiltFrom sources s) (r : Request) :
    ((s.renewed sources r).interpolate { text := r.text }).1 = (s.interpolate r).1
    ∧ ((s.renewed sources r).interpolate { text := r.text }).2.1 = (s.interpolate r).2.1
    ∧ ((s.renewed sources r).interpolate { text := r.text }).2.2.1 = (s.interpolate r).2.2.1 := by
  obtain ⟨hresult, hnotices, hcalls⟩ := (s.context r).interpolateDatum_afresh r.text s.trace
  have hcontext := context_renewed h r
  simp only [interpolate, hcontext, hresult, hnotices, hcalls]
  simp [renewed, build]

/-- **A request is answered as a new interpolator would answer it.** -/
theorem step_run_renewed (h : BuiltFrom sources s) (r : Request) :
    (s.step (.run r)).1 = ((s.renewed sources r).step (.run { text := r.text })).1
    ∧ (s.step (.unwrap r)).1 = ((s.renewed sources r).step (.unwrap { text := r.text })).1 := by
  obtain ⟨hresult, hnotices, hcalls⟩ := interpolate_renewed h r
  simp only [step, hresult, hnotices, hcalls, and_self]

/-! ## Steps that can be left out -/

/-- A step that changes nothing but the mappings of the caller. -/
def Step.Inert : Step → Prop
  | config | bindings | notices => True
  | sourceVariable _ _ | sourceValue _ _ | sourceEnvironment _ _ => True
  | lookupEnvironment _ | copyEnvironment _ => True
  | run _ | unwrap _ | assignConfig _ _ | setOutputs _ _ => False

theorem Step.Inert.exists_sources {a : Step} (h : a.Inert) (s : Session) :
    ∃ x, (s.step a).2 = { s with sources := x } := by
  cases a with
  | run r => exact h.elim
  | unwrap r => exact h.elim
  | assignConfig path value => exact h.elim
  | setOutputs line outputs => exact h.elim
  | _ => exact ⟨_, rfl⟩

/-- No answer depends on the mappings of the caller. -/
theorem step_of_sources (s : Session) (x : Sources) (a : Step) :
    ({ s with sources := x }.step a).1 = (s.step a).1
      ∧ ∃ y, ({ s with sources := x }.step a).2 = { (s.step a).2 with sources := y } := by
  cases a with
  | setOutputs line outputs =>
      obtain ⟨bindings, environment, config, shell, sources, trace⟩ := s
      cases shell with
      | scripted script => exact ⟨rfl, _, rfl⟩
      | posix program => exact ⟨rfl, _, rfl⟩
  | _ => exact ⟨rfl, _, rfl⟩

theorem answers_cons (s : Session) (a : Step) (steps : List Step) :
    s.answers (a :: steps) = (s.step a).1 :: (s.step a).2.answers steps := rfl

theorem answers_of_sources (s : Session) (x : Sources) (steps : List Step) :
    { s with sources := x }.answers steps = s.answers steps := by
  induction steps generalizing s x with
  | nil => rfl
  | cons a steps ih =>
      obtain ⟨hanswer, y, hsession⟩ := s.step_of_sources x a
      rw [answers_cons, answers_cons, hanswer, hsession, ih]

@[simp] theorem length_answers (s : Session) (steps : List Step) :
    (s.answers steps).length = steps.length := by
  induction steps generalizing s with
  | nil => rfl
  | cons a steps ih => rw [answers_cons, List.length_cons, ih, List.length_cons]

theorem answers_append (s : Session) (before steps : List Step) :
    s.answers (before ++ steps) = s.answers before ++ (s.behind before).answers steps := by
  induction before generalizing s with
  | nil => rfl
  | cons a before ih => rw [List.cons_append, answers_cons, answers_cons, ih]; rfl

/-- The elements that are marked to be kept. -/
def kept {α : Type} (l : List (α × Bool)) : List α := (l.filter Prod.snd).map Prod.fst

/-- **Inert steps can be left out, or put in**: the other answers stay what they are. -/
theorem answers_kept (s : Session) (steps : List (Step × Bool))
    (h : ∀ p ∈ steps, p.2 = false → p.1.Inert) :
    s.answers (kept steps)
      = kept ((s.answers (steps.map Prod.fst)).zip (steps.map Prod.snd)) := by
  induction steps generalizing s with
  | nil => rfl
  | cons p steps ih =>
      obtain ⟨hp, hsteps⟩ := List.forall_mem_cons.1 h
      obtain ⟨a, mark⟩ := p
      cases mark with
      | true => exact congrArg ((s.step a).1 :: ·) (ih (s.step a).2 hsteps)
      | false =>
          obtain ⟨x, hx⟩ := (hp rfl).exists_sources s
          have hrest := ih (s.step a).2 hsteps
          rw [hx, answers_of_sources, ← hx] at hrest
          exact hrest

/-! ## Whole sessions -/

/-- The answer to a step, in the order of the steps. -/
theorem getElem?_answers (s : Session) (before : List Step) (a : Step) (rest : List Step) :
    (s.answers (before ++ a :: rest))[before.length]? = some ((s.behind before).step a).1 := by
  rw [answers_append, answers_cons, List.getElem?_append_right (Nat.le_of_eq (by simp))]
  simp

/-- **Requests to one interpolator do not get into each other.** Behind any steps, a request is
answered as by a new interpolator: with the variables and options that are the request's own
or, where it has none, those in force, with the environment from the beginning, and on the same
shell. It leaves nothing but its trace, however it ends. And steps that only change the mappings
of the caller, or only read, can be left out or put in anywhere: all other answers stay what
they are. -/
theorem answers_apart (sources : Sources) (options : Options) (shell : ShellChoice) :
    (∀ (before : List Step) (r : Request) (rest : List Step),
      let s := (start sources options shell).behind before
      ((start sources options shell).answers (before ++ .run r :: rest))[before.length]?
        = some ((s.renewed sources r).step (.run { text := r.text })).1
      ∧ ((start sources options shell).answers (before ++ .unwrap r :: rest))[before.length]?
        = some ((s.renewed sources r).step (.unwrap { text := r.text })).1
      ∧ (∃ trace, (s.step (.run r)).2 = { s with trace := trace })
      ∧ (∃ trace, (s.step (.unwrap r)).2 = { s with trace := trace })
      ∧ s.bindings = .ofGiven sources.bindings ∧ s.environment = .ofList sources.environment)
    ∧ ∀ steps : List (Step × Bool), (∀ p ∈ steps, p.2 = false → p.1.Inert) →
      (start sources options shell).answers (kept steps)
        = kept (((start sources options shell).answers (steps.map Prod.fst)).zip
            (steps.map Prod.snd)) := by
  refine ⟨fun before r rest => ?_, answers_kept _⟩
  have hstart : BuiltFrom sources (start sources options shell) := ⟨rfl, rfl⟩
  have hbuilt := hstart.behind before
  obtain ⟨hrun, hunwrap⟩ := step_run_renewed hbuilt r
  intro s
  refine ⟨?_, ?_, ⟨_, step_run_snd s r⟩, ⟨_, step_unwrap_snd s r⟩, hbuilt.bindings,
    hbuilt.environment⟩
  · rw [getElem?_answers, hrun]
  · rw [getElem?_answers, hunwrap]

/-- The caller changes `A` behind the back of an interpolator and looks at the notices, between
two runs of a command that counts. Neither run is any different for it. -/
theorem answers_apart_counting :
    let sources : Sources := { bindings := [("A".toList, .datum (.text "1".toList))] }
    let shell : ShellChoice := .scripted
      { outputs := Assignment.ofList
          [("n".toList, [{ stdout := "1".toList }, { stdout := "2".toList }])] }
    let first : Step := .run { text := .text "${A}$(n)".toList }
    let second : Step := .run { text := .text "$(n)".toList, bindings := some [] }
    let change : Step := .sourceVariable "A".toList (.datum (.text "9".toList))
    let steps : List (Step × Bool) :=
      [(change, false), (first, true), (.notices, false), (second, true)]
    (∀ p ∈ steps, p.2 = false → p.1.Inert)
    ∧ (start sources {} shell).answers [first, second]
      = kept (((start sources {} shell).answers [change, first, .notices, second]).zip
          [false, true, false, true]) := by
  intro sources shell first second change steps
  have hinert : ∀ p ∈ steps, p.2 = false → p.1.Inert := by
    intro p hp hmark
    simp only [steps, List.mem_cons, List.not_mem_nil, or_false] at hp
    rcases hp with rfl | rfl | rfl | rfl
    · exact trivial
    · cases hmark
    · exact trivial
    · cases hmark
  exact ⟨hinert, (answers_apart sources {} shell).2 steps hinert⟩

end Session
end EnvValues
