import EnvValues.Proofs.History
import EnvValues.Session

/-!
# What keeps a run from a result

A process may do whatever it does: print anything, end with any status, or not start at all. All of
that is a failure of the command at most. But a call may be **refused** before a process is there,
for what its command line or its environment holds, and then there is no run of a command that could
fail.

`Posix.spawning` is the shell that starts a process for each call that there is no reason to refuse,
whatever the reasons are and whatever the system does with a process; the shell that the library
runs is one of them (`exists_spawning`). Reasons are the character U+0000, a name with `=`, and a
text that the encoding of the system cannot write (`Posix.refusal?`): a call without any of these is
`Presentable`.

A step of an expansion is refused with its last call or not at all (`TakenUntil`), and so are passes
and runs (`takenUntil_passes`, `takenUntil_interpolate`). Where no call of a run is refused, the run
gives a result, and that one raises a failure only where failures count (`result_or_refused`). A
command line with the character U+0000 is refused (`refused_nullCharacter`).
-/

namespace EnvValues

namespace Posix

/-! ## Programs that are started -/

/-- What the system does with a process. -/
inductive Spawned
  /-- It does not start, for a reason that the system words. -/
  | failed (message : Text)
  /-- It ends, with what it wrote and its status. -/
  | ended (stdout stderr : List UInt8) (status : Int)

/-- What a process leaves behind. One that does not start counts as a command that is not found. -/
def Spawned.output : Spawned → Output
  | failed message => { exitCode := 127, stderr := message }
  | ended stdout stderr status =>
    { stdout := Utf8.decode stdout, exitCode := status, stderr := Utf8.decode stderr }

/-- The shell that starts a process for each call, unless there is a reason to refuse it, on a
system that does this with the process. -/
def spawning (reason? : Call → Option Refusal) (system : Array Call → Call → Spawned) : Shell where
  quote := ShellWord.quote
  answer before call :=
    match reason? call with
    | some r => .error r
    | none => .ok (system before call).output

/-- What a process wrote and its status are those of a process that ended. -/
theorem exists_runProcess (program : Text) (call : Call) :
    ∃ p : Spawned, runProcess program call = p.output := by
  -- each stream was decoded from bytes, and one that is closed holds none
  have hout : ∃ bs, Utf8.decode bs = (runProcess program call).stdout := by
    unfold runProcess
    dsimp only
    split
    dsimp only
    split
    · exact ⟨_, rfl⟩
    · exact ⟨[], rfl⟩
  have herr : ∃ bs, Utf8.decode bs = (runProcess program call).stderr := by
    unfold runProcess
    dsimp only
    split
    dsimp only
    split
    · exact ⟨_, rfl⟩
    · exact ⟨[], rfl⟩
  obtain ⟨stdout, hout⟩ := hout
  obtain ⟨stderr, herr⟩ := herr
  exact ⟨.ended stdout stderr (runProcess program call).exitCode, by
    rw [Spawned.output, hout, herr]⟩

/-- **The shell that is run is one of these.** -/
theorem exists_spawning (program : Text) : ∃ system,
    shell program = spawning (refusal? .utf8 program) system := by
  have hanswer : ∀ call, ∃ p : Spawned, refusal? .utf8 program call = none →
      ∀ before, (shell program).answer before call = .ok p.output := by
    intro call
    cases hr : refusal? .utf8 program call with
    | some r => exact ⟨.failed [], nofun⟩
    | none =>
        simp only [shell, hr]
        cases start program call.environment with
        | error f => exact ⟨.failed (f.message program), fun _ _ => rfl⟩
        | ok path =>
            dsimp only
            split
            · exact ⟨.failed (StartFailure.tooLong.message program), fun _ _ => rfl⟩
            · obtain ⟨p, hp⟩ := exists_runProcess program call
              exact ⟨p, fun _ _ => by rw [hp]⟩
  obtain ⟨system, hsystem⟩ := Classical.axiomOfChoice hanswer
  refine ⟨fun _ call => system call, ?_⟩
  have hsame : (shell program).answer
      = (spawning (refusal? .utf8 program) fun _ call => system call).answer := by
    funext before call
    cases hr : refusal? .utf8 program call with
    | some r => simp only [shell, spawning, hr]
    | none => simp only [hsystem call hr before, spawning, hr]
  exact congrArg (Shell.mk ShellWord.quote) hsame

/-! ## Calls that can be handed to a process -/

namespace Encoding
variable {e : Encoding} {t name value : Text}

/-- A text that can be handed to a process: it can be written in bytes, and it holds no U+0000. -/
structure Carries (e : Encoding) (t : Text) : Prop where
  encodable : e.complaint? t = none
  nullFree : '\x00' ∉ t

theorem refusal?_eq_none_iff : e.refusal? t = none ↔ e.Carries t := by
  unfold refusal?
  cases hc : e.complaint? t with
  | some complaint =>
      refine ⟨nofun, fun h => ?_⟩
      have hnone := h.encodable
      rw [hc] at hnone
      cases hnone
  | none =>
      by_cases hnull : '\x00' ∈ t
      · simp only [List.contains_iff_mem.2 hnull, if_true]
        exact ⟨nofun, fun h => absurd hnull h.nullFree⟩
      · simp only [List.contains_iff_mem, hnull, if_false, true_iff]
        exact ⟨hc, hnull⟩

/-- An entry is taken where both of its texts can be written in bytes, if its name has no `=`. -/
theorem entryRefusal?_eq_none_iff : e.entryRefusal? name value = none
    ↔ e.complaint? name = none ∧ '=' ∉ name ∧ e.complaint? value = none := by
  unfold entryRefusal?
  cases e.complaint? name with
  | some complaint => simp
  | none => by_cases hequals : '=' ∈ name <;> simp [hequals]

end Encoding

/-- A call that can be handed to a process: so can be all of its texts, and no name of its
environment holds `=`. -/
structure Presentable (e : Encoding) (program : Text) (call : Call) : Prop where
  program_carried : e.Carries program
  line_carried : e.Carries call.line
  name_carried : ∀ {name value : Text}, call.environment[name]? = some value →
    e.Carries name ∧ '=' ∉ name
  value_carried : ∀ {name value : Text}, call.environment[name]? = some value → e.Carries value

/-- **Calls are refused where they are not presentable**, and nowhere else. -/
theorem refusal?_eq_none_iff {e : Encoding} {program : Text} {call : Call} :
    refusal? e program call = none ↔ Presentable e program call := by
  -- in order: the entries, the program and the line, and U+0000 in the entries
  have hrefusal : refusal? e program call = none
      ↔ (∀ name value : Text, call.environment[name]? = some value →
          e.complaint? name = none ∧ '=' ∉ name ∧ e.complaint? value = none)
        ∧ (e.Carries program ∧ e.Carries call.line)
        ∧ ∀ name value : Text, call.environment[name]? = some value →
          '\x00' ∉ name ∧ '\x00' ∉ value := by
    simp [refusal?, Option.or_eq_none_iff, List.findSome?_eq_none_iff, Prod.forall,
      Std.ExtTreeMap.mem_toList_iff_getElem?_eq_some, Encoding.refusal?_eq_none_iff,
      Encoding.entryRefusal?_eq_none_iff]
  rw [hrefusal]
  constructor
  · rintro ⟨hentries, ⟨hprogram, hline⟩, hnull⟩
    refine ⟨hprogram, hline, fun hv => ?_, fun hv => ?_⟩
    · exact ⟨⟨(hentries _ _ hv).1, (hnull _ _ hv).1⟩, (hentries _ _ hv).2.1⟩
    · exact ⟨(hentries _ _ hv).2.2, (hnull _ _ hv).2⟩
  · intro h
    refine ⟨fun name value hv => ?_, ⟨h.program_carried, h.line_carried⟩, fun name value hv => ?_⟩
    · obtain ⟨hname, hequals⟩ := h.name_carried hv
      exact ⟨hname.encodable, hequals, (h.value_carried hv).encodable⟩
    · exact ⟨(h.name_carried hv).1.nullFree, (h.value_carried hv).nullFree⟩

/-- ASCII has no bytes for a letter with an accent, and says so. -/
example :
    refusal? ⟨fun t => if t.all (·.toNat < 128) then none else some "not in range(128)".toList⟩
      "sh".toList ⟨"echo \u00e9".toList, ∅⟩ = some (.unencodable "not in range(128)".toList) := by
  decide +kernel

end Posix

/-! ## Where a step is refused -/

/-- A shell that refuses calls for this reason, where they have it, and no other calls. -/
def Shell.RefusesFor (sh : Shell) (reason? : Call → Option Refusal) : Prop :=
  ∀ before call, match reason? call with
    | some why => sh.answer before call = .error why
    | none => ∃ o, sh.answer before call = .ok o

theorem Posix.refusesFor_spawning (reason? : Call → Option Refusal)
    (system : Array Call → Call → Spawned) : (spawning reason? system).RefusesFor reason? := by
  intro before call
  cases hr : reason? call with
  | some why => simp only [spawning, hr]
  | none => exact ⟨(system before call).output, by simp only [spawning, hr]⟩

/-- Calls of which none is refused, or the last one and no other. -/
def TakenUntil (reason? : Call → Option Refusal) (calls : List Call) : Option Refusal → Prop
  | none => ∀ c ∈ calls, reason? c = none
  | some why => ∃ earlier c,
      calls = earlier ++ [c] ∧ (∀ c ∈ earlier, reason? c = none) ∧ reason? c = some why

namespace TakenUntil
variable {reason? : Call → Option Refusal} {calls later : List Call} {r : Option Refusal}

theorem nil : TakenUntil reason? [] none := fun _ hc => nomatch hc

/-- Calls that are taken may stand in front. -/
theorem append (h : TakenUntil reason? calls none) (h' : TakenUntil reason? later r) :
    TakenUntil reason? (calls ++ later) r := by
  cases r with
  | none => exact List.forall_mem_append.2 ⟨h, h'⟩
  | some why =>
      obtain ⟨earlier, c, rfl, hearlier, hc⟩ := h'
      exact ⟨calls ++ earlier, c, (List.append_assoc ..).symm,
        List.forall_mem_append.2 ⟨h, hearlier⟩, hc⟩

/-- Where every call is taken, nothing is refused. -/
theorem eq_none (h : TakenUntil reason? calls r) (hcalls : ∀ c ∈ calls, reason? c = none) :
    r = none := by
  cases r with
  | none => rfl
  | some why =>
      obtain ⟨earlier, c, rfl, -, hc⟩ := h
      have htaken := hcalls c (List.mem_append_right _ List.mem_cons_self)
      rw [hc] at htaken
      cases htaken

/-- **What is refused is the last call**, and the calls tell why. -/
theorem eq_some_iff (h : TakenUntil reason? calls r) {why : Refusal} :
    r = some why ↔ ∃ earlier c,
      calls = earlier ++ [c] ∧ (∀ c ∈ earlier, reason? c = none) ∧ reason? c = some why := by
  constructor
  · rintro rfl
    exact h
  · rintro ⟨earlier, c, rfl, -, hc⟩
    cases r with
    | none =>
        have htaken := h c (List.mem_append_right _ List.mem_cons_self)
        rw [hc] at htaken
        cases htaken
    | some why' =>
        obtain ⟨earlier', c', heq, -, hc'⟩ := h
        obtain ⟨-, hlast⟩ := List.append_inj' heq rfl
        obtain rfl : c = c' := (List.cons.inj hlast).1
        exact hc'.symm.trans hc

end TakenUntil

namespace Context

/-- Why a step was refused, if it was. -/
def refusalOf {α : Type} : Except Halt α → Option Refusal
  | .error (.refused why) => some why
  | _ => none

/-- A step takes its calls, until one is refused and halts it. -/
def Takes (reason? : Call → Option Refusal) {α : Type} (x : Expansion α) (es : Account) : Prop :=
  ∀ s : Trace, TakenUntil reason? (Event.calls (es s)) (refusalOf (x.after s).1)

section
variable {ctx : Context} {reason? : Call → Option Refusal}

theorem Takes.bind {α β : Type} {x : Expansion α} {es : Account} {f : α → Expansion β}
    {fs : α → Account} (hx : Takes reason? x es) (hf : ∀ a, Takes reason? (f a) (fs a)) :
    Takes reason? (x >>= f) (.bind x es fs) := by
  intro s
  have htaken := hx s
  cases hr : x.after s with
  | mk r s' =>
      rw [hr] at htaken
      cases r with
      | error e =>
          rw [Account.bind_of_error hr, Expansion.after_bind_of_error hr]
          cases e <;> exact htaken
      | ok a =>
          rw [Account.bind_of_ok hr, Expansion.after_bind_of_ok hr, Event.calls_append]
          exact htaken.append (hf a s')

theorem takes_emit (ctx : Context) (t : Text) : Takes reason? (ctx.emit t) .nothing := by
  intro s
  rw [emit, Expansion.after_ofTrace]
  dsimp only
  split <;> exact .nil

theorem takes_warn (ctx : Context) (name : Text) :
    Takes reason? (ctx.warn name) (ctx.warnAccount name) := by
  intro s
  unfold warn warnAccount
  cases ctx.config.warnOnUndefined <;> exact .nil

theorem takes_failCommand (ctx : Context) (e : CommandError) :
    Takes reason? (ctx.failCommand e) (ctx.failAccount e) := by
  intro s
  unfold failCommand failAccount
  cases ctx.config.failOnCommandError <;> exact .nil

theorem takes_call (hshell : ctx.shell.RefusesFor reason?) (line : Text) :
    Takes reason? (ctx.call line) (ctx.callAccount line) := by
  intro s
  have hanswer := hshell s.calls ⟨line, ctx.commandEnvironment⟩
  rw [call, Expansion.after_ofTrace]
  dsimp only
  cases hr : reason? ⟨line, ctx.commandEnvironment⟩ with
  | some why =>
      simp only [hr] at hanswer
      rw [hanswer]
      exact ⟨[], _, rfl, fun _ hc => absurd hc List.not_mem_nil, hr⟩
  | none =>
      simp only [hr] at hanswer
      obtain ⟨o, ho⟩ := hanswer
      rw [ho]
      intro c hc
      obtain rfl := List.mem_singleton.1 hc
      exact hr

theorem steps_takes (hshell : ctx.shell.RefusesFor reason?) :
    Steps ctx ctx fun x es _ => Takes reason? x es :=
  .ofOne (fun _ _ => .nil) Takes.bind (takes_emit ctx) (takes_warn ctx) (takes_failCommand ctx)
    (takes_call hshell)

/-- A pass takes its calls, until one is refused and halts it. -/
theorem takenUntil_passOver (hshell : ctx.shell.RefusesFor reason?) (v : Text) (s : Trace) :
    TakenUntil reason? (Event.calls (ctx.passAccount v s)) (refusalOf (ctx.passOver v s).1) :=
  (steps_takes hshell).expandAll .value (ctx.nodes v) { s with written := 0 }

/-! ## Where a run is refused -/

/-- Why passes were refused, if they were. -/
def refusalOfEnding : Ending → Option Refusal
  | .halted (.refused why) => some why
  | _ => none

/-- **Passes take their calls**, until one is refused and ends them. -/
theorem takenUntil_passes (hshell : ctx.shell.RefusesFor reason?) (budget : Nat) (v : Text)
    (s : Trace) : ∀ done, TakenUntil reason? (Event.calls (ctx.passesHistory budget v s))
      (refusalOfEnding (ctx.passes budget v done s).ending) := by
  induction budget, v, s using ctx.passes_induction with
  | settled budget v s hp =>
      intro done
      rw [passesHistory_of_not_pending hp, passes_of_not_pending hp]
      exact .nil
  | exhausted v s hp =>
      intro done
      rw [passesHistory_zero, passes_zero_of_pending hp]
      exact .nil
  | halted budget v s h s' hp hpass =>
      intro done
      have htaken := takenUntil_passOver hshell v s
      rw [hpass] at htaken
      rw [passesHistory_of_error hp hpass, passes_of_error hp hpass]
      cases h <;> exact htaken
  | unchanged budget v s s' hp hpass =>
      intro done
      have htaken := takenUntil_passOver hshell v s
      rw [hpass] at htaken
      rw [passesHistory_of_unchanged hp hpass, passes_of_unchanged hp hpass]
      simpa [refusalOf, refusalOfEnding] using htaken
  | changed budget v s u s' hp hpass hu ih =>
      intro done
      have htaken := takenUntil_passOver hshell v s
      rw [hpass] at htaken
      rw [passesHistory_of_changed hp hpass hu, passes_of_changed hp hpass hu]
      have hrest := htaken.append (ih (done + 1))
      simpa using hrest

/-- Why a run was refused, if it was. -/
def refusalOfRun : Except Refusal Result → Option Refusal
  | .error why => some why
  | .ok _ => none

theorem refusalOfRun_eq_some_iff {run : Except Refusal Result} {why : Refusal} :
    refusalOfRun run = some why ↔ run = .error why := by
  cases run with
  | ok r => exact ⟨nofun, nofun⟩
  | error why' => simp [refusalOfRun]

/-- A run is refused where its passes are. -/
theorem refusalOfRun_conclude (ctx : Context) (p : Passes) :
    refusalOfRun (ctx.conclude p).1 = refusalOfEnding p.ending := by
  obtain ⟨ending, v, count, s⟩ := p
  cases ending with
  | settled => rfl
  | exhausted => rfl
  | halted h => cases h <;> rfl

/-- **A run takes its calls**, until one is refused and ends it. -/
theorem takenUntil_interpolate (hshell : ctx.shell.RefusesFor reason?) (t : Text) (s : Trace) :
    TakenUntil reason? (Event.calls (ctx.history t s)) (refusalOfRun (ctx.interpolate t s).1) := by
  rw [history, interpolate_eq]
  split
  · exact .nil
  · unfold innerHistory interpolateInner
    split
    · exact .nil
    · rw [refusalOfRun_conclude, Event.calls_append, Event.calls_map, List.append_nil]
      exact takenUntil_passes hshell _ _ _ 0

/-- A run fails with a command only where failures count. -/
theorem failOnCommandError_of_failure {t : Text} {s : Trace} {r : Result}
    (h : (ctx.interpolate t s).1 = .ok r) {e : CommandError} (he : r.failure = some e) :
    ctx.config.failOnCommandError = true := by
  rw [interpolate_eq] at h
  split at h
  · cases h
    cases he
  · unfold interpolateInner at h
    split at h
    · cases h
      cases he
    · have hreason := (ctx.tells_passes ctx.config.budget (OuterQuotes.split t).2 s 0).reason
      generalize ctx.passes ctx.config.budget (OuterQuotes.split t).2 0 s = p at h hreason
      obtain ⟨ending, v, count, s'⟩ := p
      cases ending with
      | settled => cases h; cases he
      | exhausted => cases h; cases he
      | halted halt =>
          cases halt with
          | commandFailed e' => exact hreason _ rfl
          | outputTooLong limit => cases h; cases he
          | refused why => cases h

/-- A datum is expanded as its text, unless it is null. -/
theorem interpolateDatum_eq (ctx : Context) (d : Datum) (s : Trace) :
    ctx.interpolateDatum d s = (.ok { value := [] }, s)
      ∨ ctx.interpolateDatum d s = ctx.interpolate d.asText s := by
  cases d with
  | null => exact Or.inl rfl
  | _ => exact Or.inr rfl

theorem exists_takenUntil (hshell : ctx.shell.RefusesFor reason?) (d : Datum) (s : Trace) :
    ∃ calls : List Call, (ctx.interpolateDatum d s).2.calls = s.calls ++ calls.toArray
      ∧ TakenUntil reason? calls (refusalOfRun (ctx.interpolateDatum d s).1) := by
  obtain hrun | hrun := ctx.interpolateDatum_eq d s
  · rw [hrun]
    exact ⟨[], Array.append_empty.symm, .nil⟩
  · rw [hrun]
    exact ⟨_, (ctx.extends_interpolate d.asText s).calls, takenUntil_interpolate hshell _ s⟩

/-- The failure of a command is raised only where failures count. -/
theorem failOnCommandError_of_unwrap {d : Datum} {s : Trace} {r : Result}
    (h : (ctx.interpolateDatum d s).1 = .ok r) {e : CommandError} (he : r.unwrap = .error e) :
    ctx.config.failOnCommandError = true := by
  have hfailure : r.failure = some e := by
    unfold Result.unwrap at he
    split at he
    · next e' hfailure =>
        cases he
        exact hfailure
    · cases he
  obtain hrun | hrun := ctx.interpolateDatum_eq d s
  · rw [hrun] at h
    cases h
    cases hfailure
  · rw [hrun] at h
    exact failOnCommandError_of_failure h hfailure

end

/-- **A run gives a result, unless its last call is refused.** With a shell that starts a process
for each call, whatever there is a reason to refuse and whatever the system does with a process, a
run gives a result where none of its calls is refused. It raises the failure of a command only where
failures count. Where it gives no result, its last call was refused, for the reason that is told,
and none before it was. If what is refused is U+0000, `=` in a name, and what the system's encoding
cannot write, a run gives a result where all of its calls are presentable. -/
theorem result_or_refused (ctx : Context) (reason? : Call → Option Refusal)
    (system : Array Call → Call → Posix.Spawned) (d : Datum) (s : Trace) :
    let run := ({ ctx with shell := Posix.spawning reason? system } : Context).interpolateDatum d s
    ∃ calls : List Call, run.2.calls = s.calls ++ calls.toArray
      ∧ ((∀ c ∈ calls, reason? c = none) → ∃ r, run.1 = .ok r)
      ∧ (∀ r e, run.1 = .ok r → r.unwrap = .error e → ctx.config.failOnCommandError = true)
      ∧ (∀ why, run.1 = .error why ↔ ∃ earlier c, calls = earlier ++ [c]
        ∧ (∀ c ∈ earlier, reason? c = none) ∧ reason? c = some why)
      ∧ ∀ encoding program, reason? = Posix.refusal? encoding program →
        (∀ c ∈ calls, Posix.Presentable encoding program c) → ∃ r, run.1 = .ok r := by
  intro run
  let spawns : Context := { ctx with shell := Posix.spawning reason? system }
  have hshell : spawns.shell.RefusesFor reason? := Posix.refusesFor_spawning reason? system
  obtain ⟨calls, hcalls, htaken⟩ := exists_takenUntil hshell d s
  change TakenUntil _ calls (refusalOfRun run.1) at htaken
  have hgives : (∀ c ∈ calls, reason? c = none) → ∃ r, run.1 = .ok r := by
    intro htakes
    have hnone := htaken.eq_none htakes
    cases hrun : run.1 with
    | ok r => exact ⟨r, rfl⟩
    | error why =>
        rw [hrun] at hnone
        cases hnone
  have hraises : ∀ r e, run.1 = .ok r → r.unwrap = .error e →
      ctx.config.failOnCommandError = true :=
    fun r e hr he => @failOnCommandError_of_unwrap spawns d s r hr e he
  refine ⟨calls, hcalls, hgives, hraises, fun why => ?_, ?_⟩
  · rw [← refusalOfRun_eq_some_iff, htaken.eq_some_iff]
  · rintro encoding program rfl hpresentable
    exact hgives fun c hc => Posix.refusal?_eq_none_iff.2 (hpresentable c hc)

/-- **A run may end in no result.** The command line `echo a\x00b` cannot be handed to a process,
and so `$(echo a\x00b)` gives neither a value nor a failure, with failures counting for nothing. -/
theorem refused_nullCharacter :
    ((Session.start {} {} (.posix "sh".toList)).interpolate
      { text := .text "$(echo a\x00b)".toList }).1 = .error .nullCharacter
    ∧ (Session.start {} {} (.posix "sh".toList)).config.failOnCommandError = false := by
  have hrefused : refusalOfRun ((Session.start {} {} (.posix "sh".toList)).interpolate
      { text := .text "$(echo a\x00b)".toList }).1 = some .nullCharacter := by
    decide +kernel
  exact ⟨refusalOfRun_eq_some_iff.1 hrefused, by decide⟩

end Context
end EnvValues
