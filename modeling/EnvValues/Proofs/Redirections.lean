import EnvValues.Proofs.Locality
import EnvValues.Proofs.StoredValues

/-!
# Variables that refer to variables

Where every variable holds a reference to a variable and nothing else, each pass takes one step
along these references, and nothing is ever left to resolve but the next one. The references may go
round in circles, run into one, or come to a variable that refers to itself.

**A run follows them for as long as its budget lasts** (`interpolate_of_redirects`). Only a variable
that refers to itself ends it before: the pass over it changes nothing, and that pass counts. A
circle of two variables or more does not, since no pass in it gives back the text that it began
with.
-/

namespace EnvValues
namespace Context
open Node

/-- Every variable holds a reference to a variable and nothing else: `target` says to which. -/
structure Redirects (ctx : Context) (target : Text → Text) : Prop where
  valid : ∀ name ∈ ctx.bindings, Name.isName name = true
  bound : ∀ name ∈ ctx.bindings, target name ∈ ctx.bindings
  value : ∀ name ∈ ctx.bindings,
    ctx.bindings[name]?.map Entry.value = some (plainly (target name)).raw

/-- References to different names are written differently. -/
theorem raw_plainly_inj {name name' : Text} :
    (plainly name).raw = (plainly name').raw ↔ name = name' := by
  simp [plainly, raw]

section
variable {ctx : Context} {target : Text → Text} {name v : Text}

theorem Redirects.lookup (h : ctx.Redirects target) (hname : name ∈ ctx.bindings) :
    ctx.lookup name = some (plainly (target name)).raw := by
  obtain ⟨e, he, hvalue⟩ := Option.map_eq_some_iff.1 (h.value name hname)
  rw [Context.lookup, he]
  exact congrArg some hvalue

/-- Going along the references never leaves the variables. -/
theorem Redirects.iterate_mem (h : ctx.Redirects target) (hname : name ∈ ctx.bindings) (k : Nat) :
    target^[k] name ∈ ctx.bindings := by
  induction k with
  | zero => exact hname
  | succ k ih =>
      rw [Function.iterate_succ_apply']
      exact h.bound _ ih

/-! ## A reference alone -/

theorem nodes_raw_plainly (hv : ctx.config.features.references = true)
    (hdepth : 0 < ctx.config.limits.nestingDepth) (hname : Name.isName name = true) :
    ctx.nodes (plainly name).raw = [plainly name] := by
  have hnodes := nodes_of_clean hv (clean_plainly hname hdepth)
  rw [rawAll_singleton] at hnodes
  rw [hnodes, plainly, joinedAll_cons, joined_ref_none, joinedAll_nil]
  rfl

theorem pending_raw_plainly (hv : ctx.config.features.references = true)
    (hdepth : 0 < ctx.config.limits.nestingDepth) (hname : Name.isName name = true) :
    ctx.Pending (plainly name).raw := by
  rw [Pending, nodes_raw_plainly hv hdepth hname]
  rfl

/-- **A pass over a reference gives the value**, and does nothing else. -/
theorem passOver_raw_plainly (hv : ctx.config.features.references = true)
    (hdepth : 0 < ctx.config.limits.nestingDepth) (hname : Name.isName name = true)
    (hl : ctx.lookup name = some v) (hlength : (v.length : Int) ≤ ctx.config.limits.outputLength)
    (s : Trace) : ctx.passOver (plainly name).raw s = (.ok v, { s with written := v.length }) := by
  have hemit : (ctx.emit v).after { s with written := 0 }
      = (.ok v, { s with written := v.length }) := by
    rw [after_emit (by simpa using hlength)]
    simp
  have hnode : (ctx.expand .value (plainly name)).after { s with written := 0 }
      = (.ok v, { s with written := v.length }) := by
    rw [plainly, expand, expandRef_of_some hl, Expansion.after_bind_of_ok hemit]
    rfl
  rw [passOver, nodes_raw_plainly hv hdepth hname, pass, after_expandAll_cons, hnode]
  simp

/-! ## Along the references -/

/-- **As long as the names change, so do the passes**, and each of them takes one step. -/
theorem passes_along (hv : ctx.config.features.references = true)
    (hdepth : 0 < ctx.config.limits.nestingDepth) (h : ctx.Redirects target) (k : Nat) :
    ∀ name ∈ ctx.bindings, (∀ i < k, target^[i + 1] name ≠ target^[i] name) →
      (∀ i < k, ((plainly (target^[i + 1] name)).raw.length : Int)
        ≤ ctx.config.limits.outputLength) →
      ∀ done s, ∃ s', s'.calls = s.calls ∧ s'.notices = s.notices
        ∧ ∀ more, ctx.passes (k + more) (plainly name).raw done s
          = ctx.passes more (plainly (target^[k] name)).raw (done + k) s' := by
  induction k with
  | zero =>
      intro name _ _ _ done s
      exact ⟨s, rfl, rfl, fun more => by rw [Nat.zero_add]; rfl⟩
  | succ k ih =>
      intro name hname hchanges hlength done s
      -- the first step, and then the others from where it leads
      have hvalid : Name.isName name = true := h.valid name hname
      have hstep := passOver_raw_plainly hv hdepth hvalid (h.lookup hname)
        (hlength 0 (Nat.succ_pos k)) s
      have hchanged : (plainly (target name)).raw ≠ (plainly name).raw :=
        fun heq => hchanges 0 (Nat.succ_pos k) (raw_plainly_inj.1 heq)
      obtain ⟨s', hcalls, hnotices, hmore⟩ := ih (target name) (h.bound name hname)
        (fun i hi => hchanges (i + 1) (Nat.succ_lt_succ hi))
        (fun i hi => hlength (i + 1) (Nat.succ_lt_succ hi)) (done + 1)
        { s with written := (plainly (target name)).raw.length }
      refine ⟨s', hcalls, hnotices, fun more => ?_⟩
      have hpending : ctx.Pending (plainly name).raw := pending_raw_plainly hv hdepth hvalid
      rw [Nat.add_right_comm, passes_of_changed hpending hstep hchanged, hmore,
        Function.iterate_succ_apply, Nat.add_assoc, Nat.add_comm 1 k]

/-- The escapes of a reference are none. -/
theorem decodeIf_raw_plainly (enabled : Bool) (hname : Name.isName name = true) :
    Escape.decodeIf enabled (plainly name).raw = (plainly name).raw := by
  refine Escape.decodeIf_of_not_mem ?_ enabled
  have hmem : '\\' ∉ name := Name.not_mem_of_isName hname rfl
  simp [plainly, raw, hmem]

end

/-- **References to references are followed exactly to the budget.** Let every variable hold a
reference to a variable and nothing else, let references be enabled, and let `n` passes be allowed.
If a variable on the way refers to itself and is met in fewer than `n` steps, the run of a reference
ends there, with the pass that changed nothing, and is not exhausted. Otherwise it makes `n` steps
and is exhausted. No call is made, no command fails, and nothing but the budget is noticed. -/
theorem interpolate_of_redirects {ctx : Context} {target : Text → Text}
    (hv : ctx.config.features.references = true) (hdepth : 1 ≤ ctx.config.limits.nestingDepth)
    (h : ctx.Redirects target) {name : Text} (hname : name ∈ ctx.bindings) {n : Nat}
    (hbudget : ctx.config.maxIterations = n)
    (hinput : ((plainly name).raw.length : Int) ≤ ctx.config.limits.inputLength)
    (houtput : ∀ i < n, ((plainly (target^[i + 1] name)).raw.length : Int)
      ≤ ctx.config.limits.outputLength) (s : Trace) :
    (∀ j < n, target^[j + 1] name = target^[j] name →
      (∀ i < j, target^[i + 1] name ≠ target^[i] name) →
      ∃ s', ctx.interpolate (plainly name).raw s
          = (.ok { value := (plainly (target^[j] name)).raw, iterations := j + 1 }, s')
        ∧ s'.calls = s.calls ∧ s'.notices = s.notices)
    ∧ ((∀ j < n, target^[j + 1] name ≠ target^[j] name) →
      ∃ s', ctx.interpolate (plainly name).raw s
          = (.ok { value := (plainly (target^[n] name)).raw, iterations := n,
                   exhausted := true }, s')
        ∧ s'.calls = s.calls
        ∧ s'.notices = s.notices
          ++ if ctx.config.warnOnMaxIterations then #[.maxIterations] else #[]) := by
  have hvalid : ∀ k, Name.isName (target^[k] name) = true :=
    fun k => h.valid _ (h.iterate_mem hname k)
  have hpending : ∀ k, ctx.Pending (plainly (target^[k] name)).raw :=
    fun k => pending_raw_plainly hv hdepth (hvalid k)
  have hn : ctx.config.budget = n := by
    rw [Config.budget, hbudget, Int.toNat_natCast]
  have hrun : ctx.interpolate (plainly name).raw s
      = ctx.conclude (ctx.passes n (plainly name).raw 0 s) := by
    rw [← hn, ← interpolateInner_of_le hinput]
    exact interpolate_dollar _ s
  constructor
  · intro j hj hself hchanges
    obtain ⟨more, rfl⟩ : ∃ m, n = j + (m + 1) := ⟨n - (j + 1), by omega⟩
    obtain ⟨s', hcalls, hnotices, hmore⟩ := passes_along hv hdepth h j name hname hchanges
      (fun i hi => houtput i (by omega)) 0 s
    -- one pass more, which gives the reference back
    have hlookup := h.lookup (h.iterate_mem hname j)
    rw [← Function.iterate_succ_apply' target, hself] at hlookup
    have hlength := houtput j hj
    rw [hself] at hlength
    have hlast := passOver_raw_plainly hv hdepth (hvalid j) hlookup hlength s'
    refine ⟨{ s' with written := (plainly (target^[j] name)).raw.length }, ?_, hcalls, hnotices⟩
    rw [hrun, hmore, passes_of_unchanged (hpending j) hlast, Nat.zero_add, conclude]
    simp only [decodeIf_raw_plainly _ (hvalid j)]
  · intro hchanges
    obtain ⟨s', hcalls, hnotices, hmore⟩ :=
      passes_along hv hdepth h n name hname hchanges houtput 0 s
    have hspent := hmore 0
    rw [Nat.add_zero, passes_zero_of_pending (hpending n), Nat.zero_add] at hspent
    rw [hrun, hspent, conclude]
    simp only [decodeIf_raw_plainly _ (hvalid n)]
    refine ⟨_, rfl, ?_, ?_⟩
    · split
      · exact hcalls
      · exact hcalls
    · split
      · rw [← hnotices]
        exact Array.push_eq_append
      · rw [← hnotices, Array.append_empty]

/-- From `A` by `B` to `C`, which refers to itself, and from `D` to `E` and back. -/
def nextName (name : Text) : Text :=
  if name = ['A'] then ['B'] else if name = ['B'] then ['C'] else if name = ['D'] then ['E']
  else if name = ['E'] then ['D'] else name

/-- The variables `A` to `E`, each of which refers to the next one. -/
def rounds : Context where
  bindings := Assignment.ofList ([['A'], ['B'], ['C'], ['D'], ['E']].map fun name =>
    (name, { value := (plainly (nextName name)).raw }))
  environment := ∅
  config := { maxIterations := 5 }
  shell := ⟨fun t => t, fun _ _ => .ok {}⟩

theorem redirects_rounds : rounds.Redirects nextName := by
  have hkeys : ∀ name ∈ rounds.bindings.keys, Name.isName name = true
      ∧ nextName name ∈ rounds.bindings
      ∧ rounds.bindings[name]?.map Entry.value = some (plainly (nextName name)).raw := by
    decide +kernel
  have hall := fun name hname => hkeys name (Std.ExtTreeMap.mem_keys.2 hname)
  exact ⟨fun name hname => (hall name hname).1, fun name hname => (hall name hname).2.1,
    fun name hname => (hall name hname).2.2⟩

/-- With five passes, `C` is reached from `A` in two of them, and a third one changes nothing. From
`D`, all five go round, and end at `E`. -/
theorem interpolate_of_redirects_rounds :
    rounds.config.features.references = true ∧ 1 ≤ rounds.config.limits.nestingDepth
    ∧ rounds.Redirects nextName ∧ ['A'] ∈ rounds.bindings ∧ ['D'] ∈ rounds.bindings
    ∧ rounds.config.maxIterations = (5 : Nat)
    ∧ (∃ s', rounds.interpolate "${A}".toList {}
        = (.ok { value := "${C}".toList, iterations := 3 }, s') ∧ s'.calls = #[])
    ∧ ∃ s', rounds.interpolate "${D}".toList {}
        = (.ok { value := "${E}".toList, iterations := 5, exhausted := true }, s')
      ∧ s'.calls = #[] := by
  have hA : ['A'] ∈ rounds.bindings := by decide +kernel
  have hD : ['D'] ∈ rounds.bindings := by decide +kernel
  refine ⟨rfl, by decide, redirects_rounds, hA, hD, rfl, ?_, ?_⟩
  · obtain ⟨s', hrun, hcalls, -⟩ := (interpolate_of_redirects rfl (by decide) redirects_rounds hA
      rfl (by decide) (by decide) {}).1 2 (by decide) (by decide) (by decide)
    exact ⟨s', hrun, hcalls⟩
  · obtain ⟨s', hrun, hcalls, -⟩ := (interpolate_of_redirects rfl (by decide) redirects_rounds hD
      rfl (by decide) (by decide) {}).2 (by decide)
    exact ⟨s', hrun, hcalls⟩

end Context
end EnvValues
