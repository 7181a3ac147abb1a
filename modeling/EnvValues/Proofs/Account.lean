import EnvValues.Expansion

/-!
# What happens in an expansion

A trace keeps notices apart from calls, so it does not tell which of them came first. An
**account** does: it is the list of what happens in a step, in order. The account of nodes
follows the nodes the way their expansion does, and takes from the expansion what it needs
to know about its results (`account`, `accountAll`).

`Steps` is how everything else is proved about expansions, alone or two of them side by
side: what holds of the steps that expansions are made of, and of two steps in a row, holds
of the expansion of every node (`Steps.expand`, `Steps.expandAll`).

* An account is true: what it tells is what the trace grows by (`tells_expandAll`).
* An expansion halts for a reason (`haltsFor_of_expandAll`).
-/

namespace EnvValues

/-- Something that happens while a value is expanded. -/
inductive Event
  /-- A text is read, to see what there is to resolve. -/
  | read (t : Text)
  /-- A pass is completed. -/
  | passed
  | notice (n : Notice)
  | call (c : Call)

namespace Event

@[simp] def read? : Event → Option Text
  | read t => some t
  | _ => none

@[simp] def isPassed : Event → Bool
  | passed => true
  | _ => false

@[simp] def notice? : Event → Option Notice
  | notice n => some n
  | _ => none

@[simp] def call? : Event → Option Call
  | call c => some c
  | _ => none

/-- The texts that are read, in order. -/
def reads (es : List Event) : List Text := es.filterMap read?

/-- The number of passes that are completed. -/
def completed (es : List Event) : Nat := es.countP isPassed

/-- The notices that are raised, in order. -/
def notices (es : List Event) : List Notice := es.filterMap notice?

/-- The calls that are made, in order. -/
def calls (es : List Event) : List Call := es.filterMap call?

section
variable (e : Event) (es fs : List Event)

@[simp] theorem reads_nil : reads [] = [] := rfl

@[simp] theorem completed_nil : completed [] = 0 := rfl

@[simp] theorem notices_nil : notices [] = [] := rfl

@[simp] theorem calls_nil : calls [] = [] := rfl

@[simp] theorem reads_cons : reads (e :: es) = e.read?.toList ++ reads es := by
  cases e <;> rfl

@[simp] theorem completed_cons : completed (e :: es) = completed es + e.isPassed.toNat := by
  rw [completed, completed, List.countP_cons]
  cases e <;> rfl

@[simp] theorem notices_cons : notices (e :: es) = e.notice?.toList ++ notices es := by
  cases e <;> rfl

@[simp] theorem calls_cons : calls (e :: es) = e.call?.toList ++ calls es := by
  cases e <;> rfl

@[simp] theorem reads_append : reads (es ++ fs) = reads es ++ reads fs := List.filterMap_append

@[simp] theorem completed_append : completed (es ++ fs) = completed es + completed fs :=
  List.countP_append

@[simp] theorem notices_append : notices (es ++ fs) = notices es ++ notices fs :=
  List.filterMap_append

@[simp] theorem calls_append : calls (es ++ fs) = calls es ++ calls fs := List.filterMap_append

@[simp] theorem notices_map (ns : List Notice) : notices (ns.map notice) = ns := by
  induction ns with
  | nil => rfl
  | cons n ns ih => simp [ih]

@[simp] theorem calls_map (ns : List Notice) : calls (ns.map notice) = [] := by
  induction ns with
  | nil => rfl
  | cons n ns ih => simp [ih]

end

/-- Within a pass, no text is read and no pass is completed. -/
def Within (es : List Event) : Prop := reads es = [] ∧ completed es = 0

theorem Within.append {es fs : List Event} (h : Within es) (h' : Within fs) :
    Within (es ++ fs) := by
  simp [Within, h.1, h.2, h'.1, h'.2]

theorem within_map (ns : List Notice) : Within (ns.map notice) := by
  induction ns with
  | nil => exact ⟨rfl, rfl⟩
  | cons n ns ih => simpa [Within] using ih

/-- So it is in the first part of what happens. -/
theorem Within.of_append {es fs : List Event} (h : Within (es ++ fs)) : Within es := by
  simp only [Within, reads_append, completed_append, List.append_eq_nil_iff] at h
  exact ⟨h.1.1, by omega⟩

end Event

/-- From one trace to another, these events happen. -/
structure Trace.Extends (s : Trace) (es : List Event) (s' : Trace) : Prop where
  notices : s'.notices = s.notices ++ (Event.notices es).toArray
  calls : s'.calls = s.calls ++ (Event.calls es).toArray

theorem Trace.Extends.of_eq {s s' : Trace} (hn : s'.notices = s.notices)
    (hc : s'.calls = s.calls) : s.Extends [] s' :=
  ⟨by simp [hn], by simp [hc]⟩

/-- A trace stays where it is when something happens that leaves none. -/
theorem Trace.Extends.silent (s : Trace) {es : List Event} (hn : Event.notices es = [])
    (hc : Event.calls es = []) : s.Extends es s :=
  ⟨by simp [hn], by simp [hc]⟩

theorem Trace.Extends.append {s s' s'' : Trace} {es fs : List Event} (h : s.Extends es s')
    (h' : s'.Extends fs s'') : s.Extends (es ++ fs) s'' := by
  constructor
  · simp [h'.notices, h.notices]
  · simp [h'.calls, h.calls]

/-- What happens in a step, from a trace on. -/
abbrev Account := Trace → List Event

namespace Account

/-- Nothing happens. -/
def nothing : Account := fun _ => []

/-- What happens in one step and then in another, if the first one does not halt. -/
def bind {α : Type} (x : Expansion α) (first : Account) (second : α → Account) : Account :=
  fun s => first s ++ match x.after s with
    | (.ok a, s') => second a s'
    | (.error _, _) => []

variable {α : Type} {x : Expansion α} {first : Account} {second : α → Account} {s s' : Trace}

theorem bind_of_ok {a : α} (h : x.after s = (.ok a, s')) :
    bind x first second s = first s ++ second a s' := by
  rw [bind, h]

theorem bind_of_error {e : Halt} (h : x.after s = (.error e, s')) :
    bind x first second s = first s := by
  rw [bind, h, List.append_nil]

/-- A step in which nothing happens adds nothing. -/
theorem bind_nothing (x : Expansion α) (first : Account) :
    bind x first (fun _ => nothing) = first := by
  funext s
  cases h : x.after s with
  | mk r s' =>
      cases r with
      | error e => exact bind_of_error h
      | ok a => rw [bind_of_ok h, nothing, List.append_nil]

end Account

namespace Expansion
variable {α β : Type} {x : Expansion α} {f : α → Expansion β} {s s' : Trace}

/-- Two steps that do the same to every trace are the same. -/
theorem ext_after {x y : Expansion α} (h : ∀ s, x.after s = y.after s) : x = y := funext h

theorem after_bind_of_ok {a : α} (h : x.after s = (.ok a, s')) :
    (x >>= f).after s = (f a).after s' := by
  rw [after_bind, h]

theorem after_bind_of_error {e : Halt} (h : x.after s = (.error e, s')) :
    (x >>= f).after s = (.error e, s') := by
  rw [after_bind, h]

/-- Two steps in a row do not halt if neither of them does. -/
theorem after_bind_eq_ok {b : β} : (x >>= f).after s = (.ok b, s') ↔
    ∃ a s₁, x.after s = (.ok a, s₁) ∧ (f a).after s₁ = (.ok b, s') := by
  constructor
  · intro h
    cases hr : x.after s with
    | mk r s₁ =>
        cases r with
        | error e =>
            rw [after_bind_of_error hr] at h
            exact nomatch h
        | ok a =>
            rw [after_bind_of_ok hr] at h
            exact ⟨a, s₁, rfl, h⟩
  · rintro ⟨a, s₁, ha, hb⟩
    rw [after_bind_of_ok ha, hb]

end Expansion

namespace Context

/-! ## Accounts of nodes -/

/-- Raise a notice that a variable is unset, if that is worth one. -/
def warn (ctx : Context) (name : Text) : Expansion Unit :=
  if ctx.config.warnOnUndefined then Expansion.notify (.undefinedVariable name) else pure ()

theorem expandRef_of_some {ctx : Context} {name v : Text} (h : ctx.lookup name = some v) :
    ctx.expandRef name = ctx.emit v := by
  rw [expandRef, h]

/-- An unset variable may raise a notice, and then gives nothing. -/
theorem expandRef_of_none {ctx : Context} {name : Text} (h : ctx.lookup name = none) :
    ctx.expandRef name = ctx.warn name >>= fun _ => ctx.emit [] := by
  rw [expandRef, h, warn]
  dsimp only
  cases ctx.config.warnOnUndefined <;> rfl

/-- Nodes in a row are expanded in a row, and their texts joined. -/
theorem expandAll_cons (ctx : Context) (p : Place) (n : Node) (ns : List Node) :
    ctx.expandAll p (n :: ns)
      = ctx.expand p n >>= fun t => ctx.expandAll p ns >>= fun u => pure (t ++ u) := by
  refine Expansion.ext_after fun s => ?_
  rw [after_expandAll_cons, Expansion.after_bind]
  generalize (ctx.expand p n).after s = r
  obtain ⟨h | t, s'⟩ := r
  · rfl
  · dsimp only
    rw [Expansion.after_bind]
    generalize (ctx.expandAll p ns).after s' = r
    obtain ⟨h | u, s''⟩ := r <;> rfl

section
variable (ctx : Context)

/-- What happens where a command fails. -/
def failAccount (e : CommandError) : Account := fun _ =>
  if ctx.config.failOnCommandError then [] else [.notice (.commandFailed e)]

/-- What happens where the shell is called. -/
def callAccount (line : Text) : Account := fun _ => [.call ⟨line, ctx.commandEnvironment⟩]

/-- What happens where a command line is run. -/
def lineAccount (line : Text) : Account :=
  if Text.isBlank line then ctx.failAccount (.blank line)
  else .bind (ctx.call line) (ctx.callAccount line) fun o =>
    if o.exitCode = 0 then .nothing
    else ctx.failAccount { line := line, exitCode := o.exitCode, stderr := o.stderr }

/-- What happens where an unset variable is met. -/
def warnAccount (name : Text) : Account := fun _ =>
  if ctx.config.warnOnUndefined then [.notice (.undefinedVariable name)] else []

/-- What happens where a variable is referred to without an operator. -/
def refAccount (name : Text) : Account :=
  match ctx.lookup name with
  | some _ => .nothing
  | none => ctx.warnAccount name

/-- What happens where an operator picks between a variable and a fallback. -/
def choiceAccount (name : Text) (op : Operator) (fallback : Account) : Account :=
  if ctx.honours op && op.takesFallback (ctx.lookup name) then fallback else .nothing

mutual

/-- What happens where a node is expanded. -/
def account (ctx : Context) : Node → Account
  | .lit _ => .nothing
  | .ref name _ none _ => ctx.refAccount name
  | .ref _ _ (some _) none => .nothing
  | .ref name _ (some op) (some f) => ctx.choiceAccount name op (accountAll ctx .value f)
  | .command line _ => .bind (ctx.expandAll .line line) (accountAll ctx .line line) ctx.lineAccount
  | .group ns => accountAll ctx .value ns
  | .nothing => .nothing

/-- What happens where nodes are expanded in order. -/
def accountAll (ctx : Context) (p : Place) : List Node → Account
  | [] => .nothing
  | n :: ns => .bind (ctx.expand p n) (account ctx n) fun _ => accountAll ctx p ns

end

end

/-! ## The steps of an expansion -/

/-- Two contexts that read the same, and a relation of their steps, with what happens in the
first of the two. The relation holds of what expansions are made of. -/
structure Steps (ctx ctx' : Context)
    (R : ∀ {α : Type}, Expansion α → Account → Expansion α → Prop) : Prop where
  lookup : ∀ name, ctx'.lookup name = ctx.lookup name
  honours : ∀ op, ctx'.honours op = ctx.honours op
  placed : ∀ p t, ctx'.placed p t = ctx.placed p t
  pure : ∀ {α : Type} (a : α), R (pure a : Expansion α) .nothing (pure a)
  bind : ∀ {α β : Type} {x y : Expansion α} {es : Account} {f g : α → Expansion β}
    {fs : α → Account}, R x es y → (∀ a, R (f a) (fs a) (g a)) →
    R (x >>= f) (.bind x es fs) (y >>= g)
  emit : ∀ t, R (ctx.emit t) .nothing (ctx'.emit t)
  warn : ∀ name, R (ctx.warn name) (ctx.warnAccount name) (ctx'.warn name)
  line : ∀ line, R (ctx.runLine line) (ctx.lineAccount line) (ctx'.runLine line)

namespace Steps
variable {ctx ctx' : Context} {R : ∀ {α : Type}, Expansion α → Account → Expansion α → Prop}

/-- What comes behind a step and does nothing does not count. -/
theorem bind_pure (h : Steps ctx ctx' R) {α β : Type} {x y : Expansion α} {es : Account}
    (hx : R x es y) (f : α → β) :
    R (do let a ← x; Pure.pure (f a)) es (do let a ← y; Pure.pure (f a)) := by
  have hb := h.bind hx fun a => h.pure (f a)
  rwa [Account.bind_nothing] at hb

theorem expandRef (h : Steps ctx ctx' R) (name : Text) :
    R (ctx.expandRef name) (ctx.refAccount name) (ctx'.expandRef name) := by
  have hl' := h.lookup name
  unfold refAccount
  cases hl : ctx.lookup name with
  | some v =>
      rw [expandRef_of_some hl, expandRef_of_some (hl'.trans hl)]
      exact h.emit v
  | none =>
      rw [expandRef_of_none hl, expandRef_of_none (hl'.trans hl)]
      have hb := h.bind (h.warn name) fun _ => h.emit []
      rwa [Account.bind_nothing] at hb

theorem expandChoice (h : Steps ctx ctx' R) (name : Text) (op : Operator) {x y : Expansion Text}
    {es : Account} (hx : R x es y) :
    R (ctx.expandChoice name op x) (ctx.choiceAccount name op es)
      (ctx'.expandChoice name op y) := by
  simp only [Context.expandChoice, choiceAccount, h.lookup, h.honours]
  cases ctx.honours op with
  | false => exact h.emit _
  | true =>
      simp only [Bool.not_true, Bool.false_eq_true, if_false, Bool.true_and]
      cases op.takesFallback (ctx.lookup name) with
      | true => simpa only [if_true] using hx
      | false =>
          simp only [Bool.false_eq_true, if_false]
          cases op.form with
          | otherwise => exact h.emit _
          | instead => exact h.pure []

mutual

/-- **What holds of steps holds of the expansion of a node.** -/
theorem expand (h : Steps ctx ctx' R) (p : Place) :
    ∀ n : Node, R (ctx.expand p n) (ctx.account n) (ctx'.expand p n)
  | .lit t => by
      cases p with
      | value => rw [Context.expand, Context.expand, account]; exact h.emit t
      | line => rw [Context.expand, Context.expand, account]; exact h.pure t
  | .ref name raw none fallback => by
      rw [Context.expand, Context.expand, account]
      simp only [h.placed]
      exact h.bind_pure (h.expandRef name) _
  | .ref name raw (some op) none => by
      rw [Context.expand, Context.expand, account]
      simp only [h.placed]
      have hc := h.expandChoice name op (h.pure [])
      unfold choiceAccount at hc
      rw [ite_self] at hc
      exact h.bind_pure hc _
  | .ref name raw (some op) (some f) => by
      rw [Context.expand, Context.expand, account]
      simp only [h.placed]
      exact h.bind_pure (h.expandChoice name op (expandAll h .value f)) _
  | .command line raw => by
      rw [Context.expand, Context.expand, account]
      exact h.bind (expandAll h .line line) h.line
  | .group ns => by
      rw [Context.expand, Context.expand, account]
      exact expandAll h .value ns
  | .nothing => by
      rw [Context.expand, Context.expand, account]
      exact h.pure []

/-- **What holds of steps holds of the expansion of nodes in order.** -/
theorem expandAll (h : Steps ctx ctx' R) (p : Place) :
    ∀ ns : List Node, R (ctx.expandAll p ns) (ctx.accountAll p ns) (ctx'.expandAll p ns)
  | [] => by
      rw [accountAll]
      exact h.pure []
  | n :: ns => by
      rw [Context.expandAll_cons, Context.expandAll_cons, accountAll]
      refine h.bind (expand h p n) fun t => ?_
      exact h.bind_pure (expandAll h p ns) _

end

/-- A command line is run by failing, calling and emitting. -/
theorem runLine
    (bind : ∀ {α β : Type} {x y : Expansion α} {es : Account} {f g : α → Expansion β}
      {fs : α → Account}, R x es y → (∀ a, R (f a) (fs a) (g a)) →
      R (x >>= f) (.bind x es fs) (y >>= g))
    (emit : ∀ t, R (ctx.emit t) .nothing (ctx'.emit t))
    (fail : ∀ e, R (ctx.failCommand e) (ctx.failAccount e) (ctx'.failCommand e))
    (call : ∀ line, R (ctx.call line) (ctx.callAccount line) (ctx'.call line)) (line : Text) :
    R (ctx.runLine line) (ctx.lineAccount line) (ctx'.runLine line) := by
  unfold Context.runLine lineAccount
  cases Text.isBlank line with
  | true => exact fail _
  | false =>
      simp only [Bool.false_eq_true, if_false]
      refine bind (call line) fun o => ?_
      by_cases ho : o.exitCode = 0
      · simp only [if_pos ho]
        exact emit _
      · simp only [if_neg ho]
        exact fail _

/-- A property of single steps, held against itself. -/
theorem ofOne {P : ∀ {α : Type}, Expansion α → Account → Prop}
    (pure : ∀ {α : Type} (a : α), P (Pure.pure a : Expansion α) .nothing)
    (bind : ∀ {α β : Type} {x : Expansion α} {es : Account} {f : α → Expansion β}
      {fs : α → Account}, P x es → (∀ a, P (f a) (fs a)) → P (x >>= f) (.bind x es fs))
    (emit : ∀ t, P (ctx.emit t) .nothing)
    (warn : ∀ name, P (ctx.warn name) (ctx.warnAccount name))
    (fail : ∀ e, P (ctx.failCommand e) (ctx.failAccount e))
    (call : ∀ line, P (ctx.call line) (ctx.callAccount line)) :
    Steps ctx ctx fun x es _ => P x es where
  lookup _ := rfl
  honours _ := rfl
  placed _ _ := rfl
  pure := pure
  bind := bind
  emit := emit
  warn := warn
  line := @runLine ctx ctx (fun x es _ => P x es) bind emit fail call

end Steps

/-! ## The account is true -/

/-- Everything that a step adds to a trace is told, and the step is one within a pass. -/
structure Tells {α : Type} (x : Expansion α) (es : Account) : Prop where
  extends_after : ∀ s : Trace, s.Extends (es s) (x.after s).2
  within : ∀ s : Trace, Event.Within (es s)

theorem Tells.bind {α β : Type} {x : Expansion α} {es : Account} {f : α → Expansion β}
    {fs : α → Account} (hx : Tells x es) (hf : ∀ a, Tells (f a) (fs a)) :
    Tells (x >>= f) (.bind x es fs) := by
  constructor
  · intro s
    have h := hx.extends_after s
    cases hr : x.after s with
    | mk r s' =>
        rw [hr] at h
        cases r with
        | error e =>
            rw [Account.bind_of_error hr, Expansion.after_bind_of_error hr]
            exact h
        | ok a =>
            rw [Account.bind_of_ok hr, Expansion.after_bind_of_ok hr]
            exact h.append ((hf a).extends_after s')
  · intro s
    cases hr : x.after s with
    | mk r s' =>
        cases r with
        | error e =>
            rw [Account.bind_of_error hr]
            exact hx.within s
        | ok a =>
            rw [Account.bind_of_ok hr]
            exact (hx.within s).append ((hf a).within s')

theorem tells_emit (ctx : Context) (t : Text) : Tells (ctx.emit t) .nothing := by
  refine ⟨fun s => ?_, fun s => ⟨rfl, rfl⟩⟩
  rw [emit, Expansion.after_ofTrace]
  dsimp only
  split
  · exact .of_eq rfl rfl
  · exact .of_eq rfl rfl

theorem tells_warn (ctx : Context) (name : Text) :
    Tells (ctx.warn name) (ctx.warnAccount name) := by
  unfold warn warnAccount
  cases ctx.config.warnOnUndefined with
  | false => exact ⟨fun s => .of_eq rfl rfl, fun s => ⟨rfl, rfl⟩⟩
  | true => exact ⟨fun s => ⟨Array.push_eq_append, rfl⟩, fun s => ⟨rfl, rfl⟩⟩

theorem tells_failCommand (ctx : Context) (e : CommandError) :
    Tells (ctx.failCommand e) (ctx.failAccount e) := by
  unfold failCommand failAccount
  cases ctx.config.failOnCommandError with
  | true => exact ⟨fun s => .of_eq rfl rfl, fun s => ⟨rfl, rfl⟩⟩
  | false => exact ⟨fun s => ⟨Array.push_eq_append, rfl⟩, fun s => ⟨rfl, rfl⟩⟩

theorem tells_call (ctx : Context) (line : Text) :
    Tells (ctx.call line) (ctx.callAccount line) := by
  refine ⟨fun s => ?_, fun s => ⟨rfl, rfl⟩⟩
  rw [call, Expansion.after_ofTrace]
  dsimp only
  split <;> exact ⟨by simp [callAccount], by simp [callAccount]⟩

theorem steps_tells (ctx : Context) : Steps ctx ctx fun x es _ => Tells x es :=
  .ofOne (fun _ => ⟨fun _ => .of_eq rfl rfl, fun _ => ⟨rfl, rfl⟩⟩) Tells.bind (tells_emit ctx)
    (tells_warn ctx) (tells_failCommand ctx) (tells_call ctx)

/-- **What an expansion adds to a trace is what its account tells.** -/
theorem tells_expandAll (ctx : Context) (p : Place) (ns : List Node) :
    Tells (ctx.expandAll p ns) (ctx.accountAll p ns) :=
  (steps_tells ctx).expandAll p ns

/-! ## Why an expansion halts -/

/-- Is this a reason to halt, in a context? -/
def HaltsFor (ctx : Context) : Halt → Prop
  | .commandFailed _ => ctx.config.failOnCommandError = true
  | .outputTooLong limit => limit = ctx.config.limits.outputLength
  | .refused r => ∃ before call, ctx.shell.answer before call = .error r

/-- A shell that refuses nothing is no reason to halt. -/
theorem not_haltsFor_refused {ctx : Context} (hshell : ctx.shell.Willing) (r : Refusal) :
    ¬ ctx.HaltsFor (.refused r) := by
  rintro ⟨before, call, hr⟩
  obtain ⟨o, ho⟩ := hshell before call
  rw [hr] at ho
  exact nomatch ho

/-- A step halts with nothing else than this. -/
def HaltsOnly (P : Halt → Prop) {α : Type} (x : Expansion α) : Prop :=
  ∀ s h s', x.after s = (.error h, s') → P h

theorem HaltsOnly.bind {P : Halt → Prop} {α β : Type} {x : Expansion α} {f : α → Expansion β}
    (hx : HaltsOnly P x) (hf : ∀ a, HaltsOnly P (f a)) : HaltsOnly P (x >>= f) := by
  intro s h s' he
  cases hr : x.after s with
  | mk r s₁ =>
      cases r with
      | error e =>
          rw [Expansion.after_bind_of_error hr] at he
          cases he
          exact hx s _ _ hr
      | ok a =>
          rw [Expansion.after_bind_of_ok hr] at he
          exact hf a s₁ h s' he

/-- A step halts for a reason. -/
def HasReason (ctx : Context) {α : Type} (x : Expansion α) : Prop :=
  ∀ s h s', x.after s = (.error h, s') → ctx.HaltsFor h

theorem HasReason.bind {ctx : Context} {α β : Type} {x : Expansion α} {f : α → Expansion β}
    (hx : ctx.HasReason x) (hf : ∀ a, ctx.HasReason (f a)) : ctx.HasReason (x >>= f) :=
  HaltsOnly.bind hx hf

theorem hasReason_emit (ctx : Context) (t : Text) : ctx.HasReason (ctx.emit t) := by
  intro s h s' he
  rw [emit, Expansion.after_ofTrace] at he
  dsimp only at he
  split at he
  · cases he; rfl
  · exact nomatch he

theorem hasReason_warn (ctx : Context) (name : Text) : ctx.HasReason (ctx.warn name) := by
  intro s h s' he
  unfold warn at he
  split at he <;> exact nomatch he

theorem hasReason_failCommand (ctx : Context) (e : CommandError) :
    ctx.HasReason (ctx.failCommand e) := by
  intro s h s' he
  unfold failCommand at he
  split at he
  · next hf => cases he; exact hf
  · exact nomatch he

theorem hasReason_call (ctx : Context) (line : Text) : ctx.HasReason (ctx.call line) := by
  intro s h s' he
  rw [call, Expansion.after_ofTrace] at he
  dsimp only at he
  split at he
  · exact nomatch he
  · next hr => cases he; exact ⟨_, _, hr⟩

theorem steps_hasReason (ctx : Context) : Steps ctx ctx fun x _ _ => ctx.HasReason x :=
  .ofOne (fun _ _ _ _ he => nomatch he) HasReason.bind (hasReason_emit ctx) (hasReason_warn ctx)
    (hasReason_failCommand ctx) (hasReason_call ctx)

/-- **Expansions halt for a reason.** -/
theorem haltsFor_of_expandAll {ctx : Context} {p : Place} {ns : List Node} {h : Halt}
    {s s' : Trace} (ha : (ctx.expandAll p ns).after s = (.error h, s')) : ctx.HaltsFor h :=
  (steps_hasReason ctx).expandAll p ns s h s' ha

end Context
end EnvValues
