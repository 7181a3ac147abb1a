import EnvValues.Context

/-!
# Expanding nodes

Each node gives a text. Text that goes into the value is counted when it is produced,
and **a pass that has produced more than the limit halts there**. The text of a
command line is not part of the value: its literals are not counted, and a value that
a reference puts into it is written as one word, whatever it holds.

An operator picks between the value of a variable and a fallback; the one it does not
pick is not looked at. A command that fails either halts the expansion or counts as
empty.
-/

namespace EnvValues

/-- Where nodes stand. -/
inductive Place
  /-- In a value. -/
  | value
  /-- In a command line. -/
  | line
  deriving DecidableEq, Repr

namespace Context

/-- Produce text. -/
def emit (ctx : Context) (t : Text) : Expansion Text :=
  .ofTrace fun s =>
    let s' := { s with written := s.written + t.length }
    if ctx.config.limits.forbidsOutput s'.written then
      (.error (.outputTooLong ctx.config.limits.outputLength), s')
    else (.ok t, s')

/-- Give up on a command. -/
def failCommand (ctx : Context) (e : CommandError) : Expansion Text :=
  if ctx.config.failOnCommandError then throw (.commandFailed e)
  else do
    Expansion.notify (.commandFailed e)
    pure []

/-- Call the shell. The call is made even if the shell refuses it. -/
def call (ctx : Context) (line : Text) : Expansion Output :=
  .ofTrace fun s =>
    let call : Call := ⟨line, ctx.commandEnvironment⟩
    let s' := { s with calls := s.calls.push call }
    match ctx.shell.answer s.calls call with
    | .ok o => (.ok o, s')
    | .error r => (.error (.refused r), s')

/-- Run a command line and give the text it is replaced by. A line of blanks is no
command, and fails without being run. -/
def runLine (ctx : Context) (line : Text) : Expansion Text :=
  if Text.isBlank line then ctx.failCommand (.blank line)
  else do
    let o ← ctx.call line
    if o.exitCode = 0 then ctx.emit o.substituted
    else ctx.failCommand { line := line, exitCode := o.exitCode, stderr := o.stderr }

/-- Produce the value of a variable. One that is unset gives nothing. -/
def expandRef (ctx : Context) (name : Text) : Expansion Text :=
  match ctx.lookup name with
  | some v => ctx.emit v
  | none => do
    if ctx.config.warnOnUndefined then Expansion.notify (.undefinedVariable name)
    ctx.emit []

/-- Produce what an operator puts in place of a variable, given how to produce the
fallback. An operator that is not honoured leaves the value, and `+` and `:+` never
produce the value itself. -/
def expandChoice (ctx : Context) (name : Text) (op : Operator) (fallback : Expansion Text) :
    Expansion Text :=
  let value := ctx.lookup name
  if !ctx.honours op then ctx.emit (value.getD [])
  else if op.takesFallback value then fallback
  else match op.form with
    | .otherwise => ctx.emit (value.getD [])
    | .instead => pure []

/-- A value as it stands in a place: as it is, or as one word. -/
def placed (ctx : Context) : Place → Text → Text
  | .value, t => t
  | .line, t => if ctx.config.disableSecurity then t else ctx.shell.quote t

mutual

/-- Expand one node. -/
def expand (ctx : Context) (p : Place) : Node → Expansion Text
  | .lit t =>
    match p with
    | .value => ctx.emit t
    | .line => pure t
  | .ref name _ none _ => do
    let v ← ctx.expandRef name
    pure (ctx.placed p v)
  | .ref name _ (some op) none => do
    let v ← ctx.expandChoice name op (pure [])
    pure (ctx.placed p v)
  | .ref name _ (some op) (some fallback) => do
    let v ← ctx.expandChoice name op (expandOnto ctx .value [] fallback)
    pure (ctx.placed p v)
  | .command line _ => do
    let l ← expandOnto ctx .line [] line
    ctx.runLine l
  | .group nodes => expandOnto ctx .value [] nodes
  | .nothing => pure []

/-- Expand nodes in order, behind the texts of those before (kept last to first). -/
def expandOnto (ctx : Context) (p : Place) (done : List Text) : List Node → Expansion Text
  | [] => pure done.reverse.flatten
  | n :: ns => do
    let t ← expand ctx p n
    expandOnto ctx p (t :: done) ns

end

/-- Expand nodes in order and join their texts. -/
def expandAll (ctx : Context) (p : Place) (ns : List Node) : Expansion Text :=
  ctx.expandOnto p [] ns

/-- What nodes give stands behind the texts of those before. -/
theorem after_expandOnto (ctx : Context) (p : Place) (done : List Text) (ns : List Node)
    (s : Trace) :
    (ctx.expandOnto p done ns).after s = match (ctx.expandAll p ns).after s with
      | (.ok t, s') => (.ok (done.reverse.flatten ++ t), s')
      | (.error h, s') => (.error h, s') := by
  have key : ∀ (ns : List Node) (done e : List Text) (s : Trace),
      (ctx.expandOnto p (done ++ e) ns).after s = match (ctx.expandOnto p done ns).after s with
        | (.ok t, s') => (.ok (e.reverse.flatten ++ t), s')
        | (.error h, s') => (.error h, s') := by
    intro ns
    induction ns with
    | nil => intro done e s; simp [expandOnto]
    | cons n ns ih =>
      intro done e s
      rw [expandOnto, expandOnto, Expansion.after_bind, Expansion.after_bind]
      generalize (ctx.expand p n).after s = r
      obtain ⟨h | t, s'⟩ := r
      · rfl
      · exact ih (t :: done) e s'
  exact key ns [] done s

@[simp] theorem after_expandAll_nil (ctx : Context) (p : Place) (s : Trace) :
    (ctx.expandAll p []).after s = (.ok [], s) := by
  simp [expandAll, expandOnto]

/-- **Nodes are expanded one after the other, and a halt is the end.** -/
theorem after_expandAll_cons (ctx : Context) (p : Place) (n : Node) (ns : List Node) (s : Trace) :
    (ctx.expandAll p (n :: ns)).after s = match (ctx.expand p n).after s with
      | (.error h, s') => (.error h, s')
      | (.ok t, s') => match (ctx.expandAll p ns).after s' with
        | (.error h, s'') => (.error h, s'')
        | (.ok u, s'') => (.ok (t ++ u), s'') := by
  rw [expandAll, expandOnto, Expansion.after_bind]
  generalize (ctx.expand p n).after s = r
  obtain ⟨h | t, s'⟩ := r
  · rfl
  · dsimp only
    rw [after_expandOnto]
    generalize (ctx.expandAll p ns).after s' = r
    obtain ⟨h | u, s''⟩ := r
    · rfl
    · simp

/-- The command line that nodes stand for. -/
def commandLine (ctx : Context) (ns : List Node) : Expansion Text := ctx.expandAll .line ns

end Context
end EnvValues
