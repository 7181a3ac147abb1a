import EnvValues.Shell.Posix.Builtin.Basic
import EnvValues.Shell.Posix.Lookup

/-!
# Commands about names

`type`, `command -v`, `hash`, `alias` and `unalias`.
-/

namespace EnvValues
namespace Posix
namespace Run

/-- Print an alias as it was made. -/
def printAlias (name text : Text) : Run Unit := printLine (name ++ '=' :: quotedText text)

/-- Print what a name stands for, in words or briefly. -/
def describe (inWords : Bool) (path : Option Text) (name : Text) : Run Nat := do
  let tell (words brief : Text) : Run Nat := do
    printLine (if inWords then name ++ words else brief)
    pure 0
  let p ← process
  if (Keyword.ofText? name).isSome then tell " is a shell keyword".toList name
  else
    match p.aliases.lookup name with
    | some text =>
      tell (" is an alias for ".toList ++ text) ("alias ".toList ++ name ++ '=' :: quotedText text)
    | none =>
      let tracked := path.isNone && (p.remembered.lookup name).isSome
      let m ← get
      match ← executable true path name with
      | .function _ => tell " is a shell function".toList name
      | .builtin =>
        let kind := if isListed specialBuiltins name then " is a special shell builtin"
          else " is a shell builtin"
        tell kind.toList name
      | .program q =>
        let there := !name.contains '/' ||
          (m.system.files.find p.directory name true).toOption.isSome
        update fun p' => { p' with remembered := p.remembered }
        if there then
          let is := if tracked then " is a tracked alias for " else " is "
          tell (is.toList ++ q) q
        else missing
      | .none_ _ => missing
where
  /-- There is no such command. -/
  missing : Run Nat := do
    if inWords then printLine (name ++ ": not found".toList)
    pure 127

/-- Say what names stand for. -/
def type_ (args : List Text) : Run Nat := do
  let mut status := 0
  for a in args do
    let s ← describe true none a
    if s ≠ 0 then status := s
  pure status

/-- Say what the first name stands for, if that is asked for. -/
def describeCommand (args : List Text) : Run Nat := do
  let (fs, args) ← takeFlags "pvV" args
  let path := if fs.any fun f => f.1 = 'p' then some standardPath else none
  let inWords := fs.any fun f => f.1 = 'V'
  match args with
  | a :: _ =>
    let asked := inWords || fs.any fun f => f.1 = 'v'
    if asked then describe inWords path a else pure 0
  | [] => pure 0

/-- The place of a program among those that are remembered. -/
def rememberedBin (name : Text) : Nat :=
  let first := (name.head?.map Char.toNat).getD 0
  (((first <<< 4) + (name.foldl (fun n c => n + c.toNat) 0)) &&& 0x7fff) % 31

/-- Remember programs, forget them, or list them. -/
def hash_ (args : List Text) : Run Nat := do
  let (fs, args) ← takeFlags "r" args
  if !fs.isEmpty then
    update fun p => { p with remembered := [] }
    pure 0
  else if args.isEmpty then
    let l := (← process).remembered.mergeSort fun a b => rememberedBin a.1 ≤ rememberedBin b.1
    l.forM fun e => printLine e.2
    pure 0
  else
    let mut status := 0
    for a in args do
      update fun p => { p with remembered := p.remembered.filter (fun e => e.1 ≠ a) }
      match ← executable true none a with
      | .none_ denied =>
        complainMissing a denied
        status := 1
      | _ => pure ()
    pure status

/-- Make aliases, or print them. -/
def alias_ (args : List Text) : Run Nat := do
  if args.isEmpty then
    let l := (← process).aliases.mergeSort fun a b => bin a.1 ≤ bin b.1
    l.forM fun a => printAlias a.1 a.2
    pure 0
  else
    let mut status := 0
    for a in args do
      -- an alias may begin with an equals sign
      let name := a.take 1 ++ (a.drop 1).takeWhile (· ≠ '=')
      if name.length < a.length then
        let text := a.drop (name.length + 1)
        update fun p =>
          if (p.aliases.lookup name).isSome then
            let changed := p.aliases.map fun e => if e.1 = name then (name, text) else e
            { p with aliases := changed }
          else { p with aliases := p.aliases ++ [(name, text)] }
      else
        match (← process).aliases.lookup a with
        | some text => printAlias a text
        | none =>
          writeError ("alias: ".toList ++ a ++ " not found\n".toList)
          status := 1
    pure status

/-- Take away aliases. -/
def unalias (args : List Text) : Run Nat := do
  let (fs, args) ← takeFlags "a" args
  if !fs.isEmpty then
    update fun p => { p with aliases := [] }
    pure 0
  else
    let mut status := 0
    for a in args do
      if ((← process).aliases.lookup a).isSome then
        update fun p => { p with aliases := p.aliases.filter (fun e => e.1 ≠ a) }
      else
        writeError ("unalias: ".toList ++ a ++ " not found\n".toList)
        status := 1
    pure status

end Run
end Posix
end EnvValues
