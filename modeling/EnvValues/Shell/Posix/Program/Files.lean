import EnvValues.Shell.Posix.Program.Basic

/-!
# Programs about files

Programs that make files and directories, take them away, and list them: `mkdir`, `rmdir`,
`rm`, `touch`, `chmod` and `ls`.
-/

namespace EnvValues
namespace Posix
namespace Program

/-- Go through paths, and complain about those for which something cannot be done. -/
def each (name : Text) (what : Text → Text) (paths : List Text)
    (act : Text → Run (Option SystemError)) : Run Nat := do
  let mut status := 0
  for p in paths do
    match ← act p with
    | none => pure ()
    | some e =>
      complain name (what p ++ ": ".toList ++ e.message.toList)
      status := 1
  pure status

/-- Where a path leads, and what is there. -/
def look (path : Text) : Run (Except SystemError (Text × Option File)) := do
  let m ← get
  pure do
    let p ← m.system.files.resolve m.process.directory (withoutSlashes path) false
    pure (p, m.system.files[p]?)

/-- Put a file somewhere, or take it away. -/
def place (path : Text) (f : Option File) : Run Unit :=
  Run.updateSystem fun y => { y with files := match f with
    | some f => y.files.insert path f
    | none => y.files.erase path }

/-- Make a directory. -/
def makeDirectory (path : Text) : Run (Option SystemError) := do
  match ← look path with
  | .error e => pure (some e)
  | .ok (_, some _) => pure (some .exists_)
  | .ok (p, none) => do
    let mask := (← Run.process).mask
    place p (some ⟨.directory, 0o777 - (0o777 &&& mask)⟩)
    pure none

/-- Make directories. -/
def mkdir : Program := fun name args =>
  withOptions "pv" "m" name args fun chosen paths => do
    if paths.isEmpty then misused 1 name "missing operand".toList
    else each name (fun p => "cannot create directory ".toList ++ quoted p) paths fun path => do
      if !has 'p' chosen then makeDirectory path
      else
        -- all directories on the way, those that are there already included
        let steps := path.zipIdx.filterMap fun (c, k) => if c = '/' && k > 0 then some k else none
        for k in steps do
          let _ ← makeDirectory (path.take k)
        match ← makeDirectory path with
        | some .exists_ => do
          let m ← get
          pure (if m.system.files.isDirectory m.process.directory path then none else some .exists_)
        | r => pure r

/-- Remove directories that are empty. -/
def rmdir : Program := fun name args =>
  withOptions "" "" name args fun _ paths => do
    if paths.isEmpty then misused 1 name "missing operand".toList
    else each name (fun p => "failed to remove ".toList ++ quoted p) paths fun path => do
      match ← look path with
      | .error e => pure (some e)
      | .ok (_, none) => pure (some .missing)
      | .ok (p, some f) => do
        if f.kind ≠ .directory then pure (some .notDirectory)
        else if !((← get).system.files.names p).isEmpty then pure (some .notEmpty)
        else
          place p none
          pure none

/-- Remove files. -/
def rm : Program := fun name args =>
  withOptions "frRiv" "" name args fun chosen paths => do
    let deep := has 'r' chosen || has 'R' chosen
    if paths.isEmpty && !has 'f' chosen then misused 1 name "missing operand".toList
    else each name (fun p => "cannot remove ".toList ++ quoted p) paths fun path => do
      match ← look path with
      | .error e => pure (if has 'f' chosen && e = .missing then none else some e)
      | .ok (_, none) => pure (if has 'f' chosen then none else some .missing)
      | .ok (p, some f) =>
        if f.kind = .directory then
          if !deep then pure (some .isDirectory)
          else
            let m ← get
            let inside := m.system.files.toList.filter fun e => (p ++ ['/']).isPrefixOf e.1
            inside.forM fun e => place e.1 none
            place p none
            pure none
        else
          place p none
          pure none

/-- Make files that are not there. -/
def touch : Program := fun name args =>
  withOptions "acm" "" name args fun chosen paths => do
    if paths.isEmpty then misused 1 name "missing file operand".toList
    else each name (fun p => "cannot touch ".toList ++ quoted p) paths fun path => do
      match ← look path with
      | .error e => pure (some e)
      | .ok (_, some _) => pure none
      | .ok (p, none) => do
        if !has 'c' chosen then
          let mask := (← Run.process).mask
          place p (some ⟨.regular [], 0o666 - (0o666 &&& mask)⟩)
        pure none

/-- Change the rights of files. -/
def chmod : Program := fun name args =>
  match args with
  | [] => misused 1 name "missing operand".toList
  | [mode] => misused 1 name ("missing operand after ".toList ++ quoted mode)
  | mode :: paths =>
    each name (fun p => "cannot access ".toList ++ quoted p) paths fun path => do
      match ← look path with
      | .error e => pure (some e)
      | .ok (_, none) => pure (some .missing)
      | .ok (p, some f) => do
        let mode := match Numeral.digits? 8 mode with
          | some (n, []) => n
          | _ => if mode.contains 'x' then
              if mode.contains '-' then f.mode - (f.mode &&& 0o111) else f.mode ||| 0o111
            else f.mode
        place p (some { f with mode := mode })
        pure none

/-- Write the names of files, and of those in directories. -/
def ls : Program := fun name args =>
  withOptions "1aAd" "" name args fun chosen paths => do
    let paths := if paths.isEmpty then [['.']] else paths
    let mut files := #[]
    let mut directories := #[]
    let mut status := 0
    for path in paths.mergeSort (fun a b => compare a b ≠ .gt) do
      let m ← get
      match m.system.files.find m.process.directory path true with
      | .error e =>
        complain name ("cannot access ".toList ++ quoted path ++ ": ".toList ++ e.message.toList)
        status := 2
      | .ok (p, f) =>
        if f.kind = .directory && !has 'd' chosen then
          let all := has 'a' chosen
          let hidden := all || has 'A' chosen
          let names := (m.system.files.names p).filter fun n => hidden || n.head? ≠ some '.'
          let names := (if all then [['.'], ['.', '.']] else []) ++ names
          directories := directories.push (path, names.mergeSort fun a b => compare a b ≠ .gt)
        else files := files.push path
    let several := paths.length > 1
    let listings := directories.toList.map fun (path, names) =>
      (if several then path ++ [':', '\n'] else []) ++ textOf names
    let blocks := (if files.isEmpty then [] else [textOf files.toList]) ++ listings
    write name (['\n'].intercalate blocks) status

end Program
end Posix
end EnvValues
