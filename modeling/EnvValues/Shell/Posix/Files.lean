import EnvValues.Assignment

/-!
# Files

The files that commands can see: those that are on every system, and those that were
made since. A file is known by its whole path; **looking up a path resolves its links**,
and every step but the last must be a directory.
-/

namespace EnvValues
namespace Posix

/-- Why the system refuses something. -/
inductive SystemError
  | missing
  | notDirectory
  | denied
  | isDirectory
  | exists_
  | badDescriptor
  | noSpace
  | tooManyLinks
  | notEmpty
  | invalid
  deriving DecidableEq, Repr

/-- The wording of a refusal. -/
def SystemError.message : SystemError → String
  | missing => "No such file or directory"
  | notDirectory => "Not a directory"
  | denied => "Permission denied"
  | isDirectory => "Is a directory"
  | exists_ => "File exists"
  | badDescriptor => "Bad file descriptor"
  | noSpace => "No space left on device"
  | tooManyLinks => "Too many levels of symbolic links"
  | notEmpty => "Directory not empty"
  | invalid => "Invalid argument"

/-- A file that is more than its content. -/
inductive Device
  | null
  | zero
  | full
  /-- A terminal that nobody sits at. -/
  | terminal
  deriving DecidableEq, Repr

/-- What a file is. -/
inductive FileKind
  | directory
  | regular (content : Text)
  /-- A program that is installed, by its name. -/
  | program (name : Text)
  | link (target : Text)
  | device (d : Device)
  /-- What a descriptor of the process leads to. -/
  | descriptor (n : Nat)
  deriving DecidableEq, Repr

/-- A file. -/
structure File where
  kind : FileKind
  mode : Nat
  deriving DecidableEq, Repr

/-- May the file be run as a program? -/
def File.isExecutable (f : File) : Bool := f.kind ≠ .directory && (f.mode &&& 0o111) ≠ 0

/-- The files, by their paths. -/
abbrev Files := Assignment File

namespace Path

/-- The steps of a path. -/
def steps (t : Text) : List Text := go [] t
where
  /-- Collect steps behind the characters of one (kept last to first). -/
  go (step : Text) : Text → List Text
    | [] => if step.isEmpty then [] else [step.reverse]
    | c :: r =>
      if c = '/' then (if step.isEmpty then go [] r else step.reverse :: go [] r)
      else go (c :: step) r

/-- The path of steps from the root (kept last to first). -/
def ofSteps (reversed : List Text) : Text :=
  match reversed with
  | [] => ['/']
  | ss => ss.reverse.flatMap fun s => '/' :: s

/-- The last step of a path. -/
def base (t : Text) : Text := (steps t).getLast?.getD ['/']

/-- The directory of a path that begins at the root. -/
def parent (t : Text) : Text := ofSteps ((steps t).reverse.drop 1)

/-- The path with dots resolved as they are written. -/
def tidy (t : Text) : Text :=
  ofSteps ((steps t).foldl (fun done s =>
    if s = ['.'] then done else if s = ['.', '.'] then done.drop 1 else s :: done) [])

end Path

namespace Files

/-- Walk steps from a directory (kept last to first), and resolve links on the way, the
last one only if `follow` says so. -/
def walk (files : Files) (follow : Bool) : (fuel : Nat) → (at_ : List Text) → List Text →
    Except SystemError Text
  | 0, _, _ => .error .tooManyLinks
  | _, at_, [] => .ok (Path.ofSteps at_)
  | fuel + 1, at_, s :: rest =>
    if s = ['.'] then walk files follow fuel at_ rest
    else if s = ['.', '.'] then walk files follow fuel (at_.drop 1) rest
    else
      let here := s :: at_
      match (files[Path.ofSteps here]?).map File.kind with
      | some (.link target) =>
        if rest.isEmpty && !follow then .ok (Path.ofSteps here)
        else
          let start := if target.head? = some '/' then [] else at_
          walk files follow fuel start (Path.steps target ++ rest)
      | some .directory => walk files follow fuel here rest
      | some _ => if rest.isEmpty then .ok (Path.ofSteps here) else .error .notDirectory
      | none => if rest.isEmpty then .ok (Path.ofSteps here) else .error .missing

/-- The path that a path stands for, seen from a directory. The file itself need not be
there. -/
def resolve (files : Files) (directory path : Text) (follow : Bool) : Except SystemError Text :=
  if path.isEmpty then .error .missing
  else
    let ss := (if path.head? = some '/' then [] else Path.steps directory) ++ Path.steps path
    -- a path that ends in a slash is one of a directory
    let ss := if path.getLast? = some '/' && !ss.isEmpty then ss ++ [['.']] else ss
    walk files follow (ss.length + 200) [] ss

/-- The file of a path, and its whole path. -/
def find (files : Files) (directory path : Text) (follow : Bool) :
    Except SystemError (Text × File) := do
  let p ← files.resolve directory path follow
  match files[p]? with
  | some f => .ok (p, f)
  | none => .error .missing

/-- Is the path one of a directory? -/
def isDirectory (files : Files) (directory path : Text) : Bool :=
  match files.find directory path true with
  | .ok (_, f) => f.kind = .directory
  | .error _ => false

/-- The names of the files in a directory. -/
def names (files : Files) (path : Text) : List Text :=
  let lead := if path = ['/'] then ['/'] else path ++ ['/']
  files.toList.filterMap fun p =>
    if lead.isPrefixOf p.1 then
      let n := p.1.drop lead.length
      if n.isEmpty || n.contains '/' then none else some n
    else none

end Files
end Posix
end EnvValues
