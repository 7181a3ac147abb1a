import EnvValues.Shell.Posix.Files
import EnvValues.Shell.Posix.Pattern

/-!
# Patterns of file names

A pattern stands for the files whose paths it matches, **step by step**: a slash in a path
is matched by a slash alone, and a dot that a name begins with by a dot alone. A pattern
that matches no file, or has no step that could match several names, stands for none.
-/

namespace EnvValues
namespace Posix
namespace Files

/-- One step of a pattern: its text, with its escapes, and whether a slash follows. -/
structure PatternStep where
  text : Text
  slash : Bool

/-- The steps of a pattern. -/
def patternSteps (done : Text) : Text → List PatternStep
  | [] => [⟨done.reverse, false⟩]
  | '\\' :: '/' :: r => ⟨done.reverse, true⟩ :: patternSteps [] r
  | '\\' :: c :: r => patternSteps (c :: '\\' :: done) r
  | '/' :: r => ⟨done.reverse, true⟩ :: patternSteps [] r
  | c :: r => patternSteps (c :: done) r

/-- Is there a closing bracket behind an opening one? The first character behind the
opening one does not count. -/
def closesBracket : Text → Bool
  | '\\' :: _ :: c :: r => c = ']' || closesBracket (c :: r)
  | _ :: c :: r => c = ']' || closesBracket (c :: r)
  | _ => false

/-- Could the step match several names? -/
def matchesMany : Text → Bool
  | [] => false
  | '\\' :: _ :: r => matchesMany r
  | c :: r =>
    c = '*' || c = '?' || (c = '[' && closesBracket (match r with
      | '!' :: u => u
      | u => u)) || matchesMany r

/-- The text of a step without its escapes. -/
def unescaped : Text → Text
  | '\\' :: c :: r => c :: unescaped r
  | c :: r => c :: unescaped r
  | [] => []

/-- Does a step match a name? -/
def matchesName (step name : Text) : Bool :=
  let hidden := name.head? = some '.'
  let dot := step.head? = some '.' || ['\\', '.'].isPrefixOf step
  (!hidden || dot) && (Pattern.ofText step).covers name

/-- The paths that begin with one of those so far and go on as the steps say. The flag
says whether a step could match several names up to here. -/
def matchSteps (files : Files) (directory : Text) (many : Bool) (sofar : List Text) :
    List PatternStep → List Text
  | [] =>
    if many then sofar.filter fun p => (files.find directory p false).toOption.isSome else []
  | ⟨text, slash⟩ :: r =>
    let tail : Text := if slash then ['/'] else []
    if matchesMany text then
      let next := sofar.flatMap fun p =>
        match files.find directory (if p.isEmpty then ['.'] else p) true with
        | .ok (q, f) =>
          if f.kind = .directory then
            ((files.names q ++ [['.'], ['.', '.']]).filter (matchesName text)).map fun n =>
              p ++ n ++ tail
          else []
        | .error _ => []
      matchSteps files directory true next r
    else matchSteps files directory many (sofar.map fun p => p ++ unescaped text ++ tail) r

/-- The paths of the files that a pattern stands for, in the order of their bytes. -/
def matching (files : Files) (directory pattern : Text) : List Text :=
  let found := matchSteps files directory false [[]] (patternSteps [] pattern)
  found.mergeSort fun a b => compare a b ≠ .gt

end Files
end Posix
end EnvValues
