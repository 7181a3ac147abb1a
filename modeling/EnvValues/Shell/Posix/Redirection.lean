import EnvValues.Shell.Posix.Expansion

/-!
# Redirections

First the words in all redirections of a command are expanded, and then the redirections
are made, in their order. **A descriptor that leads elsewhere for one command leads back
afterwards**, however the command ends.
-/

namespace EnvValues
namespace Posix

/-- A redirection whose word was expanded. -/
inductive Detour
  | file (descriptor : Nat) (access : Access) (name : Text)
  | copy (descriptor : Nat) (source : Option Nat)
  | document (descriptor : Nat) (number : Nat)
  deriving DecidableEq, Repr

namespace Run

/-- Why a file cannot be opened, or made if it should be. -/
def openingMessage (making : Bool) : SystemError → String
  | .missing | .notDirectory => if making then "Directory nonexistent" else "No such file"
  | e => e.message

/-- Expand the word of a redirection. -/
def expandRedirect (output : Option Command → Run Text) : Redirect → Run Detour
  | .file d access w => return .file d access (← expandText output w)
  | .copy d source => pure (.copy d source)
  | .copyNamed d w => do
    match ← expandText output w with
    | ['-'] => pure (.copy d none)
    | [c] =>
      if c.isDigit then pure (.copy d (some (c.toNat - '0'.toNat)))
      else refuse (← process).readLine "Bad fd number".toList
    | _ => refuse (← process).readLine "Bad fd number".toList
  | .document d n => pure (.document d n)

/-- Make a redirection. -/
def redirect (output : Option Command → Run Text) : Detour → Run Unit
  | .file d access name => do
    let making := access ≠ .read
    let opened ← match access with
      | .read => openForReading name
      | .readWrite => openForWriting name true false false
      | .write => do openForWriting name false false (← option 'C')
      | .overwrite => openForWriting name false false false
      | .append => openForWriting name false true false
    match opened with
    | .ok target => setDescriptor d (some target)
    | .error e =>
      let verb := if making then "create" else "open"
      fail (s!"cannot {verb} ".toList ++ name ++ ": ".toList ++ (openingMessage making e).toList)
  | .copy d none => setDescriptor d none
  | .copy d (some source) => do
    if source ≠ d then
      match ← descriptor? source with
      | some target => setDescriptor d (some target)
      | none => fail (Numeral.decimal source ++ ": Bad file descriptor".toList)
  | .document d n => do
    let t ← expandDocument output ((← process).documents[n]?.getD [])
    setDescriptor d (some ⟨← register (.stream t []), true, false⟩)

/-- Make redirections, and say whether that went well. -/
def redirectAll (output : Option Command → Run Text) (ds : List Detour) : Run Bool := do
  match ← attempt (ds.forM (redirect output)) with
  | .ok () => pure true
  | .error .error => pure false
  | .error e => throw e

/-- Let descriptors lead where they led before. -/
def restoreDescriptors (before : List (Nat × Descriptor)) : Run Unit :=
  update fun p => { p with descriptors := before }

end Run
end Posix
end EnvValues
