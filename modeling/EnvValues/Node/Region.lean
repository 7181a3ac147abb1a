import EnvValues.Text.OuterQuotes

/-!
# Where a region ends

Two regions are found without reading what is in them. A **braced** region ends at
the brace that balances its opening one, all braces counted alike. A **command**
ends at the parenthesis that balances its opening one, where a parenthesis counts
only outside quotes and a backslash, except between single quotes, takes away the
meaning of the character behind it.

Each function gives the number of characters of the region, its closing character
included, or nothing when the text runs out before the region is closed.
-/

namespace EnvValues
namespace Region

/-- Look for the brace that closes `opened` braces more, `n` characters in. -/
def bracedFrom : (opened n : Nat) → Text → Option Nat
  | _, _, [] => none
  | opened, n, '{' :: t => bracedFrom (opened + 1) (n + 1) t
  | 0, n, '}' :: _ => some (n + 1)
  | opened + 1, n, '}' :: t => bracedFrom opened (n + 1) t
  | opened, n, _ :: t => bracedFrom opened (n + 1) t

/-- The length of the braced region that the text begins with. -/
def braced? (t : Text) : Option Nat := bracedFrom 0 0 t

/-- Look for the parenthesis that closes `opened` parentheses more, `n` characters
in, with the quotes that are open there. -/
def commandFrom (quote : Option Quote) (opened n : Nat) : Text → Option Nat
  | [] => none
  | c :: t =>
    if c = '\\' ∧ quote ≠ some .single then
      match t with
      | [] => none
      | _ :: u => commandFrom quote opened (n + 2) u
    else
      match quote with
      | some q => commandFrom (if c = q.char then none else some q) opened (n + 1) t
      | none =>
        if c = '(' then commandFrom none (opened + 1) (n + 1) t
        else if c = ')' then
          match opened with
          | 0 => some (n + 1)
          | m + 1 => commandFrom none m (n + 1) t
        else commandFrom (Quote.ofChar? c) opened (n + 1) t

/-- The length of the command that the text begins with. -/
def command? (t : Text) : Option Nat := commandFrom none 0 0 t

end Region
end EnvValues
