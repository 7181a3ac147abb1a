import EnvValues.Text.Basic

/-!
# Backslash escapes

A backslash before `n`, `r`, `t`, a quote or a backslash stands, with that
character, for a single character. Any other backslash stands for itself, so
decoding never fails and never makes a text longer.

The decoder runs in one loop over the text. The equations `decode_nil`,
`decode_escape`, `decode_kept` and `decode_cons` are how the rest of the library
sees it.
-/

namespace EnvValues
namespace Escape

/-- The character that a backslash and `c` stand for, if they stand for one. -/
def meaning? : Char → Option Char
  | 'n' => some '\n'
  | 'r' => some '\r'
  | 't' => some '\t'
  | '"' => some '"'
  | '\'' => some '\''
  | '\\' => some '\\'
  | _ => none

/-- Decode the text behind `done`, which holds what was decoded last to first. -/
def decodeOnto (done : Text) : Text → Text
  | [] => done.reverse
  | '\\' :: c :: r =>
    match meaning? c with
    | some d => decodeOnto (d :: done) r
    | none => decodeOnto ('\\' :: done) (c :: r)
  | c :: r => decodeOnto (c :: done) r

/-- The text with every escape replaced by the character it stands for. -/
def decode (t : Text) : Text := decodeOnto [] t

/-- Decode if escapes are enabled, else leave the text as it is. -/
def decodeIf (enabled : Bool) (t : Text) : Text := if enabled then decode t else t

theorem decodeOnto_append (e done t : Text) :
    decodeOnto (done ++ e) t = e.reverse ++ decodeOnto done t := by
  fun_induction decodeOnto done t with
  | case1 done => simp [decodeOnto]
  | case2 done c r d hd ih => rw [decodeOnto, hd]; exact ih
  | case3 done c r hd ih => rw [decodeOnto, hd]; exact ih
  | case4 done c r hne ih => rw [decodeOnto.eq_3 _ c r hne]; exact ih

/-- What was decoded before stands in front, untouched. -/
theorem decodeOnto_eq (done t : Text) : decodeOnto done t = done.reverse ++ decode t :=
  decodeOnto_append done [] t

@[simp] theorem decode_nil : decode [] = [] := rfl

/-- An escape decodes to its meaning. -/
theorem decode_escape {c d : Char} (r : Text) (h : meaning? c = some d) :
    decode ('\\' :: c :: r) = d :: decode r := by
  rw [decode, decodeOnto, h]
  exact decodeOnto_eq [d] r

/-- A backslash that begins no escape is kept. -/
theorem decode_kept {c : Char} (r : Text) (h : meaning? c = none) :
    decode ('\\' :: c :: r) = '\\' :: decode (c :: r) := by
  rw [decode, decodeOnto, h]
  exact decodeOnto_eq ['\\'] (c :: r)

/-- Any other character stands for itself. -/
theorem decode_cons {c : Char} (r : Text) (h : c ≠ '\\') : decode (c :: r) = c :: decode r := by
  rw [decode, decodeOnto.eq_3 [] c r (fun d u hc _ => h hc)]
  exact decodeOnto_eq [c] r

/-- So does a backslash at the end. -/
@[simp] theorem decode_backslash : decode ['\\'] = ['\\'] := rfl

/-- A text without backslashes stands for itself. -/
theorem decode_of_not_mem {t : Text} (h : '\\' ∉ t) : decode t = t := by
  induction t with
  | nil => rfl
  | cons c t ih =>
      obtain ⟨hc, ht⟩ := not_or.1 (mt List.mem_cons.2 h)
      rw [decode_cons t (Ne.symm hc), ih ht]

theorem decodeIf_of_not_mem {t : Text} (h : '\\' ∉ t) (enabled : Bool) :
    decodeIf enabled t = t := by
  cases enabled with
  | false => rfl
  | true => exact decode_of_not_mem h

theorem length_decodeOnto_le (done t : Text) :
    (decodeOnto done t).length ≤ done.length + t.length := by
  fun_induction decodeOnto done t with
  | case1 done => simp
  | case2 done c r d hd ih => simp only [List.length_cons] at ih ⊢; omega
  | case3 done c r hd ih => simp only [List.length_cons] at ih ⊢; omega
  | case4 done c r hne ih => simp only [List.length_cons] at ih ⊢; omega

/-- **Decoding makes no text longer.** -/
theorem length_decodeIf_le (enabled : Bool) (t : Text) :
    (decodeIf enabled t).length ≤ t.length := by
  cases enabled with
  | false => exact Nat.le_refl _
  | true => simpa [decodeIf, decode] using length_decodeOnto_le [] t

@[simp] theorem decodeIf_false (t : Text) : decodeIf false t = t := rfl

@[simp] theorem decodeIf_true (t : Text) : decodeIf true t = decode t := rfl

@[simp] theorem decodeIf_nil (enabled : Bool) : decodeIf enabled [] = [] := by
  cases enabled <;> rfl

end Escape
end EnvValues
