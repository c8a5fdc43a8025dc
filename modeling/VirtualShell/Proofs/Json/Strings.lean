import Mathlib.Data.List.Basic
import VirtualShell.Json.Reader

/-!
# Strings read back

What `quote` writes, `string?` reads: each character is escaped into one unit that denotes it
again, and the first bare quotation mark is the closing one.
-/

namespace VirtualShell.Json

open Text

/-- The unit as which a character is read back. Control characters without a short escape stand as
their codes. -/
def unitOf (c : Char) : StringUnit :=
  if c.toNat < 32 ∧ c ≠ '\x08' ∧ c ≠ '\t' ∧ c ≠ '\n' ∧ c ≠ '\x0c' ∧ c ≠ '\r' then .code c.toNat
  else .char c

/-- A control character is denoted by four hexadecimal digits. -/
theorem fourHex?_hexDigit {n : Nat} (h : n < 32) :
    fourHex? '0' '0' (hexDigit (n / 16)) (hexDigit (n % 16)) = some n := by
  have hall : ∀ m : Fin 32, fourHex? '0' '0' (hexDigit (m.val / 16)) (hexDigit (m.val % 16)) =
      some m.val := by decide
  exact hall ⟨n, h⟩

theorem stringUnits?_short {e c : Char} (he : e ≠ 'u') (hc : shortEscape? e = some c)
    (s : List Char) : stringUnits? ('\\' :: e :: s) =
      (stringUnits? s).map fun p => (.char c :: p.1, p.2) := by
  rw [stringUnits?]
  · rw [hc]
    cases stringUnits? s <;> rfl
  · intro a b c d s' h _
    exact he h

theorem stringUnits?_code {a b c d : Char} {n : Nat} (h : fourHex? a b c d = some n)
    (s : List Char) : stringUnits? ('\\' :: 'u' :: a :: b :: c :: d :: s) =
      (stringUnits? s).map fun p => (.code n :: p.1, p.2) := by
  rw [stringUnits?, h]
  cases stringUnits? s <;> rfl

theorem stringUnits?_bare {c : Char} (hquote : c ≠ '"') (hback : c ≠ '\\') (hlow : ¬ c.toNat < 32)
    (s : List Char) :
    stringUnits? (c :: s) = (stringUnits? s).map fun p => (.char c :: p.1, p.2) := by
  rw [stringUnits?]
  · simp only [hlow, hback, decide_false, Bool.false_or, beq_iff_eq, if_false]
    cases stringUnits? s <;> rfl
  · exact hquote
  · intro a b c d s' h _
    exact hback h
  · intro e s' h _
    exact hback h

/-- An escaped character is read as one unit. -/
theorem stringUnits?_escape (c : Char) (s : List Char) :
    stringUnits? (escape c ++ s) = (stringUnits? s).map fun p => (unitOf c :: p.1, p.2) := by
  unfold escape
  split_ifs with h₁ h₂ h₃ h₄ h₅ h₆ h₇ h₈
  · subst h₁; exact stringUnits?_short (by decide) rfl s
  · subst h₂; exact stringUnits?_short (by decide) rfl s
  · subst h₃; exact stringUnits?_short (by decide) rfl s
  · subst h₄; exact stringUnits?_short (by decide) rfl s
  · subst h₅; exact stringUnits?_short (by decide) rfl s
  · subst h₆; exact stringUnits?_short (by decide) rfl s
  · subst h₇; exact stringUnits?_short (by decide) rfl s
  · rw [unitOf, if_pos ⟨h₈, h₃, h₄, h₅, h₆, h₇⟩]
    exact stringUnits?_code (fourHex?_hexDigit h₈) s
  · rw [unitOf, if_neg fun h => h₈ h.1]
    exact stringUnits?_bare h₁ h₂ h₈ s

/-- The unit of a character denotes it. -/
theorem unitsText?_unitOf (c : Char) (us : List StringUnit) :
    unitsText? (unitOf c :: us) = (unitsText? us).map (c :: ·) := by
  unfold unitOf
  split
  · next h =>
    have hlow : ¬ (0xD800 ≤ c.toNat ∧ c.toNat < 0xDC00) := by omega
    have hchar : charOfCode? c.toNat = some c := by
      have hvalid : c.toNat.isValidChar := c.valid
      rw [charOfCode?, dif_pos hvalid]
      exact congrArg some (Char.ext rfl)
    cases us with
    | nil => simp only [unitsText?, if_neg hlow, hchar]; rfl
    | cons u us => cases u <;> (simp only [unitsText?, if_neg hlow, hchar]; rfl)
  · rfl

theorem stringUnits?_flatMap_escape (cs rest : List Char) :
    stringUnits? (cs.flatMap escape ++ '"' :: rest) = some (cs.map unitOf, rest) := by
  induction cs with
  | nil => rw [List.flatMap_nil, List.nil_append, stringUnits?]; rfl
  | cons c cs ih =>
    rw [List.flatMap_cons, List.append_assoc, stringUnits?_escape, ih]
    rfl

theorem unitsText?_map_unitOf (cs : List Char) : unitsText? (cs.map unitOf) = some cs := by
  induction cs with
  | nil => rfl
  | cons c cs ih => rw [List.map_cons, unitsText?_unitOf, ih, Option.map_some]

/-- A text between quotation marks is read back. -/
theorem string?_escaped (cs rest : List Char) :
    string? (cs.flatMap escape ++ '"' :: rest) = some (some (String.ofList cs), rest) := by
  rw [string?, stringUnits?_flatMap_escape, Option.map_some, unitsText?_map_unitOf,
    Option.map_some]

end VirtualShell.Json
