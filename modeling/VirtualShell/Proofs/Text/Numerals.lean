import Mathlib.Algebra.Ring.Nat
import Mathlib.Data.List.Basic
import VirtualShell.Text.Blank
import VirtualShell.Text.Numeral

/-!
# Numerals and their values

A decimal numeral has the value that it shows, also with zeros in front (`digitsValue_padded`), and
all of its characters are digits, so that a reader that takes digits takes just the numeral when
something else follows (`takeWhile_digits`).
-/

namespace VirtualShell.Text

/-- Taking from a text stops at the first character that does not pass. -/
theorem takeWhile_append_of_head? {α : Type} {p : α → Bool} {l r : List α}
    (hl : ∀ a ∈ l, p a = true) (hr : ∀ a, r.head? = some a → p a = false) :
    (l ++ r).takeWhile p = l := by
  rw [List.takeWhile_append_of_pos hl]
  cases r with
  | nil => simp
  | cons a r => simp [hr a rfl]

/-- Nothing is dropped from a text whose first character does not pass. -/
theorem dropWhile_of_head? {α : Type} {p : α → Bool} {r : List α}
    (hr : ∀ a, r.head? = some a → p a = false) : r.dropWhile p = r := by
  cases r with
  | nil => rfl
  | cons a r => simp [hr a rfl]

/-- A reader goes on with what its first step gave. -/
theorem bind_of_eq_some {α β : Type} {o : Option α} {a : α} (h : o = some a) (f : α → Option β) :
    (o >>= f) = f a := by
  rw [h]
  rfl

/-- A reader that ends has ended its first step and what it went on with. -/
theorem exists_of_bind_eq_some {α β : Type} {o : Option α} {f : α → Option β} {b : β}
    (h : (o >>= f) = some b) : ∃ a, o = some a ∧ f a = some b :=
  Option.bind_eq_some_iff.1 h

theorem guard_of_pos {p : Prop} [Decidable p] (h : p) : (guard p : Option Unit) = some () := by
  rw [guard, if_pos h]
  rfl

theorem of_guard_eq_some {p : Prop} [Decidable p] {u : Unit} (h : (guard p : Option Unit) = some u) :
    p := by
  by_contra hp
  rw [guard, if_neg hp] at h
  cases h

theorem isBlank_of_isDigit {c : Char} (h : c.isDigit = true) : isBlank c = false := by
  rw [Char.isDigit_iff_toNat] at h
  have h₁ : 48 ≤ c.toNat := h.1
  have h₂ : c.toNat ≤ 57 := h.2
  simp only [isBlank, blankRanges, List.any_cons, List.any_nil, Bool.or_false,
    Bool.or_eq_false_iff, Bool.and_eq_false_iff, decide_eq_false_iff_not]
  omega

theorem digitsValue_toDigits (n : Nat) : digitsValue (Nat.toDigits 10 n) = n :=
  Nat.ofDigitChars_ten_toDigits

theorem toList_decimal (n : Nat) : (decimal n).toList = Nat.toDigits 10 n := by simp [decimal]

/-- The characters of a number filled with zeros. -/
theorem toList_padded (width n : Nat) : (padLeft width '0' (decimal n)).toList =
    List.replicate (width - (Nat.toDigits 10 n).length) '0' ++ Nat.toDigits 10 n := by
  rw [padLeft, String.toList_append, toList_decimal, String.toList_ofList, ← String.length_toList,
    toList_decimal]

theorem isDigit_of_mem_padded {width n : Nat} {c : Char}
    (h : c ∈ (padLeft width '0' (decimal n)).toList) : c.isDigit = true := by
  rw [toList_padded] at h
  rcases List.mem_append.1 h with h | h
  · rw [List.eq_of_mem_replicate h]
    rfl
  · exact Nat.isDigit_of_mem_toDigits (by decide) (by decide) h

/-- Zeros in front do not count. -/
theorem digitsValue_padded (width n : Nat) :
    digitsValue (padLeft width '0' (decimal n)).toList = n := by
  rw [toList_padded, digitsValue, Nat.ofDigitChars_append, Nat.ofDigitChars_replicate_zero,
    Nat.mul_zero]
  exact digitsValue_toDigits n

theorem length_padded {width n : Nat} (hw : 0 < width) (hn : n < 10 ^ width) :
    (padLeft width '0' (decimal n)).toList.length = width := by
  have hlen := (Nat.length_toDigits_le_iff (by decide) hw).2 hn
  rw [toList_padded, List.length_append, List.length_replicate]
  omega

theorem padded_ne_nil (width n : Nat) : (padLeft width '0' (decimal n)).toList ≠ [] := by
  rw [toList_padded]
  exact List.append_ne_nil_of_right_ne_nil _ Nat.toDigits_ne_nil

/-- A reader of digits takes a whole numeral. -/
theorem takeWhile_digits {ds rest : List Char} (hds : ∀ c ∈ ds, c.isDigit = true)
    (hrest : ∀ c, rest.head? = some c → c.isDigit = false) :
    (ds ++ rest).takeWhile Char.isDigit = ds :=
  takeWhile_append_of_head? hds hrest

/-- Blanks are skipped where there are none. -/
theorem trimLeft_of_digits {ds rest : List Char} (hds : ∀ c ∈ ds, c.isDigit = true)
    (hne : ds ≠ []) : trimLeft (ds ++ rest) = ds ++ rest := by
  obtain ⟨d, ds', rfl⟩ := List.exists_cons_of_ne_nil hne
  refine dropWhile_of_head? fun c hc => ?_
  rw [List.cons_append, List.head?_cons, Option.some.injEq] at hc
  rw [← hc]
  exact isBlank_of_isDigit (hds d List.mem_cons_self)

/-- Digits behind a number lead to less than zeros behind the next number. -/
theorem ofDigitChars_lt {digits : List Char} (h : ∀ c ∈ digits, c.isDigit = true) (n : Nat) :
    Nat.ofDigitChars 10 digits n < (n + 1) * 10 ^ digits.length := by
  induction digits generalizing n with
  | nil => simp
  | cons c digits ih =>
    have hc : c.toNat - 48 < 10 := by
      have hdigit : 48 ≤ c.toNat ∧ c.toNat ≤ 57 := Char.isDigit_iff_toNat.1 (h c List.mem_cons_self)
      omega
    have hrest := ih (fun c hc => h c (List.mem_cons_of_mem _ hc)) (10 * n + (c.toNat - 48))
    rw [Nat.ofDigitChars_cons, List.length_cons]
    calc Nat.ofDigitChars 10 digits (10 * n + (c.toNat - 48))
        < (10 * n + (c.toNat - 48) + 1) * 10 ^ digits.length := hrest
      _ ≤ (n + 1) * 10 * 10 ^ digits.length := Nat.mul_le_mul_right _ (by omega)
      _ = (n + 1) * 10 ^ (digits.length + 1) := by rw [Nat.mul_assoc, Nat.pow_succ']

theorem digitsValue_lt {digits : List Char} (h : ∀ c ∈ digits, c.isDigit = true) :
    digitsValue digits < 10 ^ digits.length := by
  have hlt := ofDigitChars_lt h 0
  rwa [Nat.zero_add, Nat.one_mul] at hlt

end VirtualShell.Text
