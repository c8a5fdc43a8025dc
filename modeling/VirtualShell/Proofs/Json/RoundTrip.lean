import Mathlib.Data.Option.Basic
import VirtualShell.Proofs.Json.Strings
import VirtualShell.Proofs.Text.Numerals

/-!
# Values read back

The text of a value is read as that value (`parse?_toText`), if the value is of the kind that is
written: its numbers are natural and its strings denote texts. The induction follows the value; what
may follow its text in a larger one is a comma or a closing bracket, at which a numeral ends.
-/

namespace VirtualShell.Json

open Text

/-! ## Natural numbers -/

/-- A numeral of a positive number does not begin with a zero. -/
theorem head?_toDigits {n : Nat} (h : 0 < n) : (Nat.toDigits 10 n).head? ≠ some '0' := by
  induction n using Nat.strongRecOn with
  | ind n ih =>
    by_cases hlt : n < 10
    · rw [Nat.toDigits_of_lt_base hlt, List.head?_cons]
      have hall : ∀ m : Fin 10, 0 < m.val → some m.val.digitChar ≠ some '0' := by decide
      exact hall ⟨n, hlt⟩ h
    · rw [Nat.toDigits_of_base_le (by decide) (by omega),
        List.head?_append_of_ne_nil _ Nat.toDigits_ne_nil]
      exact ih (n / 10) (by omega) (by omega)

theorem length_toDigits_of_head? {n : Nat} (h : (Nat.toDigits 10 n).head? = some '0') :
    (Nat.toDigits 10 n).length = 1 := by
  rcases Nat.eq_zero_or_pos n with rfl | hpos
  · rfl
  · exact absurd h (head?_toDigits hpos)

/-- What may follow the text of a value. -/
def Closes (rest : List Char) : Prop :=
  ∀ c, rest.head? = some c → c = ',' ∨ c = ']' ∨ c = '\x7d'

theorem closes_nil : Closes [] := by
  intro c hc
  cases hc

theorem closes_cons {c : Char} (rest : List Char) (h : c = ',' ∨ c = ']' ∨ c = '\x7d') :
    Closes (c :: rest) := by
  intro d hd
  rw [List.head?_cons, Option.some.injEq] at hd
  rwa [← hd]

theorem Closes.not_digit {rest : List Char} (h : Closes rest) :
    ∀ c, rest.head? = some c → c.isDigit = false := by
  intro c hc
  rcases h c hc with rfl | rfl | rfl <;> rfl

theorem digits?_toDigits (n : Nat) {rest : List Char} (h : Closes rest) :
    digits? (Nat.toDigits 10 n ++ rest) = some (Nat.toDigits 10 n, rest) := by
  have hdigits : ∀ c ∈ Nat.toDigits 10 n, c.isDigit = true := fun c hc =>
    Nat.isDigit_of_mem_toDigits (by decide) (by decide) hc
  rw [digits?]
  simp only [takeWhile_digits hdigits h.not_digit]
  rw [if_neg (by simp), List.drop_left]

/-- The numeral of a natural number is read back. -/
theorem number?_toDigits (n : Nat) {rest : List Char} (h : Closes rest) :
    number? (Nat.toDigits 10 n ++ rest) = some (⟨false, n, 0, true⟩, rest) := by
  obtain ⟨d, ds, hds⟩ := List.exists_cons_of_ne_nil (Nat.toDigits_ne_nil (n := n) (b := 10))
  have hd : d.isDigit = true :=
    Nat.isDigit_of_mem_toDigits (b := 10) (n := n) (by decide) (by decide) (by simp [hds])
  have hsign : ∀ r, Nat.toDigits 10 n ++ rest ≠ '-' :: r := by
    intro r he
    rw [hds, List.cons_append, List.cons.injEq] at he
    rw [he.1] at hd
    cases hd
  have hguard : (Nat.toDigits 10 n).length = 1 ∨ (Nat.toDigits 10 n).head? ≠ some '0' := by
    by_cases h0 : (Nat.toDigits 10 n).head? = some '0'
    · exact Or.inl (length_toDigits_of_head? h0)
    · exact Or.inr h0
  have hfraction : fractionDigits? rest = some ([], rest) := by
    unfold fractionDigits?
    split
    · rcases h '.' rfl with h | h | h <;> cases h
    · rfl
  have hexponent : exponent? rest = some (none, rest) := by
    cases rest with
    | nil => rfl
    | cons e r => rcases h e rfl with rfl | rfl | rfl <;> rfl
  unfold number?
  split
  next negative s hmatch =>
    split at hmatch
    · next r he => exact absurd he (hsign r)
    · cases hmatch
      refine (bind_of_eq_some (digits?_toDigits n h) _).trans ?_
      refine (bind_of_eq_some (guard_of_pos hguard) _).trans ?_
      refine (bind_of_eq_some hfraction _).trans ?_
      refine (bind_of_eq_some hexponent _).trans ?_
      simp only [List.append_nil, digitsValue_toDigits]
      rfl

/-! ## Plain values -/

mutual

/-- The value is of the kind that is written: its numbers are natural and its strings texts. -/
def Value.IsPlain : Value → Prop
  | .null => True
  | .bool _ => True
  | .number n => n = ⟨false, n.mantissa, 0, true⟩
  | .string s => s.isSome = true
  | .array items => PlainItems items
  | .object members => PlainMembers members

/-- `Value.IsPlain` for all values of a list. -/
def PlainItems : List Value → Prop
  | [] => True
  | v :: vs => v.IsPlain ∧ PlainItems vs

/-- `Value.IsPlain` for all values of an object, whose keys are texts. -/
def PlainMembers : List (Option String × Value) → Prop
  | [] => True
  | (k, v) :: ms => k.isSome = true ∧ v.IsPlain ∧ PlainMembers ms

end

theorem plainItems_iff {items : List Value} : PlainItems items ↔ ∀ v ∈ items, v.IsPlain := by
  induction items with
  | nil => simp [PlainItems]
  | cons v vs ih => simp [PlainItems, ih]

theorem quote_append (cs rest : List Char) :
    quote cs ++ rest = '"' :: (cs.flatMap escape ++ '"' :: rest) := by
  simp [quote]

/-- What begins the text of a plain value. -/
theorem exists_render_eq_cons {v : Value} (h : v.IsPlain) :
    ∃ c r, v.render = c :: r ∧ isSpace c = false ∧ c ≠ ']' ∧ c ≠ '\x7d' := by
  cases v with
  | null => exact ⟨_, _, rfl, rfl, by decide, by decide⟩
  | bool b => cases b <;> exact ⟨_, _, rfl, rfl, by decide, by decide⟩
  | string s => exact ⟨_, _, rfl, rfl, by decide, by decide⟩
  | array items => exact ⟨'[', _, by rw [Value.render]; rfl, rfl, by decide, by decide⟩
  | object members => exact ⟨'\x7b', _, by rw [Value.render]; rfl, rfl, by decide, by decide⟩
  | number n =>
    rw [Value.IsPlain] at h
    obtain ⟨d, ds, hds⟩ :=
      List.exists_cons_of_ne_nil (Nat.toDigits_ne_nil (n := n.mantissa) (b := 10))
    have hd : d.isDigit = true :=
      Nat.isDigit_of_mem_toDigits (b := 10) (n := n.mantissa) (by decide) (by decide)
        (by simp [hds])
    refine ⟨d, ds, ?_, ?_, ?_, ?_⟩
    · rw [h, Value.render]
      simp [Number.render, hds]
    · cases hs : isSpace d with
      | false => rfl
      | true =>
        simp only [isSpace, Bool.or_eq_true, beq_iff_eq] at hs
        rcases hs with ((rfl | rfl) | rfl) | rfl <;> cases hd
    · rintro rfl; cases hd
    · rintro rfl; cases hd

theorem renderItems_cons_cons (v w : Value) (vs : List Value) :
    renderItems (v :: w :: vs) = v.render ++ ',' :: renderItems (w :: vs) := by
  rw [renderItems]
  simp

theorem renderMembers_cons_cons (k : Option String) (v : Value) (m : Option String × Value)
    (ms : List (Option String × Value)) : renderMembers ((k, v) :: m :: ms) =
      quote (k.getD "").toList ++ ':' :: v.render ++ ',' :: renderMembers (m :: ms) := by
  rw [renderMembers]
  simp

theorem exists_renderItems_eq_cons {v : Value} (h : v.IsPlain) (vs : List Value) :
    ∃ c r, renderItems (v :: vs) = c :: r ∧ isSpace c = false ∧ c ≠ ']' := by
  obtain ⟨c, r, hr, hc, hne, -⟩ := exists_render_eq_cons h
  cases vs with
  | nil => exact ⟨c, r, by rw [renderItems, hr], hc, hne⟩
  | cons w vs => exact ⟨c, _, by rw [renderItems_cons_cons, hr, List.cons_append], hc, hne⟩

theorem exists_renderMembers_eq_cons (m : Option String × Value)
    (ms : List (Option String × Value)) : ∃ r, renderMembers (m :: ms) = '"' :: r := by
  obtain ⟨k, v⟩ := m
  cases ms with
  | nil => exact ⟨_, by rw [renderMembers, quote_append]⟩
  | cons m ms => exact ⟨_, by rw [renderMembers_cons_cons, quote_append, List.cons_append]⟩

theorem skipSpace_cons {c : Char} (h : isSpace c = false) (r : List Char) :
    skipSpace (c :: r) = c :: r := by
  simp [skipSpace, h]

/-! ## Reading by the first character -/

theorem value?_digit {d : Char} (hd : d.isDigit = true) (fuel : Nat) (r : List Char) :
    value? (fuel + 1) (d :: r) = (number? (d :: r)).map fun p => (.number p.1, p.2) := by
  have hne : ∀ c : Char, c.isDigit = false → d ≠ c := by
    rintro c hc rfl
    rw [hd] at hc
    cases hc
  have hspace : isSpace d = false := by
    simp [isSpace, hne ' ' rfl, hne '\t' rfl, hne '\n' rfl, hne '\r' rfl]
  rw [value?, skipSpace_cons hspace]
  split
  · next h => cases h
  · next h => cases h; cases hd
  · next h => cases h; cases hd
  · next h => cases h; cases hd
  · next h => cases h; cases hd
  · next h => cases h; cases hd
  · next h => cases h; cases hd
  · next h => cases h; rfl

theorem value?_quote (cs : List Char) (fuel : Nat) (rest : List Char) :
    value? (fuel + 1) (quote cs ++ rest) = some (.string (some (String.ofList cs)), rest) := by
  rw [quote_append, value?, skipSpace_cons rfl]
  simp only [string?_escaped, Option.map_some]

theorem value?_array {c : Char} (hc : isSpace c = false) (hne : c ≠ ']') (fuel : Nat)
    (r : List Char) : value? (fuel + 1) ('[' :: c :: r) =
      (items? fuel (c :: r)).map fun p => (.array p.1, p.2) := by
  rw [value?, skipSpace_cons rfl]
  simp only [skipSpace_cons hc]
  split
  · next h => cases h; exact absurd rfl hne
  · rfl

theorem value?_object {c : Char} (hc : isSpace c = false) (hne : c ≠ '\x7d') (fuel : Nat)
    (r : List Char) : value? (fuel + 1) ('\x7b' :: c :: r) =
      (members? fuel (c :: r)).map fun p => (.object p.1, p.2) := by
  rw [value?, skipSpace_cons rfl]
  simp only [skipSpace_cons hc]
  split
  · next h => cases h; exact absurd rfl hne
  · rfl

/-- What follows one item: the list of items ends or goes on. -/
theorem items?_step {v : Value} {fuel : Nat} {s r : List Char} {c : Char}
    (h : value? fuel s = some (v, c :: r)) (hc : isSpace c = false) :
    items? (fuel + 1) s = if c = ',' then (items? fuel r).map fun p => (v :: p.1, p.2)
      else if c = ']' then some ([v], r) else none := by
  rw [items?, h]
  simp only [skipSpace_cons hc]
  split
  · next he => cases he; rfl
  · next he => cases he; rfl
  · next h₁ h₂ =>
    rw [if_neg fun he => h₁ r (by rw [he]), if_neg fun he => h₂ r (by rw [he])]

/-- What follows one member: the list of members ends or goes on. -/
theorem members?_step {k : List Char} {v : Value} {fuel : Nat} {s r : List Char} {c : Char}
    (h : value? fuel s = some (v, c :: r)) (hc : isSpace c = false) :
    members? (fuel + 1) (quote k ++ ':' :: s) =
      if c = ',' then (members? fuel r).map fun p => ((some (String.ofList k), v) :: p.1, p.2)
      else if c = '\x7d' then some ([(some (String.ofList k), v)], r) else none := by
  rw [quote_append, members?, skipSpace_cons rfl]
  simp only [string?_escaped, skipSpace_cons (show isSpace ':' = false from rfl), h,
    skipSpace_cons hc]
  split
  · next he => cases he; rfl
  · next he => cases he; rfl
  · next h₁ h₂ =>
    rw [if_neg fun he => h₁ r (by rw [he]), if_neg fun he => h₂ r (by rw [he])]

/-! ## The round trip -/

mutual

/-- The text of a plain value is read back, with fuel for twice its length. -/
theorem value?_render : ∀ (v : Value) (fuel : Nat) (rest : List Char), v.IsPlain → Closes rest →
    2 * v.render.length ≤ fuel → value? fuel (v.render ++ rest) = some (v, rest)
  | .null, fuel, rest, _, _, hf => by
    obtain ⟨fuel, rfl⟩ := Nat.exists_eq_add_of_le' (Nat.le_trans (by decide) hf : 1 ≤ fuel)
    rfl
  | .bool true, fuel, rest, _, _, hf => by
    obtain ⟨fuel, rfl⟩ := Nat.exists_eq_add_of_le' (Nat.le_trans (by decide) hf : 1 ≤ fuel)
    rfl
  | .bool false, fuel, rest, _, _, hf => by
    obtain ⟨fuel, rfl⟩ := Nat.exists_eq_add_of_le' (Nat.le_trans (by decide) hf : 1 ≤ fuel)
    rfl
  | .number n, fuel, rest, h, hrest, hf => by
    obtain ⟨m, rfl⟩ : ∃ m, n = ⟨false, m, 0, true⟩ := ⟨_, h⟩
    have hrender : (Value.number ⟨false, m, 0, true⟩).render = Nat.toDigits 10 m := by
      simp [Value.render, Number.render]
    obtain ⟨d, ds, hds⟩ := List.exists_cons_of_ne_nil (Nat.toDigits_ne_nil (n := m) (b := 10))
    have hd : d.isDigit = true :=
      Nat.isDigit_of_mem_toDigits (b := 10) (n := m) (by decide) (by decide) (by simp [hds])
    have hnum := number?_toDigits m hrest
    rw [hrender] at hf ⊢
    rw [hds, List.length_cons] at hf
    obtain ⟨fuel, rfl⟩ := Nat.exists_eq_add_of_le' (by omega : 1 ≤ fuel)
    rw [hds, List.cons_append] at hnum ⊢
    rw [value?_digit hd, hnum, Option.map_some]
  | .string s, fuel, rest, h, _, hf => by
    rw [Value.IsPlain] at h
    obtain ⟨text, rfl⟩ := Option.isSome_iff_exists.1 h
    have hlen : 0 < (quote text.toList).length := by simp [quote]
    rw [Value.render, Option.getD_some] at hf ⊢
    obtain ⟨fuel, rfl⟩ := Nat.exists_eq_add_of_le' (by omega : 1 ≤ fuel)
    rw [value?_quote, String.ofList_toList]
  | .array [], fuel, rest, _, _, hf => by
    obtain ⟨fuel, rfl⟩ := Nat.exists_eq_add_of_le' (Nat.le_trans (by decide) hf : 1 ≤ fuel)
    rfl
  | .array (v :: vs), fuel, rest, h, _, hf => by
    obtain ⟨c, r, hr, hc, hne⟩ := exists_renderItems_eq_cons (v := v) h.1 vs
    rw [Value.render, List.length_append, List.length_cons, List.length_singleton] at hf
    obtain ⟨fuel, rfl⟩ := Nat.exists_eq_add_of_le' (by omega : 1 ≤ fuel)
    have hitems := items?_render (v :: vs) fuel rest (by simp) h (by omega)
    rw [hr, List.cons_append] at hitems
    rw [Value.render, hr, List.cons_append, List.cons_append, List.cons_append,
      List.cons_append, List.append_assoc, List.singleton_append, value?_array hc hne, hitems, Option.map_some]
  | .object [], fuel, rest, _, _, hf => by
    obtain ⟨fuel, rfl⟩ := Nat.exists_eq_add_of_le' (Nat.le_trans (by decide) hf : 1 ≤ fuel)
    rfl
  | .object (m :: ms), fuel, rest, h, _, hf => by
    obtain ⟨r, hr⟩ := exists_renderMembers_eq_cons m ms
    rw [Value.render, List.length_append, List.length_cons, List.length_singleton] at hf
    obtain ⟨fuel, rfl⟩ := Nat.exists_eq_add_of_le' (by omega : 1 ≤ fuel)
    have hmembers := members?_render (m :: ms) fuel rest (by simp) h (by omega)
    rw [hr, List.cons_append] at hmembers
    rw [Value.render, hr, List.cons_append, List.cons_append, List.cons_append,
      List.cons_append, List.append_assoc, List.singleton_append, value?_object rfl (by decide), hmembers, Option.map_some]

theorem items?_render : ∀ (items : List Value) (fuel : Nat) (rest : List Char), items ≠ [] →
    PlainItems items → 2 * (renderItems items).length + 1 ≤ fuel →
    items? fuel (renderItems items ++ ']' :: rest) = some (items, rest)
  | [], _, _, hne, _, _ => absurd rfl hne
  | [v], fuel, rest, _, h, hf => by
    rw [renderItems] at hf ⊢
    obtain ⟨fuel, rfl⟩ := Nat.exists_eq_add_of_le' (by omega : 1 ≤ fuel)
    have hv := value?_render v fuel (']' :: rest) h.1 (closes_cons rest (by simp)) (by omega)
    rw [items?_step hv rfl]
    rfl
  | v :: w :: vs, fuel, rest, _, h, hf => by
    rw [renderItems_cons_cons, List.length_append, List.length_cons] at hf
    obtain ⟨fuel, rfl⟩ := Nat.exists_eq_add_of_le' (by omega : 1 ≤ fuel)
    have hv := value?_render v fuel (',' :: (renderItems (w :: vs) ++ ']' :: rest)) h.1
      (closes_cons _ (by simp)) (by omega)
    have hvs := items?_render (w :: vs) fuel rest (by simp) h.2 (by omega)
    rw [renderItems_cons_cons, List.append_assoc, List.cons_append, items?_step hv rfl, if_pos rfl, hvs,
      Option.map_some]

theorem members?_render : ∀ (members : List (Option String × Value)) (fuel : Nat)
    (rest : List Char), members ≠ [] → PlainMembers members →
    2 * (renderMembers members).length + 1 ≤ fuel →
    members? fuel (renderMembers members ++ '\x7d' :: rest) = some (members, rest)
  | [], _, _, hne, _, _ => absurd rfl hne
  | [(k, v)], fuel, rest, _, h, hf => by
    obtain ⟨text, rfl⟩ := Option.isSome_iff_exists.1 h.1
    rw [renderMembers, List.length_append, List.length_cons] at hf
    obtain ⟨fuel, rfl⟩ := Nat.exists_eq_add_of_le' (by omega : 1 ≤ fuel)
    have hv := value?_render v fuel ('\x7d' :: rest) h.2.1 (closes_cons rest (by simp)) (by omega)
    rw [renderMembers, List.append_assoc, List.cons_append, members?_step hv rfl, Option.getD_some,
      String.ofList_toList]
    rfl
  | (k, v) :: m :: ms, fuel, rest, _, h, hf => by
    obtain ⟨text, rfl⟩ := Option.isSome_iff_exists.1 h.1
    rw [renderMembers_cons_cons, List.length_append, List.length_append, List.length_cons,
      List.length_cons] at hf
    obtain ⟨fuel, rfl⟩ := Nat.exists_eq_add_of_le' (by omega : 1 ≤ fuel)
    have hv := value?_render v fuel (',' :: (renderMembers (m :: ms) ++ '\x7d' :: rest)) h.2.1
      (closes_cons _ (by simp)) (by omega)
    have hms := members?_render (m :: ms) fuel rest (by simp) h.2.2 (by omega)
    rw [renderMembers_cons_cons, List.append_assoc, List.append_assoc, List.cons_append,
      List.cons_append, members?_step hv rfl, if_pos rfl, hms, Option.getD_some, String.ofList_toList,
      Option.map_some]

end

/-- The text of a plain value is read as that value. -/
theorem parse?_toText {v : Value} (h : v.IsPlain) : parse? v.toText = some v := by
  have hread := value?_render v (2 * v.render.length + 2) [] h closes_nil (by omega)
  rw [List.append_nil] at hread
  rw [parse?, Value.toText]
  simp only [String.toList_ofList, hread]
  rfl

end VirtualShell.Json
