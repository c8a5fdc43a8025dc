import Mathlib.Algebra.Group.Nat.Even
import VirtualShell.Line.Tokens

/-!
# The tokens of a line that is put together

Between two texts a line may be cut without a token being lost or torn, if no quotation is open at
the end of the first one and the second one does not go on the last token of the first
(`tokensFrom_append`). Quotation marks open and close in turn, so that no quotation is open after an
even number of them.
-/

namespace VirtualShell.Line

open Text

variable {a b word : List Char}

/-- A text that does not go on a token before it: it is empty or begins with a blank. -/
def StandsApart (b : List Char) : Prop := ∀ c, b.head? = some c → isBlank c = true

/-- A character that is neither a blank nor a quotation mark. -/
def IsPlain (c : Char) : Prop := isBlank c = false ∧ c ≠ '"'

instance (c : Char) : Decidable (IsPlain c) := inferInstanceAs (Decidable (_ ∧ _))

theorem ne_quote_of_isBlank {c : Char} (h : isBlank c = true) : c ≠ '"' := by
  rintro rfl
  exact absurd h (by decide)

/-! ## One character -/

theorem tokensFrom_quote (s : Scan) (r : List Char) :
    tokensFrom s ('"' :: r) = tokensFrom ⟨!s.quoted, some (s.token.getD [])⟩ r := by
  rw [tokensFrom, if_pos rfl]

theorem tokensFrom_blank {c : Char} (hc : isBlank c = true) (token : Option (List Char))
    (r : List Char) : tokensFrom ⟨false, token⟩ (c :: r) = token.toList ++ tokens r := by
  rw [tokensFrom, if_neg (ne_quote_of_isBlank hc)]
  simp [hc, tokens, Scan.start]

theorem tokens_blank {c : Char} (hc : isBlank c = true) (r : List Char) :
    tokens (c :: r) = tokens r :=
  tokensFrom_blank hc none r

theorem tokensFrom_of_quoted {c : Char} (hc : c ≠ '"') (token : Option (List Char))
    (r : List Char) :
    tokensFrom ⟨true, token⟩ (c :: r) = tokensFrom ⟨true, some (token.getD [] ++ [c])⟩ r := by
  rw [tokensFrom, if_neg hc]
  simp

theorem tokensFrom_plain {c : Char} (hc : IsPlain c) (s : Scan) (r : List Char) :
    tokensFrom s (c :: r) = tokensFrom ⟨s.quoted, some (s.token.getD [] ++ [c])⟩ r := by
  rw [tokensFrom, if_neg hc.2]
  simp [hc.1]

/-! ## Texts -/

/-- A text that stands apart ends the token begun before it. -/
theorem tokensFrom_of_standsApart (h : StandsApart b) (token : Option (List Char)) :
    tokensFrom ⟨false, token⟩ b = token.toList ++ tokens b := by
  cases b with
  | nil => simp [tokens, tokensFrom, Scan.start]
  | cons c r =>
    have hc : isBlank c = true := h c rfl
    rw [tokensFrom_blank hc, tokens_blank hc]

/-- A line is cut where no quotation is open and the rest stands apart. -/
theorem tokensFrom_append {s : Scan} (hclosed : Even (a.count '"' + s.quoted.toNat))
    (hb : StandsApart b) : tokensFrom s (a ++ b) = tokensFrom s a ++ tokens b := by
  -- the quotation marks still to come make the number even in every state
  induction a generalizing s with
  | nil =>
    obtain ⟨quoted, token⟩ := s
    cases quoted with
    | true => exact absurd hclosed Nat.not_even_one
    | false => exact tokensFrom_of_standsApart hb token
  | cons c a ih =>
    obtain ⟨quoted, token⟩ := s
    rw [List.cons_append]
    by_cases hquote : c = '"'
    · subst hquote
      rw [List.count_cons_self] at hclosed
      rw [tokensFrom_quote, tokensFrom_quote]
      refine ih ?_
      cases quoted <;> simpa [Nat.even_add_one] using hclosed
    · rw [List.count_cons_of_ne hquote] at hclosed
      by_cases hblank : isBlank c = true
      · cases quoted with
        | false =>
          rw [tokensFrom_blank hblank, tokensFrom_blank hblank, List.append_assoc]
          exact congrArg (token.toList ++ ·) (ih hclosed)
        | true =>
          rw [tokensFrom_of_quoted hquote, tokensFrom_of_quoted hquote]
          exact ih hclosed
      · have hplain : IsPlain c := ⟨by simpa using hblank, hquote⟩
        rw [tokensFrom_plain hplain, tokensFrom_plain hplain]
        exact ih hclosed

theorem tokens_append (hclosed : Even (a.count '"')) (hb : StandsApart b) :
    tokens (a ++ b) = tokens a ++ tokens b :=
  tokensFrom_append hclosed hb

/-- Blanks in front of a line do not count. -/
theorem tokens_blanks_append {blanks : List Char} (h : ∀ c ∈ blanks, isBlank c = true)
    (b : List Char) : tokens (blanks ++ b) = tokens b := by
  induction blanks with
  | nil => rfl
  | cons c blanks ih =>
    rw [List.cons_append, tokens_blank (h c List.mem_cons_self)]
    exact ih fun c hc => h c (List.mem_cons_of_mem _ hc)

/-- A word of plain characters goes on the token begun before it. -/
theorem tokensFrom_word_append (hword : ∀ c ∈ word, IsPlain c) (begun rest : List Char) :
    tokensFrom ⟨false, some begun⟩ (word ++ rest) =
      tokensFrom ⟨false, some (begun ++ word)⟩ rest := by
  induction word generalizing begun with
  | nil => simp
  | cons c word ih =>
    rw [List.cons_append, tokensFrom_plain (hword c List.mem_cons_self)]
    refine (ih (fun c hc => hword c (List.mem_cons_of_mem _ hc)) _).trans ?_
    simp

/-- A word of plain characters begins a token. -/
theorem tokens_word_append (hne : word ≠ []) (hword : ∀ c ∈ word, IsPlain c) (rest : List Char) :
    tokens (word ++ rest) = tokensFrom ⟨false, some word⟩ rest := by
  obtain ⟨c, tail, rfl⟩ := List.exists_cons_of_ne_nil hne
  rw [List.cons_append, tokens, tokensFrom_plain (hword c List.mem_cons_self)]
  exact tokensFrom_word_append (fun c hc => hword c (List.mem_cons_of_mem _ hc)) [c] rest

/-- A word of plain characters is one token. -/
theorem tokens_word (hne : word ≠ []) (hword : ∀ c ∈ word, IsPlain c) : tokens word = [word] := by
  have htokens := tokens_word_append hne hword []
  rwa [List.append_nil] at htokens

theorem count_quote_word (hword : ∀ c ∈ word, IsPlain c) : word.count '"' = 0 :=
  List.count_eq_zero.2 fun hmem => (hword _ hmem).2 rfl

end VirtualShell.Line
