import VirtualShell.Proofs.Line.CommandWords
import VirtualShell.Proofs.Text.Numerals

/-!
# Lines that are written from tokens

A token without quotation marks is written in a line between two of them; a token that is not empty
and has no blank in it may also stand bare (`Spelling`). A line in which such spellings stand with
blanks between them and around them is cut into the tokens again (`WellSpread.tokenize_spread`),
whatever blanks or operators are between the marks. Nothing is trimmed off the line that has one
space between two of them (`trimmed_written`).
-/

namespace VirtualShell

namespace Text

/-- A text that is not empty and neither begins nor ends with a blank. -/
structure Trimmed (s : String) : Prop where
  head : ∃ c, s.toList.head? = some c ∧ isBlank c = false
  last : ∃ c, s.toList.getLast? = some c ∧ isBlank c = false

theorem Trimmed.trim_eq {s : String} (h : Trimmed s) : trim s = s := by
  obtain ⟨⟨first, hfirst, hplain⟩, last, hlast, hplain'⟩ := h
  have hleft : s.toList.dropWhile isBlank = s.toList := by
    refine dropWhile_of_head? fun c hc => ?_
    rw [hfirst, Option.some.injEq] at hc
    rw [← hc, hplain]
  have hright : s.toList.reverse.dropWhile isBlank = s.toList.reverse := by
    refine dropWhile_of_head? fun c hc => ?_
    rw [List.head?_reverse, hlast, Option.some.injEq] at hc
    rw [← hc, hplain']
  rw [trim, trimLeft, hleft, trimRight, hright, List.reverse_reverse, String.ofList_toList]

/-- What stands between two trimmed texts is not trimmed. -/
theorem Trimmed.append {front back : String} (hfront : Trimmed front) (hback : Trimmed back)
    (middle : String) : Trimmed (front ++ (middle ++ back)) := by
  obtain ⟨⟨first, hfirst, hplain⟩, -⟩ := hfront
  obtain ⟨-, last, hlast, hplain'⟩ := hback
  refine ⟨⟨first, ?_, hplain⟩, last, ?_, hplain'⟩
  · rw [String.toList_append, List.head?_append, hfirst, Option.some_or]
  · rw [String.toList_append, String.toList_append, List.getLast?_append, List.getLast?_append,
      hlast, Option.some_or, Option.some_or]

end Text

namespace Line

open Text

/-- A text in quotation marks. -/
def quote (text : String) : String := "\"" ++ text ++ "\""

theorem toList_quote (text : String) : (quote text).toList = '"' :: (text.toList ++ ['"']) := by
  simp [quote]

/-- How a token is written in a line. -/
inductive Spelling where
  | quoted (token : String)
  | bare (token : String)
  deriving DecidableEq, Repr

namespace Spelling

def token : Spelling → String
  | quoted token => token
  | bare token => token

/-- What stands in the line. -/
def text : Spelling → String
  | quoted token => quote token
  | bare token => token

/-- The token can be written in this way. -/
def Fits : Spelling → Prop
  | quoted token => '"' ∉ token.toList
  | bare token => token ≠ "" ∧ ∀ c ∈ token.toList, IsPlain c

instance : (w : Spelling) → Decidable w.Fits
  | quoted _ => inferInstanceAs (Decidable (¬ _))
  | bare token =>
    -- only the characters of the token are tried, not all that there are
    @instDecidableAnd _ _ inferInstance (List.decidableBAll IsPlain token.toList)

end Spelling

/-- The line in which spellings stand with a blank between them. -/
def written (words : List Spelling) : String := String.intercalate " " (words.map Spelling.text)

/-- A line in which spellings stand, each behind the blanks that come with it, and blanks at the
end. -/
def spread (trail : String) : List (String × Spelling) → String
  | [] => trail
  | (gap, w) :: words => gap ++ (w.text ++ spread trail words)

/-- The spellings fit, only blanks stand around them, and at least one between two of them. -/
structure WellSpread (trail : String) (words : List (String × Spelling)) : Prop where
  fits : ∀ p ∈ words, p.2.Fits
  gaps : ∀ p ∈ words, ∀ c ∈ p.1.toList, isBlank c = true
  parted : ∀ p ∈ words.tail, p.1 ≠ ""
  trail : ∀ c ∈ trail.toList, isBlank c = true

instance (trail : String) (words : List (String × Spelling)) : Decidable (WellSpread trail words) :=
  have (s : String) : Decidable (∀ c ∈ s.toList, isBlank c = true) :=
    List.decidableBAll _ s.toList
  decidable_of_iff ((∀ p ∈ words, p.2.Fits) ∧ (∀ p ∈ words, ∀ c ∈ p.1.toList, isBlank c = true) ∧
      (∀ p ∈ words.tail, p.1 ≠ "") ∧ ∀ c ∈ trail.toList, isBlank c = true)
    ⟨fun h => ⟨h.1, h.2.1, h.2.2.1, h.2.2.2⟩, fun h => ⟨h.fits, h.gaps, h.parted, h.trail⟩⟩

theorem written_singleton (w : Spelling) : written [w] = w.text := String.intercalate_singleton

theorem written_cons_cons (w w' : Spelling) (words : List Spelling) :
    written (w :: w' :: words) = w.text ++ (" " ++ written (w' :: words)) := by
  rw [written, List.map_cons, List.map_cons, String.intercalate_cons_cons, String.append_assoc]
  rfl

/-- One blank between two spellings is one way to spread them. -/
theorem written_cons (w : Spelling) (words : List Spelling) :
    written (w :: words) = spread "" (("", w) :: words.map (" ", ·)) := by
  induction words generalizing w with
  | nil => simp [written_singleton, spread]
  | cons w' words ih => simp [written_cons_cons, ih, spread]

/-! ## Tokens -/

/-- A quotation without a mark in it goes on the token begun before it. -/
theorem tokensFrom_quotation {s : List Char} (h : '"' ∉ s) (begun : List Char) :
    tokensFrom ⟨true, some begun⟩ (s ++ ['"']) = [begun ++ s] := by
  induction s generalizing begun with
  | nil => simp [tokensFrom]
  | cons c s ih =>
    rw [List.mem_cons, not_or] at h
    rw [List.cons_append, tokensFrom_of_quoted (Ne.symm h.1), Option.getD_some, ih h.2]
    simp

theorem tokens_quotation {s : List Char} (h : '"' ∉ s) : tokens ('"' :: (s ++ ['"'])) = [s] := by
  rw [tokens, tokensFrom_quote]
  exact tokensFrom_quotation h []

theorem Spelling.Fits.tokens_text {w : Spelling} (h : w.Fits) :
    tokens w.text.toList = [w.token.toList] := by
  cases w with
  | quoted token =>
    rw [Spelling.text, toList_quote]
    exact tokens_quotation h
  | bare token =>
    have hne : token.toList ≠ [] := by simpa using h.1
    exact tokens_word hne h.2

theorem Spelling.Fits.even_count_quote {w : Spelling} (h : w.Fits) : Even (w.text.toList.count '"') := by
  cases w with
  | quoted token =>
    have hnone : token.toList.count '"' = 0 := List.count_eq_zero.2 h
    rw [Spelling.text, toList_quote, List.count_cons_self, List.count_append, hnone]
    decide
  | bare token =>
    rw [Spelling.text, count_quote_word h.2]
    exact Even.zero

/-- The first token of a line and the tokens of what stands apart from it. -/
theorem Spelling.Fits.tokenize_append {w : Spelling} (h : w.Fits) {rest : String}
    (hrest : StandsApart rest.toList) : tokenize (w.text ++ rest) = w.token :: tokenize rest := by
  rw [tokenize, String.toList_append, tokens_append h.even_count_quote hrest, h.tokens_text]
  simp [tokenize]

theorem tokenize_blanks_append {gap : String} (h : ∀ c ∈ gap.toList, isBlank c = true)
    (rest : String) : tokenize (gap ++ rest) = tokenize rest := by
  rw [tokenize, String.toList_append, tokens_blanks_append h, tokenize]

section Spread

variable {trail : String} {p : String × Spelling} {words : List (String × Spelling)}

theorem WellSpread.tail (h : WellSpread trail (p :: words)) : WellSpread trail words where
  fits q hq := h.fits q (List.mem_cons_of_mem _ hq)
  gaps q hq := h.gaps q (List.mem_cons_of_mem _ hq)
  parted q hq := h.parted q (List.mem_of_mem_tail hq)
  trail := h.trail

/-- What follows a spelling stands apart from it. -/
theorem WellSpread.standsApart (h : WellSpread trail (p :: words)) :
    StandsApart (spread trail words).toList := by
  cases words with
  | nil => exact fun c hc => h.trail c (List.mem_of_mem_head? hc)
  | cons q words =>
    have hne : q.1.toList ≠ [] := by simpa using h.parted q List.mem_cons_self
    intro c hc
    rw [spread, String.toList_append, List.head?_append_of_ne_nil _ hne] at hc
    exact h.tail.gaps q List.mem_cons_self c (List.mem_of_mem_head? hc)

/-- A line in which spellings are spread is cut into their tokens. -/
theorem WellSpread.tokenize_spread (h : WellSpread trail words) :
    tokenize (spread trail words) = words.map fun p => p.2.token := by
  induction words with
  | nil =>
    have hblank := tokenize_blanks_append h.trail ""
    rwa [String.append_empty] at hblank
  | cons p words ih =>
    rw [spread, tokenize_blanks_append (h.gaps p List.mem_cons_self),
      (h.fits p List.mem_cons_self).tokenize_append h.standsApart, ih h.tail, List.map_cons]

end Spread

theorem tokenize_written {words : List Spelling} (h : ∀ w ∈ words, w.Fits) :
    tokenize (written words) = words.map Spelling.token := by
  cases words with
  | nil => rfl
  | cons w words =>
    have hspace : ∀ c ∈ " ".toList, isBlank c = true := List.all_eq_true.1 (by decide)
    have hspread : WellSpread "" (("", w) :: words.map (" ", ·)) :=
      ⟨by simpa using h, by simpa using fun _ _ => hspace, by simp, by simp⟩
    rw [written_cons, hspread.tokenize_spread]
    simp

/-! ## The ends of a line -/

theorem Spelling.Fits.trimmed {w : Spelling} (h : w.Fits) : Trimmed w.text := by
  cases w with
  | quoted token =>
    rw [Spelling.text]
    refine ⟨⟨'"', ?_, by decide⟩, '"', ?_, by decide⟩
    · rw [toList_quote, List.head?_cons]
    · rw [toList_quote, ← List.cons_append, List.getLast?_concat]
  | bare token =>
    have hne : token.toList ≠ [] := by simpa using h.1
    exact ⟨⟨_, List.head?_eq_some_head hne, (h.2 _ (List.head_mem hne)).1⟩,
      _, List.getLast?_eq_some_getLast hne, (h.2 _ (List.getLast_mem hne)).1⟩

theorem trimmed_written {words : List Spelling} (hne : words ≠ []) (h : ∀ w ∈ words, w.Fits) :
    Trimmed (written words) := by
  induction words with
  | nil => exact absurd rfl hne
  | cons w words ih =>
    have hw := (h w List.mem_cons_self).trimmed
    cases words with
    | nil => rwa [written_singleton]
    | cons w' words =>
      rw [written_cons_cons]
      exact hw.append (ih (List.cons_ne_nil _ _) fun w hw => h w (List.mem_cons_of_mem _ hw)) " "

end Line

end VirtualShell
