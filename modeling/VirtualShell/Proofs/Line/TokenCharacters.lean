import VirtualShell.Proofs.Line.Quoting

/-!
# The characters of a line that reach its tokens

A place of a line lies in a quotation if an odd number of quotation marks stand before it; a quotation
that is not closed reaches to the end of the line. The tokens, one behind the other, are the line
without its marks and without the blanks outside of quotations (`flatten_tokensFrom`). This is so for
every line, and `WellSpread.tokenize_spread` says of a line that was put together where its tokens
begin and end. The two together are `tokenize_spread_and_join`.
-/

namespace VirtualShell.Line

open Text

/-- The characters of a text that reach the tokens, if a number of marks stand before the text. -/
def significantAfter (marks : Nat) (line : List Char) : List Char :=
  (line.zipIdx.filter fun p => p.1 ≠ '"' ∧
    ¬ (isBlank p.1 = true ∧ Even (marks + (line.take p.2).count '"'))).map Prod.fst

/-- The characters of a line that reach its tokens: all but the marks and the blanks before which an
even number of marks stand. -/
def significant (line : List Char) : List Char := significantAfter 0 line

theorem significantAfter_cons (marks : Nat) (c : Char) (r : List Char) :
    significantAfter marks (c :: r) =
      (if c ≠ '"' ∧ ¬ (isBlank c = true ∧ Even marks) then [c] else []) ++
        significantAfter (marks + [c].count '"') r := by
  -- a place behind the first character is one place further on in the whole text
  have hrest : ((r.zipIdx 1).filter fun p => p.1 ≠ '"' ∧
      ¬ (isBlank p.1 = true ∧ Even (marks + ((c :: r).take p.2).count '"'))).map Prod.fst =
        significantAfter (marks + [c].count '"') r := by
    rw [List.zipIdx_succ, List.filter_map, List.map_map, significantAfter]
    refine congrArg (fun l => List.map Prod.fst l) (List.filter_congr fun p _ => ?_)
    have hcount : marks + ((c :: r).take (p.2 + 1)).count '"' =
        marks + [c].count '"' + (r.take p.2).count '"' := by
      rw [List.take_succ_cons, ← List.singleton_append, List.count_append, Nat.add_assoc]
    simp only [Function.comp_apply, hcount]
  have hfirst : marks + ((c :: r).take 0).count '"' = marks := rfl
  rw [← hrest, significantAfter, List.zipIdx_cons, List.filter_cons]
  simp only [hfirst, decide_eq_true_eq]
  split_ifs <;> rfl

theorem significantAfter_quote (marks : Nat) (r : List Char) :
    significantAfter marks ('"' :: r) = significantAfter (marks + 1) r := by
  rw [significantAfter_cons, if_neg (by simp)]
  rfl

theorem significantAfter_of_ne {c : Char} (hc : c ≠ '"') (marks : Nat) (r : List Char) :
    significantAfter marks (c :: r) =
      (if isBlank c = true ∧ Even marks then [] else [c]) ++ significantAfter marks r := by
  have hcount : [c].count '"' = 0 := List.count_eq_zero.2 (by simpa using Ne.symm hc)
  rw [significantAfter_cons, hcount, Nat.add_zero]
  simp only [ne_eq, hc, not_false_eq_true, true_and]
  split_ifs <;> rfl

theorem not_mem_significant (line : List Char) : '"' ∉ significant line := by
  intro h
  obtain ⟨p, hp, hc⟩ := List.mem_map.1 h
  have hkept := of_decide_eq_true (List.mem_filter.1 hp).2
  exact hkept.1 hc

/-- The characters of the token begun go before those of the text that reach the tokens, if the
number of marks before the text tells whether a quotation is open. -/
theorem flatten_tokensFrom {s : Scan} {marks : Nat} (hmarks : s.quoted = false ↔ Even marks)
    (line : List Char) :
    (tokensFrom s line).flatten = s.token.getD [] ++ significantAfter marks line := by
  -- the equivalence is kept from one character to the next
  induction line generalizing s marks with
  | nil => cases htoken : s.token <;> simp [tokensFrom, htoken, significantAfter]
  | cons c r ih =>
    obtain ⟨quoted, token⟩ := s
    by_cases hquote : c = '"'
    · subst hquote
      have hnext : (!quoted) = false ↔ Even (marks + 1) := by
        rw [Nat.even_add_one, ← hmarks]
        simp
      rw [tokensFrom_quote, ih (s := ⟨!quoted, some (token.getD [])⟩) hnext,
        significantAfter_quote]
      rfl
    · rw [significantAfter_of_ne hquote]
      by_cases hends : isBlank c = true ∧ Even marks
      · obtain rfl : quoted = false := hmarks.2 hends.2
        rw [tokensFrom_blank hends.1, List.flatten_append, if_pos hends, List.nil_append, tokens,
          ih (s := .start) hmarks]
        cases token <;> simp [Scan.start]
      · have hgoes : ¬ (isBlank c && !quoted) = true := by simpa [hmarks] using hends
        rw [tokensFrom, if_neg hquote, if_neg hgoes, if_neg hends,
          ih (s := ⟨quoted, some (token.getD [] ++ [c])⟩) hmarks]
        simp

/-- The tokens of a line, one behind the other. -/
theorem flatten_tokens (line : List Char) : (tokens line).flatten = significant line := by
  have hstart : Scan.start.quoted = false ↔ Even 0 := by decide
  exact flatten_tokensFrom hstart line

/-- No token holds a mark. -/
theorem not_mem_of_mem_tokens {line token : List Char} (h : token ∈ tokens line) : '"' ∉ token := by
  intro hmark
  refine not_mem_significant line ?_
  rw [← flatten_tokens]
  exact List.mem_flatten.2 ⟨token, h, hmark⟩

/-- Tokens that are written in quotation marks, or bare where they can be, with blanks between them
and around them, are the tokens of the line. The tokens of any line, one behind the other, are its
characters without the marks and without the blanks outside of quotations, and no mark is left in
them. -/
theorem tokenize_spread_and_join :
    (∀ trail words, WellSpread trail words →
      tokenize (spread trail words) = words.map fun p => p.2.token) ∧
    ∀ line : String, String.join (tokenize line) = String.ofList (significant line.toList) ∧
      ∀ token ∈ tokenize line, '"' ∉ token.toList := by
  refine ⟨fun trail words h => h.tokenize_spread, fun line => ⟨?_, fun token htoken => ?_⟩⟩
  · rw [← String.toList_inj, String.toList_join, String.toList_ofList, ← flatten_tokens, tokenize,
      List.flatMap_map]
    simp [List.flatMap_id']
  · obtain ⟨chars, hchars, rfl⟩ := List.mem_map.1 htoken
    rw [String.toList_ofList]
    exact not_mem_of_mem_tokens hchars

/-- Tokens that are empty, that hold blanks, and that are written in either way, between blanks of
several kinds. -/
theorem tokenize_spread_and_join_of_four :
    let words := [("\t", Spelling.bare "a"), ("\u3000 ", .quoted ""), (" ", .quoted " b\u00a0c "),
      ("\n", .quoted "d")]
    WellSpread " " words ∧ tokenize (spread " " words) = ["a", "", " b\u00a0c ", "d"] ∧
      String.join (tokenize (spread " " words)) = "a b\u00a0c d" := by
  intro words
  have h : WellSpread " " words := by decide
  have htokens := tokenize_spread_and_join.1 " " words h
  refine ⟨h, htokens, ?_⟩
  rw [(tokenize_spread_and_join.2 _).1]
  decide

end VirtualShell.Line
