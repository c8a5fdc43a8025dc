import Mathlib.Data.Bool.AllAny
import VirtualShell.Line.Alias
import VirtualShell.Proofs.Line.Tokens

/-!
# Aliases as substitution of tokens

An alias is expanded in the text of a line, before the line is cut into tokens. For a command word
without blanks and quotation marks this is the same as putting the tokens of the expansion in the
place of the word (`expandedTokens_of_word`): the first occurrence of the word is the word itself, as
there are only blanks before it, and an expansion whose quotations are closed shares no token with
what follows.
-/

namespace VirtualShell.Line

open Text

section Characters

variable {blanks word rest : List Char}

/-- The first occurrence of a word behind some blanks is the word itself. -/
theorem replaceFirst_word (hblanks : ∀ c ∈ blanks, isBlank c = true) (hne : word ≠ [])
    (hword : ∀ c ∈ word, IsPlain c) (new : List Char) :
    replaceFirst word new (blanks ++ (word ++ rest)) = blanks ++ (new ++ rest) := by
  obtain ⟨first, tail, rfl⟩ := List.exists_cons_of_ne_nil hne
  induction blanks with
  | nil =>
    have hprefix : (first :: tail).isPrefixOf (first :: (tail ++ rest)) = true :=
      List.isPrefixOf_iff_prefix.2 ⟨rest, rfl⟩
    have hdrop : (first :: tail ++ rest).drop (first :: tail).length = rest := List.drop_left
    rw [List.cons_append] at hdrop
    rw [List.nil_append, List.nil_append, List.cons_append, replaceFirst, if_pos hprefix, hdrop]
  | cons c blanks ih =>
    have hfirst : first ≠ c := by
      rintro rfl
      have hplain := (hword first List.mem_cons_self).1
      rw [hblanks first List.mem_cons_self] at hplain
      cases hplain
    have hnot : ¬ (first :: tail).isPrefixOf (c :: (blanks ++ (first :: tail ++ rest))) = true := by
      simp [List.isPrefixOf, hfirst]
    rw [List.cons_append, replaceFirst, if_neg hnot,
      ih fun c hc => hblanks c (List.mem_cons_of_mem _ hc)]
    rfl

/-- A line whose first word is plain does not begin with a quotation mark. -/
theorem head?_trimLeft_ne_quote (hblanks : ∀ c ∈ blanks, isBlank c = true) (hne : word ≠ [])
    (hword : ∀ c ∈ word, IsPlain c) :
    (trimLeft (blanks ++ (word ++ rest))).head? ≠ some '"' := by
  obtain ⟨first, tail, rfl⟩ := List.exists_cons_of_ne_nil hne
  have hplain := hword first List.mem_cons_self
  rw [trimLeft, List.dropWhile_append_of_pos hblanks, List.cons_append,
    List.dropWhile_cons_of_neg (by simp [hplain.1])]
  simpa using hplain.2

theorem tokens_blanks_word (hblanks : ∀ c ∈ blanks, isBlank c = true) (hne : word ≠ [])
    (hword : ∀ c ∈ word, IsPlain c) (hrest : StandsApart rest) :
    tokens (blanks ++ (word ++ rest)) = word :: tokens rest := by
  have hclosed : Even (word.count '"') := by
    rw [count_quote_word hword]
    exact Even.zero
  rw [tokens_blanks_append hblanks, tokens_append hclosed hrest, tokens_word hne hword]
  rfl

end Characters

/-- In a line that begins with a word of plain characters, blanks before it and a rest that stands
apart, a word that is an alias gives way to the tokens of its expansion, if the quotations of that are
closed. A word that is no alias stays. The rest is cut as it is. -/
theorem expandedTokens_of_word (aliases : OrderedMap String String) (blanks word rest : String)
    (hblanks : ∀ c ∈ blanks.toList, isBlank c = true) (hne : word ≠ "")
    (hword : ∀ c ∈ word.toList, IsPlain c) (hrest : StandsApart rest.toList) :
    (∀ expansion, aliases.get? word = some expansion → Even (expansion.toList.count '"') →
      expandedTokens aliases (blanks ++ word ++ rest) = tokenize expansion ++ tokenize rest) ∧
    (aliases.get? word = none →
      expandedTokens aliases (blanks ++ word ++ rest) = word :: tokenize rest) := by
  have hne' : word.toList ≠ [] := by simpa using hne
  have hline : (blanks ++ word ++ rest).toList = blanks.toList ++ (word.toList ++ rest.toList) := by
    rw [String.toList_append, String.toList_append, List.append_assoc]
  have htokens : tokenize (blanks ++ word ++ rest) = word :: tokenize rest := by
    rw [tokenize, hline, tokens_blanks_word hblanks hne' hword hrest, List.map_cons,
      String.ofList_toList, tokenize]
  have hunquoted : ¬ (trimLeft (blanks ++ word ++ rest).toList).head? = some '"' := by
    rw [hline]
    exact head?_trimLeft_ne_quote hblanks hne' hword
  have hexpand : expandAlias? aliases (blanks ++ word ++ rest) =
      (aliases.get? word).map fun expansion =>
        String.ofList (blanks.toList ++ (expansion.toList ++ rest.toList)) := by
    rw [expandAlias?, if_neg hunquoted, htokens, hline, List.head?_cons, Option.bind_eq_bind,
      Option.bind_some]
    cases aliases.get? word with
    | none => rfl
    | some expansion =>
      exact congrArg (fun line => some (String.ofList line))
        (replaceFirst_word hblanks hne' hword expansion.toList)
  constructor
  · intro expansion halias hclosed
    rw [expandedTokens, hexpand, halias, Option.map_some, Option.getD_some, tokenize,
      String.toList_ofList, tokens_blanks_append hblanks, tokens_append hclosed hrest,
      List.map_append, tokenize, tokenize]
  · intro halias
    rw [expandedTokens, hexpand, halias, Option.map_none, Option.getD_none, htokens]

/-- The expansion begins with an alias, and the rest holds the alias once more. -/
theorem expandedTokens_of_word_ll :
    let aliases := OrderedMap.ofList [("ll", "ls \"-la\""), ("ls", "echo no")]
    aliases.get? "ll" = some "ls \"-la\"" ∧ Even ("ls \"-la\"".toList.count '"') ∧
      expandedTokens aliases ("  " ++ "ll" ++ " \"my dir\" ll") = ["ls", "-la", "my dir", "ll"] ∧
      aliases.get? "cat" = none ∧
      expandedTokens aliases ("" ++ "cat" ++ " ll") = ["cat", "ll"] := by
  intro aliases
  have halias : aliases.get? "ll" = some "ls \"-la\"" := by decide
  have hclosed : Even ("ls \"-la\"".toList.count '"') := by decide
  have hnone : aliases.get? "cat" = none := by decide
  -- by `List.all` only the characters of the text are tried, not all that there are
  have hblanks : ∀ c ∈ "  ".toList, isBlank c = true := List.all_eq_true.1 (by decide)
  have hll : ∀ c ∈ "ll".toList, IsPlain c := List.all_iff_forall_prop.1 (by decide)
  have hcat : ∀ c ∈ "cat".toList, IsPlain c := List.all_iff_forall_prop.1 (by decide)
  refine ⟨halias, hclosed, ?_, hnone, ?_⟩
  · rw [(expandedTokens_of_word aliases "  " "ll" " \"my dir\" ll" hblanks (by decide) hll
      (by rintro c ⟨⟩; decide)).1 _ halias hclosed]
    decide
  · rw [(expandedTokens_of_word aliases "" "cat" " ll" (by simp) (by decide) hcat
      (by rintro c ⟨⟩; decide)).2 hnone]
    decide

end VirtualShell.Line
