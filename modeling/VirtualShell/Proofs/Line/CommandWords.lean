import Mathlib.Data.List.TakeWhile
import VirtualShell.Proofs.Line.Aliases

/-!
# Command words with quotation marks

The command word of a line is what stands before the first blank outside of quotations, as it is
written. Without its marks it is the first token, and what follows it is cut into the other tokens
(`exists_commandWord`). An alias is looked up by the first token but searched for in the text of the
line, so that it makes a difference where the command word holds quotation marks
(`expandedTokens_of_tokens`): a word without marks gives way to the tokens of its expansion, a word
that begins with a mark stays, and for a word with marks behind its first character the expansion
goes to the first place of the line, if there is one, where the token stands without marks. That
place can lie in an argument (`argument_expanded_of_partlyQuoted`).
-/

namespace VirtualShell.Line

open Text

/-- The first word of a text as it is written: what stands before the first blank outside of
quotations. It is known whether a quotation is open before the text. -/
def writtenWord : Bool → List Char → List Char
  | _, [] => []
  | quoted, c :: r =>
    if c = '"' then c :: writtenWord (!quoted) r
    else if isBlank c && !quoted then []
    else c :: writtenWord quoted r

/-- The command word of a line as it is written. -/
def commandWord (line : List Char) : List Char := writtenWord false (trimLeft line)

/-- A word without its quotation marks. -/
def unquoted (word : List Char) : List Char := word.filter (· ≠ '"')

/-- A word that holds a quotation mark, but does not begin with one. -/
def PartlyQuoted (word : List Char) : Prop := '"' ∈ word ∧ word.head? ≠ some '"'

instance (word : List Char) : Decidable (PartlyQuoted word) := inferInstanceAs (Decidable (_ ∧ _))

/-! ## The first word of a text -/

/-- In the middle of a token the rest of the word goes to the token, and the tokens of what stands
behind the word follow. -/
theorem tokensFrom_writtenWord (quoted : Bool) (s : List Char) :
    ∃ rest, s = writtenWord quoted s ++ rest ∧ StandsApart rest ∧
      ∀ begun, tokensFrom ⟨quoted, some begun⟩ s =
        (begun ++ unquoted (writtenWord quoted s)) :: tokens rest := by
  induction s generalizing quoted with
  | nil =>
    refine ⟨[], rfl, by simp [StandsApart], fun begun => ?_⟩
    simp [tokensFrom, tokens, writtenWord, unquoted, Scan.start]
  | cons c r ih =>
    by_cases hquote : c = '"'
    · obtain ⟨rest, hr, hrest, htokens⟩ := ih (!quoted)
      have hword : writtenWord quoted (c :: r) = c :: writtenWord (!quoted) r := by
        rw [writtenWord, if_pos hquote]
      refine ⟨rest, by rw [hword, List.cons_append, ← hr], hrest, fun begun => ?_⟩
      rw [hword, hquote, tokensFrom_quote]
      simpa [unquoted] using htokens begun
    · by_cases hends : (isBlank c && !quoted) = true
      · have hword : writtenWord quoted (c :: r) = [] := by
          rw [writtenWord, if_neg hquote, if_pos hends]
        have hblank : isBlank c = true := (Bool.and_eq_true_iff.1 hends).1
        have hopen : quoted = false := by simpa using (Bool.and_eq_true_iff.1 hends).2
        refine ⟨c :: r, by rw [hword, List.nil_append], ?_, fun begun => ?_⟩
        · rintro d ⟨⟩
          exact hblank
        · rw [hword, hopen, tokensFrom_blank hblank, tokens_blank hblank]
          simp [unquoted]
      · obtain ⟨rest, hr, hrest, htokens⟩ := ih quoted
        have hword : writtenWord quoted (c :: r) = c :: writtenWord quoted r := by
          rw [writtenWord, if_neg hquote, if_neg hends]
        refine ⟨rest, by rw [hword, List.cons_append, ← hr], hrest, fun begun => ?_⟩
        rw [hword, tokensFrom, if_neg hquote, if_neg hends, Option.getD_some, htokens]
        simp [unquoted, hquote]

/-- Before a quotation is opened a word goes on as long as its characters are plain. -/
theorem isPlain_of_mem_writtenWord {s : List Char} (hmarks : '"' ∉ writtenWord false s) :
    ∀ c ∈ writtenWord false s, IsPlain c := by
  induction s with
  | nil => simp [writtenWord]
  | cons c r ih =>
    by_cases hquote : c = '"'
    · rw [writtenWord, if_pos hquote, hquote] at hmarks
      exact absurd List.mem_cons_self hmarks
    · by_cases hblank : isBlank c = true
      · simp [writtenWord, hquote, hblank]
      · have hword : writtenWord false (c :: r) = c :: writtenWord false r := by
          rw [writtenWord, if_neg hquote, if_neg (by simpa using hblank)]
        rw [hword, List.mem_cons, not_or] at hmarks
        rw [hword]
        intro d hd
        rcases List.mem_cons.1 hd with rfl | hd
        · exact ⟨by simpa using hblank, hquote⟩
        · exact ih hmarks.2 d hd

theorem unquoted_of_not_mem {word : List Char} (hmarks : '"' ∉ word) : unquoted word = word := by
  refine List.filter_eq_self.2 fun c hc => ?_
  have hne : c ≠ '"' := fun h => hmarks (h ▸ hc)
  simpa using hne

theorem exists_writtenWord_eq_cons {c : Char} (hplain : isBlank c = false) (r : List Char) :
    ∃ tail, writtenWord false (c :: r) = c :: tail := by
  by_cases hquote : c = '"'
  · exact ⟨_, by rw [writtenWord, if_pos hquote]⟩
  · exact ⟨_, by rw [writtenWord, if_neg hquote, if_neg (by simp [hplain])]⟩

/-- A text that does not begin with a blank begins with a token, which may be empty. -/
theorem tokens_eq_of_not_isBlank {c : Char} (hplain : isBlank c = false) (r : List Char) :
    tokens (c :: r) = tokensFrom ⟨false, some []⟩ (c :: r) := by
  rw [tokens, Scan.start, tokensFrom, tokensFrom]
  simp [hplain]

/-! ## The command word of a line -/

/-- A line that has tokens consists of blanks, its command word and a rest. The command word without
its marks is the first token, and the rest holds the others. -/
theorem exists_commandWord {line first : List Char} {others : List (List Char)}
    (h : tokens line = first :: others) :
    ∃ blanks rest, line = blanks ++ (commandWord line ++ rest) ∧
      (∀ c ∈ blanks, isBlank c = true) ∧ commandWord line ≠ [] ∧
      (trimLeft line).head? = (commandWord line).head? ∧ first = unquoted (commandWord line) ∧
      StandsApart rest ∧ others = tokens rest := by
  have hblanks : ∀ c ∈ line.takeWhile isBlank, isBlank c = true := fun c hc =>
    List.mem_takeWhile_imp hc
  have hline : line = line.takeWhile isBlank ++ trimLeft line :=
    List.takeWhile_append_dropWhile.symm
  have htrimmed : tokens (trimLeft line) = first :: others := by
    rw [← tokens_blanks_append hblanks, ← hline]
    exact h
  obtain ⟨rest, hcut, hrest, htokens⟩ := tokensFrom_writtenWord false (trimLeft line)
  cases htrim : trimLeft line with
  | nil =>
    rw [htrim] at htrimmed
    cases htrimmed
  | cons c r =>
    have hplain : isBlank c = false := by
      have hhead := List.head?_dropWhile_not isBlank line
      rw [show line.dropWhile isBlank = c :: r from htrim] at hhead
      simpa using hhead
    obtain ⟨tail, hbegins⟩ := exists_writtenWord_eq_cons hplain r
    have hword : commandWord line = c :: tail := by rw [commandWord, htrim, hbegins]
    rw [htrim] at htrimmed hcut htokens
    rw [tokens_eq_of_not_isBlank hplain, htokens [], List.nil_append, List.cons.injEq] at htrimmed
    refine ⟨line.takeWhile isBlank, rest, ?_, hblanks, ?_, ?_, ?_, hrest, htrimmed.2.symm⟩
    · rw [hword, ← hbegins, ← hcut, ← htrim]
      exact hline
    · rw [hword]
      exact List.cons_ne_nil c tail
    · rw [hword, List.head?_cons, List.head?_cons]
    · rw [hword, ← hbegins]
      exact htrimmed.1.symm

/-! ## Aliases -/

/-- One occurrence of a text gives way, or there is none. -/
theorem replaceFirst_cases (old new s : List Char) :
    replaceFirst old new s = s ∨
      ∃ front back, s = front ++ old ++ back ∧ replaceFirst old new s = front ++ new ++ back := by
  induction s with
  | nil =>
    by_cases hold : old = []
    · exact Or.inr ⟨[], [], by simp [hold], by simp [replaceFirst, hold]⟩
    · exact Or.inl (by simp [replaceFirst, hold])
  | cons c s ih =>
    by_cases hhere : old.isPrefixOf (c :: s) = true
    · obtain ⟨back, hback⟩ := List.isPrefixOf_iff_prefix.1 hhere
      refine Or.inr ⟨[], back, by rw [List.nil_append, hback], ?_⟩
      rw [replaceFirst, if_pos hhere, ← hback, List.drop_left, List.nil_append]
    · rw [replaceFirst, if_neg hhere]
      rcases ih with hnone | ⟨front, back, hs, hreplaced⟩
      · exact Or.inl (by rw [hnone])
      · exact Or.inr ⟨c :: front, back, by rw [hs]; rfl, by rw [hreplaced]; rfl⟩

/-- The tokens of a line whose first token is an alias, unless the line begins with a mark. -/
theorem expandedTokens_of_alias {aliases : OrderedMap String String} {line first expansion : String}
    (hfirst : (tokenize line).head? = some first)
    (hunquoted : (trimLeft line.toList).head? ≠ some '"')
    (halias : aliases.get? first = some expansion) :
    expandedTokens aliases line =
      (tokens (replaceFirst first.toList expansion.toList line.toList)).map String.ofList := by
  rw [expandedTokens, expandAlias?, if_neg hunquoted, hfirst, Option.bind_eq_bind,
    Option.bind_some, halias, Option.bind_some]
  exact congrArg (fun s => (tokens s).map String.ofList) String.toList_ofList

theorem expandedTokens_of_expandAlias?_eq_none {aliases : OrderedMap String String} {line : String}
    (h : expandAlias? aliases line = none) : expandedTokens aliases line = tokenize line := by
  rw [expandedTokens, h, Option.getD_none]

/-- In a line whose first token is no alias, or whose command word holds quotation marks, the tokens
stay as they are. An alias that is written without marks gives way to the tokens of its expansion,
if the quotations of that are closed, and the other tokens stay. The only exception is an alias that
is written with marks behind its first character and stands without marks in some place of the
line: there its expansion is put in the text. -/
theorem expandedTokens_of_tokens (aliases : OrderedMap String String) (line first : String)
    (others : List String) (htokens : tokenize line = first :: others)
    (hclosed : ∀ name expansion, aliases.get? name = some expansion →
      Even (expansion.toList.count '"')) :
    (expandedTokens aliases line = first :: others ∧
      (aliases.get? first = none ∨ '"' ∈ commandWord line.toList)) ∨
    (∃ expansion, aliases.get? first = some expansion ∧ '"' ∉ commandWord line.toList ∧
      expandedTokens aliases line = tokenize expansion ++ others) ∨
    (PartlyQuoted (commandWord line.toList) ∧ ∃ expansion front back,
      aliases.get? first = some expansion ∧ line = front ++ first ++ back ∧
      expandedTokens aliases line = tokenize (front ++ expansion ++ back)) := by
  have hchars : tokens line.toList = first.toList :: others.map String.toList := by
    have h := congrArg (List.map String.toList) htokens
    simpa [tokenize, Function.comp_def] using h
  obtain ⟨blanks, rest, hline, hblanks, hne, hhead, hfirst, hrest, hothers⟩ :=
    exists_commandWord hchars
  cases halias : aliases.get? first with
  | none =>
    have hnone : expandAlias? aliases line = none := by
      simp [expandAlias?, htokens, halias]
    exact Or.inl ⟨(expandedTokens_of_expandAlias?_eq_none hnone).trans htokens, Or.inl rfl⟩
  | some expansion =>
    by_cases hbegins : (commandWord line.toList).head? = some '"'
    · have hnone : expandAlias? aliases line = none := by
        rw [expandAlias?, if_pos (hhead.trans hbegins)]
      exact Or.inl ⟨(expandedTokens_of_expandAlias?_eq_none hnone).trans htokens,
        Or.inr (List.mem_of_mem_head? hbegins)⟩
    · have hexpand := expandedTokens_of_alias (by rw [htokens, List.head?_cons])
        (hhead.trans_ne hbegins) halias
      by_cases hmarks : '"' ∈ commandWord line.toList
      · rcases replaceFirst_cases first.toList expansion.toList line.toList with
          hsame | ⟨front, back, hplace, hreplaced⟩
        · rw [hsame] at hexpand
          exact Or.inl ⟨hexpand.trans htokens, Or.inr hmarks⟩
        · refine Or.inr (Or.inr ⟨⟨hmarks, hbegins⟩, expansion, String.ofList front,
            String.ofList back, rfl, ?_, ?_⟩)
          · rw [← String.toList_inj, hplace]
            simp
          · rw [hexpand, hreplaced, tokenize]
            simp
      · have hplain : ∀ c ∈ commandWord line.toList, IsPlain c := isPlain_of_mem_writtenWord hmarks
        rw [unquoted_of_not_mem hmarks] at hfirst
        rw [hline, hfirst, replaceFirst_word hblanks hne hplain, tokens_blanks_append hblanks,
          tokens_append (hclosed first expansion halias) hrest, List.map_append,
          ← hothers] at hexpand
        refine Or.inr (Or.inl ⟨expansion, rfl, hmarks, ?_⟩)
        rw [hexpand, tokenize]
        simp

/-- A command word with marks behind its first character that stands nowhere without them. -/
theorem expandedTokens_of_tokens_partly_quoted :
    let aliases := OrderedMap.ofList [("ll", "ls \"-la\"")]
    let line := "l\"l\" \"my dir\" l"
    tokenize line = "ll" :: ["my dir", "l"] ∧
      (∀ name expansion, aliases.get? name = some expansion →
        Even (expansion.toList.count '"')) ∧
      PartlyQuoted (commandWord line.toList) ∧
      expandedTokens aliases line = ["ll", "my dir", "l"] := by
  intro aliases line
  have htokens : tokenize line = "ll" :: ["my dir", "l"] := by decide
  have hclosed : ∀ name expansion, aliases.get? name = some expansion →
      Even (expansion.toList.count '"') := by
    intro name expansion h
    have hentry : (name, expansion) ∈ [("ll", "ls \"-la\"")] := OrderedMap.mem_entries_iff.2 h
    rw [List.mem_singleton, Prod.mk.injEq] at hentry
    rw [hentry.2]
    decide
  have hpartly : PartlyQuoted (commandWord line.toList) := by decide
  have hnowhere : ¬ ['l', 'l'] <:+: line.toList := by
    have hline : line.toList = ['l', '"', 'l', '"', ' ', '"', 'm', 'y', ' ', 'd', 'i', 'r', '"',
      ' ', 'l'] := by decide
    simp [hline, List.infix_cons_iff]
  refine ⟨htokens, hclosed, hpartly, ?_⟩
  rcases expandedTokens_of_tokens aliases line "ll" ["my dir", "l"] htokens hclosed with
    ⟨hsame, -⟩ | ⟨_, -, hmarks, -⟩ | ⟨-, _, front, back, -, hplace, -⟩
  · exact hsame
  · exact absurd hpartly.1 hmarks
  · refine absurd ⟨front.toList, back.toList, ?_⟩ hnowhere
    rw [hplace, String.toList_append, String.toList_append]
    rfl

/-- Where the command word holds quotation marks and an argument is the same word without them, the
alias is expanded in the argument. -/
theorem argument_expanded_of_partlyQuoted :
    let aliases := OrderedMap.ofList [("ll", "ls -la")]
    let line := "l\"l\" ll"
    tokenize line = "ll" :: ["ll"] ∧ Even ("ls -la".toList.count '"') ∧
      expandedTokens aliases line = ["ll", "ls", "-la"] ∧
      ¬ (expandedTokens aliases line = "ll" :: ["ll"] ∨
        ∃ expansion, aliases.get? "ll" = some expansion ∧
          expandedTokens aliases line = tokenize expansion ++ ["ll"]) := by
  intro aliases line
  have hexpanded : expandedTokens aliases line = ["ll", "ls", "-la"] := by decide
  refine ⟨by decide, by decide, hexpanded, ?_⟩
  rw [hexpanded]
  rintro (hsame | ⟨expansion, halias, hsubstituted⟩)
  · exact absurd hsame (by decide)
  · have hll : aliases.get? "ll" = some "ls -la" := by decide
    rw [hll, Option.some.injEq] at halias
    subst halias
    exact absurd hsubstituted (by decide)

end VirtualShell.Line
