import VirtualShell.Proofs.Shell.ReadBack

/-!
# Aliases that are defined in single quotes

A line is cut at blanks also between single quotes, and the arguments that a quoted value was cut into
are joined with one space each. So what is stored is the value in which every run of blanks has given
way to one space (`exec_definitionLine`), and just the values whose blanks are single spaces are kept
as they are (`squeeze_eq_self_iff`).
-/

namespace VirtualShell

/-! ## Runs of blanks -/

namespace Text

variable {c : Char} {s : List Char}

/-- A text in which every run of blanks has given way to one space. -/
def squeeze : List Char → List Char
  | [] => []
  | c :: s =>
    if isBlank c then if s.head?.any isBlank then squeeze s else ' ' :: squeeze s
    else c :: squeeze s

theorem squeeze_of_plain (hc : isBlank c = false) (s : List Char) :
    squeeze (c :: s) = c :: squeeze s := by
  rw [squeeze, if_neg (by simp [hc])]

theorem squeeze_blank_blank (hc : isBlank c = true) (hs : s.head?.any isBlank = true) :
    squeeze (c :: s) = squeeze s := by
  rw [squeeze, if_pos hc, if_pos hs]

theorem squeeze_blank_plain (hc : isBlank c = true) (hs : ¬ s.head?.any isBlank = true) :
    squeeze (c :: s) = ' ' :: squeeze s := by
  rw [squeeze, if_pos hc, if_neg hs]

theorem length_squeeze_le (s : List Char) : (squeeze s).length ≤ s.length := by
  fun_induction squeeze s with
  | case1 => exact Nat.le_refl _
  | case2 c s _ _ ih => exact Nat.le_succ_of_le ih
  | case3 c s _ _ ih => exact Nat.succ_le_succ ih
  | case4 c s _ ih => exact Nat.succ_le_succ ih

/-- The texts whose blanks are single spaces stay as they are. -/
theorem squeeze_eq_self_iff : squeeze s = s ↔
    (∀ c ∈ s, isBlank c = true → c = ' ') ∧ ¬ [' ', ' '] <:+: s := by
  induction s with
  | nil => simp [squeeze]
  | cons c s ih =>
    have hspace : isBlank ' ' = true := by decide
    rw [List.forall_mem_cons, List.infix_cons_iff]
    by_cases hc : isBlank c = true
    · by_cases hs : s.head?.any isBlank = true
      · rw [squeeze_blank_blank hc hs]
        obtain ⟨d, s, rfl⟩ : ∃ d r, s = d :: r := by
          cases s with
          | nil => cases hs
          | cons d r => exact ⟨d, r, rfl⟩
        refine iff_of_false (fun heq => ?_) ?_
        · have hle := length_squeeze_le (d :: s)
          rw [heq] at hle
          exact absurd hle (Nat.not_succ_le_self _)
        · rintro ⟨⟨hfirst, hrest⟩, hnot⟩
          obtain rfl := hfirst hc
          obtain rfl := hrest d List.mem_cons_self hs
          exact hnot (.inl (List.prefix_append [' ', ' '] s))
      · have hprefix : ¬ [' ', ' '] <+: c :: s := by
          rintro ⟨r, hr⟩
          obtain ⟨-, rfl⟩ := List.cons.inj hr
          exact hs hspace
        rw [squeeze_blank_plain hc hs, List.cons.injEq, ih, @eq_comm _ ' ' c]
        simp only [hc, true_imp_iff, hprefix, false_or, and_assoc]
    · have hprefix : ¬ [' ', ' '] <+: c :: s := by
        rintro ⟨r, hr⟩
        obtain ⟨rfl, -⟩ := List.cons.inj hr
        exact hc hspace
      rw [squeeze_of_plain (by simpa using hc), List.cons.injEq, ih]
      simp [hc, hprefix]

end Text

/-! ## The tokens of a value in single quotes -/

namespace Line

open Text

variable {s : List Char}

theorem tokensFrom_ne_nil (quoted : Bool) (begun r : List Char) :
    tokensFrom ⟨quoted, some begun⟩ r ≠ [] := by
  induction r generalizing quoted begun with
  | nil => exact List.cons_ne_nil _ _
  | cons c r ih =>
    rw [tokensFrom]
    split
    · exact ih _ _
    · split
      · exact List.cons_ne_nil _ _
      · exact ih _ _

/-- A quote behind a text belongs to the last token, and the tokens, with a space between them, are the
text with its runs of blanks squeezed. -/
theorem intercalate_tokensFrom (h : '"' ∉ s) (begun : List Char) :
    [' '].intercalate (tokensFrom ⟨false, some begun⟩ (s ++ ['\x27'])) =
      begun ++ (squeeze s ++ ['\x27']) := by
  have hquote : IsPlain '\x27' := by decide
  induction s generalizing begun with
  | nil =>
    rw [List.nil_append, tokensFrom_plain hquote]
    simp [tokensFrom, squeeze]
  | cons c s ih =>
    rw [List.mem_cons, not_or] at h
    by_cases hc : isBlank c = true
    · rw [List.cons_append, tokensFrom_blank hc]
      by_cases hs : s.head?.any isBlank = true
      · -- the next blank would end the token as well
        have hstands : StandsApart (s ++ ['\x27']) := by
          intro d hd
          cases s with
          | nil => cases hs
          | cons d' s =>
            obtain rfl := Option.some.inj hd
            exact hs
        rw [← tokensFrom_of_standsApart hstands, ih h.2, squeeze_blank_blank hc hs]
      · have htokens : tokens (s ++ ['\x27']) = tokensFrom ⟨false, some []⟩ (s ++ ['\x27']) := by
          cases s with
          | nil => rfl
          | cons d s =>
            have hd : IsPlain d := ⟨by simpa using hs, fun heq => h.2 (by simp [heq])⟩
            rw [List.cons_append, tokens, tokensFrom_plain hd, tokensFrom_plain hd]
            rfl
        rw [htokens, Option.toList_some, List.singleton_append,
          List.intercalate_cons_of_ne_nil (tokensFrom_ne_nil _ _ _), ih h.2,
          squeeze_blank_plain hc hs]
        simp
    · have hplain : IsPlain c := ⟨by simpa using hc, Ne.symm h.1⟩
      rw [List.cons_append, tokensFrom_plain hplain, Option.getD_some, ih h.2,
        squeeze_of_plain hplain.1]
      simp

/-- Only the last token ends with the quote. -/
theorem exists_last_tokensFrom (h : '"' ∉ s) (hs : '\x27' ∉ s) {token : Option (List Char)}
    (htoken : ∀ begun ∈ token, '\x27' ∉ begun) :
    ∃ front last, tokensFrom ⟨false, token⟩ (s ++ ['\x27']) = front ++ [last ++ ['\x27']] ∧
      ∀ t ∈ front, '\x27' ∉ t := by
  have hquote : IsPlain '\x27' := by decide
  induction s generalizing token with
  | nil =>
    refine ⟨[], token.getD [], ?_, nofun⟩
    rw [List.nil_append, tokensFrom_plain hquote]
    rfl
  | cons c s ih =>
    rw [List.mem_cons, not_or] at h hs
    by_cases hc : isBlank c = true
    · have hnone : ∀ begun ∈ (none : Option (List Char)), '\x27' ∉ begun := nofun
      obtain ⟨front, last, heq, hfront⟩ := ih h.2 hs.2 hnone
      refine ⟨token.toList ++ front, last, ?_, ?_⟩
      · rw [List.cons_append, tokensFrom_blank hc, tokens, Scan.start, heq, List.append_assoc]
      · intro t ht
        rcases List.mem_append.1 ht with ht | ht
        · exact htoken t (Option.mem_toList.1 ht)
        · exact hfront t ht
    · have hplain : IsPlain c := ⟨by simpa using hc, Ne.symm h.1⟩
      rw [List.cons_append, tokensFrom_plain hplain]
      refine ih h.2 hs.2 ?_
      rintro _ ⟨⟩
      cases token with
      | none => simpa using hs.1
      | some begun => simpa [hs.1] using htoken begun rfl

/-- A token goes on to the quote, or it ends before and the quote ends the last of the tokens behind
it. -/
theorem tokensFrom_quote_cases (h : '"' ∉ s) (hs : '\x27' ∉ s) (begun : List Char) :
    tokensFrom ⟨false, some begun⟩ (s ++ ['\x27']) = [begun ++ (s ++ ['\x27'])] ∨
      ∃ more front last, '\x27' ∉ more ∧ (∀ t ∈ front, '\x27' ∉ t) ∧
        tokensFrom ⟨false, some begun⟩ (s ++ ['\x27']) =
          (begun ++ more) :: (front ++ [last ++ ['\x27']]) := by
  induction s generalizing begun with
  | nil => exact .inl rfl
  | cons c s ih =>
    rw [List.mem_cons, not_or] at h hs
    by_cases hc : isBlank c = true
    · have hnone : ∀ begun ∈ (none : Option (List Char)), '\x27' ∉ begun := nofun
      obtain ⟨front, last, heq, hfront⟩ := exists_last_tokensFrom h.2 hs.2 hnone
      refine .inr ⟨[], front, last, nofun, hfront, ?_⟩
      rw [List.cons_append, tokensFrom_blank hc, tokens, Scan.start, heq, List.append_nil]
      rfl
    · have hplain : IsPlain c := ⟨by simpa using hc, Ne.symm h.1⟩
      rw [List.cons_append, tokensFrom_plain hplain, Option.getD_some]
      rcases ih h.2 hs.2 (begun ++ [c]) with heq | ⟨more, front, last, hmore, hfront, heq⟩
      · exact .inl (heq.trans (by simp))
      · refine .inr ⟨c :: more, front, last, ?_, hfront, heq.trans (by simp)⟩
        simpa using ⟨hs.1, hmore⟩

end Line

/-! ## The arguments of the command -/

namespace Command

open Line

variable {name : String}

/-- A text in single quotes. -/
def singleQuote (value : String) : String := "\x27" ++ value ++ "\x27"

theorem toList_singleQuote (value : String) :
    (singleQuote value).toList = '\x27' :: (value.toList ++ ['\x27']) := by
  simp [singleQuote]

theorem stripQuotes_singleQuote (value : String) : stripQuotes (singleQuote value) = value := by
  have hquoted : isQuotedBy '\x27' ('\x27' :: (value.toList ++ ['\x27'])) = true := by
    simp [isQuotedBy, List.getLast?_cons]
  rw [stripQuotes, toList_singleQuote]
  simp only [hquoted, Bool.true_or, if_true, List.drop_succ_cons, List.drop_zero,
    List.dropLast_concat, String.ofList_toList]

/-- The name ends at the equals sign, so that the value tells whether a quote is open. -/
theorem opensQuote_append (hname : '=' ∉ name.toList) (value : String) :
    opensQuote (name ++ "=" ++ value) = (value.toList.head? == some '\x27' &&
      (value.length == 1 || value.toList.getLast? != some '\x27')) := by
  rw [opensQuote, splitAtEquals?_append hname]

theorem opensQuote_singleQuote (hname : '=' ∉ name.toList) (value : String) :
    opensQuote (name ++ "=" ++ singleQuote value) = false := by
  have hlength : (singleQuote value).length ≠ 1 := by
    rw [← String.length_toList, toList_singleQuote]
    simp
  have hlast : (singleQuote value).toList.getLast? = some '\x27' := by
    rw [toList_singleQuote, ← List.cons_append, List.getLast?_concat]
  simp [opensQuote_append hname, hlength, hlast]

/-- A quote is open in a value that has only the first one. -/
theorem opensQuote_of_not_mem (hname : '=' ∉ name.toList) {value : List Char}
    (hvalue : '\x27' ∉ value) :
    opensQuote (name ++ "=" ++ String.ofList ('\x27' :: value)) = true := by
  rw [opensQuote_append hname, String.toList_ofList, ← String.length_toList, String.toList_ofList]
  cases value with
  | nil => rfl
  | cons c value =>
    have hlast : (c :: value).getLast? ≠ some '\x27' := fun h => hvalue (List.mem_of_getLast? h)
    simpa [List.getLast?_cons] using hlast

/-- Arguments are joined up to the first one that ends with a quote. -/
theorem joinQuoted_append {front : List String} (hfront : ∀ arg ∈ front, '\x27' ∉ arg.toList)
    {last : String} (hlast : last.toList.getLast? = some '\x27') (begun : String) :
    joinQuoted begun (front ++ [last]) = (String.intercalate " " (begun :: (front ++ [last])), []) := by
  induction front generalizing begun with
  | nil =>
    rw [List.nil_append, joinQuoted]
    simp only [hlast, if_true, String.intercalate_cons_cons, String.intercalate_singleton]
  | cons arg front ih =>
    have harg : arg.toList.getLast? ≠ some '\x27' := fun h =>
      hfront arg List.mem_cons_self (List.mem_of_getLast? h)
    rw [List.cons_append, joinQuoted]
    simp only [harg, if_false]
    rw [ih (fun a ha => hfront a (List.mem_cons_of_mem _ ha))]
    simp [String.intercalate_cons_of_ne_nil, String.append_assoc]

/-! ## Definitions -/

/-- The argument that defines an alias. -/
def definition (name value : String) : String := name ++ "=" ++ singleQuote value

theorem tokens_definition (hname : ∀ c ∈ name.toList, IsPlain c) (value : String) :
    tokens (definition name value).toList =
      tokensFrom ⟨false, some (name.toList ++ ['=', '\x27'])⟩ (value.toList ++ ['\x27']) := by
  have hmarks : ∀ c ∈ ['=', '\x27'], IsPlain c := List.all_iff_forall_prop.1 (by decide)
  have hword : ∀ c ∈ name.toList ++ ['=', '\x27'], IsPlain c :=
    List.forall_mem_append.2 ⟨hname, hmarks⟩
  rw [← tokens_word_append (by simp) hword]
  simp [definition, singleQuote]

/-- The tokens of a definition, with a space between them, are a definition. -/
theorem intercalate_tokenize_definition (hname : ∀ c ∈ name.toList, IsPlain c) {value : String}
    (hvalue : '"' ∉ value.toList) :
    String.intercalate " " (tokenize (definition name value)) =
      definition name (String.ofList (Text.squeeze value.toList)) := by
  have hjoin := intercalate_tokensFrom hvalue (name.toList ++ ['=', '\x27'])
  have hspace : " ".toList = [' '] := rfl
  rw [← String.toList_inj, String.toList_intercalate, tokenize, tokens_definition hname, hspace]
  simp only [List.map_map, Function.comp_def, String.toList_ofList, List.map_id', hjoin]
  simp [definition, singleQuote]

/-- The arguments that a definition was cut into are joined again, with its runs of blanks squeezed. -/
theorem mergeQuoted_tokenize (hname : ∀ c ∈ name.toList, IsPlain c) (hequals : '=' ∉ name.toList)
    {value : String} (hvalue : '"' ∉ value.toList) (hquote : '\x27' ∉ value.toList) :
    mergeQuoted (tokenize (definition name value)) =
      [definition name (String.ofList (Text.squeeze value.toList))] := by
  rw [← intercalate_tokenize_definition hname hvalue]
  rcases tokensFrom_quote_cases hvalue hquote (name.toList ++ ['=', '\x27']) with
    htokens | ⟨more, front, last, hmore, hfront, htokens⟩
  · have hone : tokenize (definition name value) = [definition name value] := by
      rw [tokenize, tokens_definition hname, htokens]
      simp [definition, singleQuote, ← String.toList_inj]
    have hclosed : ¬ opensQuote (definition name value) = true := by
      simp [definition, opensQuote_singleQuote hequals]
    rw [hone, mergeQuoted, if_neg hclosed, mergeQuoted, String.intercalate_singleton]
  · have hall : tokenize (definition name value) =
        (name ++ "=" ++ String.ofList ('\x27' :: more)) ::
          (front.map String.ofList ++ [String.ofList (last ++ ['\x27'])]) := by
      rw [tokenize, tokens_definition hname, htokens]
      simp [← String.toList_inj]
    have hfront : ∀ arg ∈ front.map String.ofList, '\x27' ∉ arg.toList := by
      simpa using hfront
    have hlast : (String.ofList (last ++ ['\x27'])).toList.getLast? = some '\x27' := by simp
    rw [hall, mergeQuoted, if_pos (opensQuote_of_not_mem hequals hmore),
      joinQuoted_append hfront hlast, mergeQuoted]

theorem isPlain_of_validAliasName (h : validAliasName name = true) :
    name ≠ "" ∧ ∀ c ∈ name.toList, IsPlain c := by
  simp only [validAliasName, Bool.and_eq_true, Bool.not_eq_true', List.any_eq_false] at h
  refine ⟨by simpa using h.1, fun c hc => ?_⟩
  have hgood := h.2 c hc
  simp only [Bool.or_eq_true, not_or, beq_iff_eq, Bool.not_eq_true] at hgood
  exact ⟨hgood.1.1.1.1, hgood.2⟩

/-- A definition binds the name to the value with its runs of blanks squeezed. -/
theorem runAlias_definition (hname : validAliasName name = true) (hequals : '=' ∉ name.toList)
    {value : String} (hvalue : '"' ∉ value.toList) (hquote : '\x27' ∉ value.toList) (w : World) :
    runAlias (tokenize (definition name value)) w = (.success "", { w with session := { w.session with
      aliases := w.session.aliases.insert name (String.ofList (Text.squeeze value.toList)) } }) := by
  have hmerged :=
    mergeQuoted_tokenize (isPlain_of_validAliasName hname).2 hequals hvalue hquote
  have hsome : ¬ (tokenize (definition name value)).isEmpty = true := by
    intro hempty
    rw [List.isEmpty_iff.1 hempty, mergeQuoted] at hmerged
    cases hmerged
  rw [runAlias, if_neg hsome, hmerged, defineAliases, definition, splitAtEquals?_append hequals]
  simp only [hname, if_true, stripQuotes_singleQuote, defineAliases]
  rfl

end Command

namespace Terminal

open Line Command Shell

variable {t : Terminal}

/-- The line that defines an alias, as the list of the aliases shows it. -/
def definitionLine (name value : String) : String := "alias " ++ definition name value

theorem trimmed_definitionLine (name value : String) : Text.Trimmed (definitionLine name value) := by
  have hchars : (definitionLine name value).toList =
      'a' :: ("lias ".toList ++ (name ++ "=").toList ++ '\x27' :: value.toList ++ ['\x27']) := by
    simp [definitionLine, definition, singleQuote]
  refine ⟨⟨'a', ?_, by decide⟩, '\x27', ?_, by decide⟩
  · rw [hchars, List.head?_cons]
  · rw [hchars, ← List.cons_append, List.getLast?_concat]

theorem tokenize_definitionLine (name value : String) :
    tokenize (definitionLine name value) = aliases.name :: tokenize (definition name value) := by
  have hblank : ∀ c ∈ " ".toList, Text.isBlank c = true := List.all_eq_true.1 (by decide)
  have hline : definitionLine name value =
      (Spelling.bare aliases.name).text ++ (" " ++ definition name value) := by
    rw [← String.append_assoc]
    rfl
  have hstands : StandsApart (" " ++ definition name value).toList := by
    intro c hc
    rw [String.toList_append, List.head?_append] at hc
    exact hblank c (List.mem_of_mem_head? hc)
  rw [hline, aliases.fits_name.tokenize_append hstands,
    tokenize_blanks_append hblank]
  rfl

/-- The line that defines an alias succeeds and binds the name to the value with its runs of blanks
squeezed. -/
theorem exec_definitionLine (halias : t.world.session.aliases.get? "alias" = none) {name : String}
    (hname : validAliasName name = true) (hequals : '=' ∉ name.toList) {value : String}
    (hvalue : '"' ∉ value.toList) (hquote : '\x27' ∉ value.toList) (s : Supply) :
    (t.exec s (definitionLine name value)).1.code = 0 ∧
      (t.exec s (definitionLine name value)).2.world.session.aliases =
        t.world.session.aliases.insert name (String.ofList (Text.squeeze value.toList)) := by
  obtain ⟨w, -, -, haliases, -, hanswer⟩ := executes_of_tokenize (c := .aliases) (by decide)
    (trimmed_definitionLine name value) (tokenize_definitionLine name value) halias s
  obtain ⟨hcode, -, -, hsession⟩ :=
    hanswer _ _ (runAlias_definition hname hequals hvalue hquote w)
  rw [hcode, hsession, deselect, Session.aliases_setCwd, haliases]
  exact ⟨rfl, rfl⟩

/-- The line that defines an alias in single quotes succeeds, leaves the other aliases as they were,
and stores the value with a space in the place of every run of blanks. So a value is stored as it is
if its blanks are single spaces, and only then. -/
theorem alias_of_defined (halias : t.world.session.aliases.get? "alias" = none) {name : String}
    (hname : validAliasName name = true) (hequals : '=' ∉ name.toList) {value : String}
    (hvalue : '"' ∉ value.toList) (hquote : '\x27' ∉ value.toList) (s : Supply) :
    let t₁ := (t.exec s (definitionLine name value)).2
    (t.exec s (definitionLine name value)).1.code = 0 ∧
      t₁.world.session.aliases.get? name = some (String.ofList (Text.squeeze value.toList)) ∧
      (t₁.world.session.aliases.get? name = some value ↔
        (∀ c ∈ value.toList, Text.isBlank c = true → c = ' ') ∧
          ¬ [' ', ' '] <:+: value.toList) ∧
      ∀ other, other ≠ name →
        t₁.world.session.aliases.get? other = t.world.session.aliases.get? other := by
  obtain ⟨hcode, haliases⟩ := exec_definitionLine halias hname hequals hvalue hquote s
  have hstored : (t.exec s (definitionLine name value)).2.world.session.aliases.get? name =
      some (String.ofList (Text.squeeze value.toList)) := by
    rw [haliases, OrderedMap.get?_insert, if_pos rfl]
  refine ⟨hcode, hstored, ?_, fun other hother => ?_⟩
  · rw [hstored, Option.some.injEq, ← Text.squeeze_eq_self_iff, ← String.toList_inj,
      String.toList_ofList]
  · rw [haliases, OrderedMap.get?_insert, if_neg hother]

/-- A value with blanks of several kinds at its ends and a run of them inside. -/
theorem alias_of_defined_with_blanks :
    let s : Supply := ⟨.still ⟨0, 0⟩, .counting⟩
    let t := start {} s
    let value := "\tgrep  -n a=b\u3000"
    t.world.session.aliases.get? "alias" = none ∧
      (t.exec s (definitionLine "g" value)).1.code = 0 ∧
      (t.exec s (definitionLine "g" value)).2.world.session.aliases.get? "g" =
        some " grep -n a=b " ∧
      (t.exec s (definitionLine "g" value)).2.world.session.aliases.get? "ll" =
        some "ls -la" := by
  intro s t value
  have halias : t.world.session.aliases.get? "alias" = none := by decide
  have hname : validAliasName "g" = true := by decide
  have hvalue : '"' ∉ value.toList := by decide
  have hquote : '\x27' ∉ value.toList := by decide
  have hsqueezed : String.ofList (Text.squeeze value.toList) = " grep -n a=b " := by decide
  have hll : t.world.session.aliases.get? "ll" = some "ls -la" := by decide
  obtain ⟨hcode, hstored, -, hothers⟩ :=
    alias_of_defined halias hname (by decide) hvalue hquote s
  rw [hsqueezed] at hstored
  have hne : "ll" ≠ "g" := by decide
  have hother := hothers "ll" hne
  rw [hll] at hother
  exact ⟨halias, hcode, hstored, hother⟩

/-- Two blanks in a value become one. -/
theorem not_kept_of_defined :
    ¬ ∀ (t : Terminal) (s : Supply) (name value : String),
      t.world.session.aliases.get? "alias" = none → validAliasName name = true →
      '=' ∉ name.toList → '"' ∉ value.toList → '\x27' ∉ value.toList →
      (t.exec s (definitionLine name value)).2.world.session.aliases.get? name = some value := by
  intro h
  let s : Supply := ⟨.still ⟨0, 0⟩, .counting⟩
  have hkept := h (start {} s) s "g" "a  b" (by decide) (by decide) (by decide) (by decide)
    (by decide)
  revert hkept
  decide +kernel

end Terminal

end VirtualShell
