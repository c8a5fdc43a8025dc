import VirtualShell.Command.Counting
import VirtualShell.Command.Grep
import VirtualShell.Proofs.Shell.Numbering

/-!
# One notion of line

`wc`, `grep`, `cat`, `head` and `tail` all go by the pieces of a text, so that they agree on how many
lines it has (`lines_agree`): a last line without a line feed is one, an empty line is one, and an empty
text has none.
-/

namespace VirtualShell

namespace Command

open Text

variable {w : World} {file text : String}

theorem asksNumbers_of_operand (h : optionLetters? file = none) : asksNumbers file = false := by
  rw [asksNumbers, Bool.or_eq_false_iff, beq_eq_false_iff_ne, beq_eq_false_iff_ne]
  constructor <;> rintro rfl <;> cases h

theorem Tally.argument_of_operand (t : Tally) (h : optionLetters? file = none) :
    t.argument file = .ok { t with operands := t.operands ++ [file] } := by
  rw [Tally.argument, h]

theorem Search.argument_of_operand (s : Search) (h : optionLetters? file = none) :
    s.argument file = .ok { s with operands := s.operands ++ [file] } := by
  unfold Search.argument
  split
  iterate 5 · cases h
  · rw [h]

theorem Search.readArgs_cons {s s' : Search} {arg : String} {rest : List String} (hdash : arg ≠ "-e")
    (harg : s.argument arg = .ok s') : s.readArgs (arg :: rest) = s'.readArgs rest := by
  conv_lhs => rw [Search.readArgs.eq_def]
  simp only [if_neg hdash, harg]

/-- The empty pattern occurs in every line. -/
theorem matchesLine_empty (line : List Char) : Pattern.Regex.empty.matchesLine line = true := by
  simp [Pattern.Regex.matchesLine, Pattern.Regex.advance]

theorem compile_empty (s : Search) : s.compile "" = .ok .empty := by
  unfold Search.compile
  split <;> rfl

theorem runWc_lines (hfile : optionLetters? file = none) (hread : w.tree.read file = .ok text) :
    ∃ width, runWc ["-l", file] w = .success
      (padLeft width ' ' (decimal (Counts.ofText text.toList).lines) ++ " " ++ file ++ "\n") := by
  have hargs : ["-l", file].foldlM Tally.argument ⟨false, false, false, []⟩ =
      .ok ⟨true, false, false, [file]⟩ := by
    have hl : Tally.argument ⟨false, false, false, []⟩ "-l" = .ok ⟨true, false, false, []⟩ := rfl
    rw [List.foldlM_cons, hl]
    change [file].foldlM Tally.argument ⟨true, false, false, []⟩ = _
    rw [List.foldlM_cons, Tally.argument_of_operand _ hfile]
    rfl
  refine ⟨Tally.width false (Counts.zero.add (.ofText text.toList)), ?_⟩
  rw [runWc, hargs]
  simp [Tally.measure, hread, Tally.orAll, Tally.report, Tally.row, Tally.columns, Progress.start,
    Progress.say, Progress.reply, Reply.success, String.join]

theorem Search.ofArgs_count (hfile : optionLetters? file = none) : Search.ofArgs ["-c", "", file] =
    .ok ("", { Search.start with countOnly := true, operands := [file] }) := by
  have hc : Search.start.argument "-c" = .ok { Search.start with countOnly := true } := rfl
  have hdash : file ≠ "-e" := by
    rintro rfl
    cases hfile
  have hargs : Search.start.readArgs ["-c", "", file] =
      .ok { Search.start with countOnly := true, operands := ["", file] } := by
    rw [readArgs_cons (by decide) hc, readArgs_cons (by decide) (argument_of_operand _ rfl),
      readArgs_cons hdash (argument_of_operand _ hfile)]
    rfl
  rw [Search.ofArgs, hargs]
  rfl

/-- The empty pattern selects all lines of a single file. -/
theorem Search.searchFile_empty {s : Search} (hcount : s.countOnly = true) (hinvert : s.invert = false)
    (hone : s.operands = [file]) {p : Progress} (hread : p.tree.read file = .ok text) (found : Bool) :
    let k := (lines text.toList).length
    s.searchFile .empty (p, found) file = (p.say (decimal k ++ "\n"), found || k != 0) := by
  have hlength : (s.select .empty text.toList).length = (lines text.toList).length := by
    simp [Search.select, hinvert, matchesLine_empty]
  have hsome : (!(s.select .empty text.toList).isEmpty) = ((lines text.toList).length != 0) := by
    rw [← hlength, Bool.eq_iff_iff]
    simp
  simp [Search.searchFile, hread, Search.shown, hcount, hone, hlength, hsome]

theorem runGrep_count (hfile : optionLetters? file = none) (hread : w.tree.read file = .ok text) :
    let k := (Counts.ofText text.toList).lines
    runGrep ["-c", "", file] w = .withCode (decimal k ++ "\n") (if k = 0 then 1 else 0) := by
  intro k
  rw [runGrep, Search.ofArgs_count hfile]
  dsimp only
  rw [compile_empty]
  dsimp only
  rw [List.foldl_cons, Search.searchFile_empty rfl rfl rfl (p := .start w.tree) hread]
  have hk : k = (lines text.toList).length := rfl
  by_cases hzero : k = 0
  · simp [Progress.say, Progress.start, hzero, ← hk]
  · simp [Progress.say, Progress.start, hzero, ← hk]

/-- The lines that `cat -n` shows of a file are its pieces with plain endings, labelled. -/
theorem pieces_of_runCat_numbered (hfile : optionLetters? file = none)
    (hread : w.tree.read file = .ok text) : ∃ shown, runCat ["-n", file] w = .success shown ∧
      pieces shown.toList = labelled 1 ((pieces text.toList).map plainEnding) := by
  have hplain : ∀ f ∈ [file], asksNumbers f = false := by
    simpa using asksNumbers_of_operand hfile
  have hcat := runCat_numbered (w := w) (List.cons_ne_nil file []) hplain (.cons hread .nil)
  refine ⟨_, hcat, ?_⟩
  have hcut := cut_map_plainEnding (cut_pieces text.toList)
  rw [String.toList_ofList, List.flatMap_cons, List.flatMap_nil, List.append_nil]
  exact ((cut_labelled_iff hcut.ne_nil 1).2 hcut).pieces_flatten

/-- If `wc -l` counts `k` lines in a file, then `grep -c` counts as many with the empty pattern, and
`cat -n` shows as many, with the labels from 1 to `k`. As many pieces or more are the whole text, at
either end; fewer of the first ones are less than the text and hold one line feed each; and the first
ones and the rest of the `k` make up the text. -/
theorem lines_agree (hfile : optionLetters? file = none) (hread : w.tree.read file = .ok text) :
    let c := text.toList
    let k := (Counts.ofText c).lines
    (∃ width, runWc ["-l", file] w =
      .success (padLeft width ' ' (decimal k) ++ " " ++ file ++ "\n")) ∧
    runGrep ["-c", "", file] w = .withCode (decimal k ++ "\n") (if k = 0 then 1 else 0) ∧
    (∃ shown, runCat ["-n", file] w = .success shown ∧
      pieces shown.toList = labelled 1 ((pieces c).map plainEnding) ∧
      (pieces shown.toList).length = k) ∧
    (∀ n, k ≤ n → Text.head n c = c ∧ Text.tail n c = c) ∧
    (∀ n, n < k → Text.head n c <+: c ∧ Text.head n c ≠ c ∧ (Text.head n c).count '\n' = n) ∧
    ∀ n, n ≤ k → Text.head n c ++ Text.tail (k - n) c = c := by
  intro c k
  have hk : k = (pieces c).length := length_lines c
  obtain ⟨shown, hcat, hpieces⟩ := pieces_of_runCat_numbered hfile hread
  refine ⟨runWc_lines hfile hread, runGrep_count hfile hread, ⟨shown, hcat, hpieces, ?_⟩, ?_, ?_, ?_⟩
  · rw [hpieces, length_labelled, List.length_map, hk]
  · exact fun n hn => ⟨head_of_length_le (hk ▸ hn), tail_of_length_le (hk ▸ hn)⟩
  · exact fun n hn => ⟨head_isPrefix n c, head_ne_self (hk ▸ hn), count_head (hk ▸ hn)⟩
  · intro n hn
    rw [hk] at hn ⊢
    exact head_append_tail hn

/-- A line that ends in a carriage return with a line feed, an empty one, and one without an ending. -/
theorem lines_agree_in_oneFile :
    let w : World := ⟨oneFile "a\r\n\nb", default⟩
    let c := "a\r\n\nb".toList
    optionLetters? "/x" = none ∧ w.tree.read "/x" = .ok "a\r\n\nb" ∧ (Counts.ofText c).lines = 3 ∧
      runGrep ["-c", "", "/x"] w = .withCode "3\n" 0 ∧
      runCat ["-n", "/x"] w = .success "     1\ta\n     2\t\n     3\tb" ∧
      Text.head 2 c ++ Text.tail 1 c = c ∧ (Text.head 2 c).count '\n' = 2 := by
  intro w c
  have hread : w.tree.read "/x" = .ok "a\r\n\nb" := by decide
  have hk : (Counts.ofText c).lines = 3 := by decide
  have hfile : optionLetters? "/x" = none := rfl
  have hagree := lines_agree hfile hread
  dsimp only at hagree
  rw [hk] at hagree
  obtain ⟨-, hgrep, -, -, hshort, hwhole⟩ := hagree
  exact ⟨hfile, hread, hk, hgrep, by decide, hwhole 2 (by decide),
    (hshort 2 (by decide)).2.2⟩

end Command

end VirtualShell
