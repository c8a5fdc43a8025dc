import VirtualShell.Command.Grep
import VirtualShell.Proofs.Shell.LineCounts

/-!
# Searches

`grep` and `grep -v` part the lines of a file between them: each line is selected by one of the two, with
its number and its text, and in the order of the lines (`parts_select`). The options `-v`, `-n` and `-c`
change nothing else than their own flag, wherever the arguments have them (`Search.ofArgs_flags`), and the
files are searched one after another, so that with each choice of these options the search shows of each
file just the lines that it selects, or their number, and it succeeds if all files can be read and a line
of some file is selected (`parted_of_runGrep`).
-/

namespace VirtualShell

namespace Command

open Text Pattern

variable {s : Search} {p : Regex} {w : World} {pattern : String}

/-! ## Selected lines -/

/-- Numbered lines of a text: those that a pattern occurs in, and those that it does not. -/
structure Parts (p : Regex) (ls : List (List Char)) (kept left : List (Nat × List Char)) : Prop where
  kept_increasing : (kept.map Prod.fst).Pairwise (· < ·)
  left_increasing : (left.map Prod.fst).Pairwise (· < ·)
  disjoint : ∀ i ∈ kept.map Prod.fst, i ∉ left.map Prod.fst
  covered : ∀ i, i ∈ kept.map Prod.fst ∨ i ∈ left.map Prod.fst ↔ 1 ≤ i ∧ i ≤ ls.length
  own_text : ∀ line ∈ kept ++ left, ls[line.1 - 1]? = some line.2
  kept_matches : ∀ line ∈ kept, p.matchesLine line.2 = true
  left_matches : ∀ line ∈ left, p.matchesLine line.2 = false

namespace Search

/-- A line is selected under its own number. -/
theorem mem_select_iff {text : List Char} {i : Nat} {line : List Char} :
    (i, line) ∈ s.select p text ↔
      1 ≤ i ∧ (lines text)[i - 1]? = some line ∧ p.matchesLine line = !s.invert := by
  rw [select, List.mem_filter, List.mem_map, bne_iff_ne, ← Bool.eq_not]
  constructor
  · rintro ⟨⟨item, hitem, heq⟩, hsel⟩
    obtain ⟨rfl, rfl⟩ := Prod.mk.inj heq
    exact ⟨Nat.le_add_left 1 _, List.mem_zipIdx_iff_getElem?.1 hitem, hsel⟩
  · rintro ⟨hpos, hline, hsel⟩
    refine ⟨⟨(line, i - 1), List.mem_zipIdx_iff_getElem?.2 hline, ?_⟩, hsel⟩
    rw [Nat.sub_add_cancel hpos]

theorem increasing_select (text : List Char) :
    ((s.select p text).map Prod.fst).Pairwise (· < ·) := by
  have hall : ((lines text).zipIdx.map fun item => (item.2 + 1, item.1)).map Prod.fst =
      List.range' 1 (lines text).length := by
    rw [List.map_map, ← List.zipIdx_map_snd 1 (lines text), List.zipIdx_succ, List.map_map]
    rfl
  have hsub : List.Sublist ((s.select p text).map Prod.fst) (List.range' 1 (lines text).length) :=
    hall ▸ List.filter_sublist.map Prod.fst
  exact List.Pairwise.sublist hsub List.pairwise_lt_range'

/-- Without and with inversion the lines of a text are parted. -/
theorem parts_select (s : Search) (p : Regex) (text : List Char) :
    Parts p (lines text) (({ s with invert := false } : Search).select p text)
      (({ s with invert := true } : Search).select p text) := by
  have hmem : ∀ b i, i ∈ (({ s with invert := b } : Search).select p text).map Prod.fst ↔
      ∃ line, 1 ≤ i ∧ (lines text)[i - 1]? = some line ∧ p.matchesLine line = !b := by
    simp [mem_select_iff]
  refine ⟨increasing_select text, increasing_select text, fun i hkept hleft => ?_, fun i => ?_,
    fun item hitem => ?_, fun item hitem => (mem_select_iff.1 hitem).2.2,
    fun item hitem => (mem_select_iff.1 hitem).2.2⟩
  · obtain ⟨line, -, hline, hmatch⟩ := (hmem false i).1 hkept
    obtain ⟨line', -, hline', hnot⟩ := (hmem true i).1 hleft
    rw [hline, Option.some.injEq] at hline'
    rw [← hline', hmatch] at hnot
    cases hnot
  · rw [hmem, hmem]
    constructor
    · rintro (⟨line, hpos, hline, -⟩ | ⟨line, hpos, hline, -⟩)
      all_goals
        have hlt := (List.getElem?_eq_some_iff.1 hline).1
        omega
    · rintro ⟨hpos, hle⟩
      have hline := List.getElem?_eq_getElem (l := lines text) (i := i - 1) (by omega)
      cases hmatch : p.matchesLine (lines text)[i - 1] with
      | true => exact Or.inl ⟨_, hpos, hline, hmatch⟩
      | false => exact Or.inr ⟨_, hpos, hline, hmatch⟩
  · rcases List.mem_append.1 hitem with hitem | hitem
    · exact (mem_select_iff.1 hitem).2.1
    · exact (mem_select_iff.1 hitem).2.1

/-! ## Options -/

/-- The search with some of the flags raised that the options `-v`, `-n` and `-c` raise. -/
def raise (s : Search) (invert numbers countOnly : Bool) : Search :=
  { s with invert := s.invert || invert, numbers := s.numbers || numbers,
           countOnly := s.countOnly || countOnly }

variable {v n c : Bool}

theorem letter_raise (s : Search) (l : Char) :
    (s.raise v n c).letter l = (s.letter l).map (·.raise v n c) := by
  unfold letter
  split <;> simp [raise, Except.map]

theorem letters_raise (s : Search) (ls : List Char) :
    ls.foldlM letter (s.raise v n c) = (ls.foldlM letter s).map (·.raise v n c) := by
  induction ls generalizing s with
  | nil => rfl
  | cons l ls ih =>
    rw [List.foldlM_cons, List.foldlM_cons, letter_raise]
    cases s.letter l with
    | error e => rfl
    | ok s' => exact ih s'

theorem argument_raise (s : Search) (arg : String) :
    (s.raise v n c).argument arg = (s.argument arg).map (·.raise v n c) := by
  unfold argument
  split
  iterate 5 · simp [raise, Except.map]
  · split
    · exact letters_raise s _
    · rfl

theorem readArgs_raise (s : Search) (args : List String) :
    (s.raise v n c).readArgs args = (s.readArgs args).map (·.raise v n c) := by
  fun_induction readArgs s args with
  | case1 s => rfl
  | case2 s => rfl
  | case3 s pattern rest ih =>
    rw [readArgs, if_pos rfl]
    exact ih
  | case4 s arg rest hdash s' harg ih =>
    rw [readArgs_cons hdash (by rw [argument_raise, harg]; rfl), ih]
  | case5 s arg rest hdash e harg =>
    rw [readArgs.eq_def]
    simp [hdash, argument_raise, harg, Except.map]

/-- The options that raise some of the flags. -/
def flags (invert numbers countOnly : Bool) : List String :=
  (if invert then ["-v"] else []) ++ (if numbers then ["-n"] else []) ++
    if countOnly then ["-c"] else []

theorem readArgs_flags (s : Search) (args : List String) :
    s.readArgs (flags v n c ++ args) = (s.raise v n c).readArgs args := by
  have hstep : ∀ (s s' : Search) (b : Bool) (flag : String) (rest : List String), flag ≠ "-e" →
      s.argument flag = .ok s' →
      s.readArgs ((if b then [flag] else []) ++ rest) = (if b then s' else s).readArgs rest := by
    intro _ _ b flag rest hdash harg
    cases b with
    | false => rfl
    | true => exact readArgs_cons hdash harg
  rw [flags, List.append_assoc, List.append_assoc, hstep s _ v "-v" _ (by decide) rfl,
    hstep _ _ n "-n" _ (by decide) rfl, hstep _ _ c "-c" _ (by decide) rfl]
  cases v <;> cases n <;> cases c <;> simp [raise]

/-- Options in front of the arguments raise their flags and change nothing else. -/
theorem ofArgs_flags (args : List String) :
    ofArgs (flags v n c ++ args) = (ofArgs args).map fun r => (r.1, r.2.raise v n c) := by
  rw [ofArgs, ofArgs, readArgs_flags, readArgs_raise]
  cases start.readArgs args with
  | error e => rfl
  | ok s =>
    obtain ⟨pattern, invert, countOnly, numbers, plain, operands⟩ := s
    cases pattern with
    | some pattern => cases operands <;> rfl
    | none =>
      cases operands with
      | nil => rfl
      | cons pattern files => cases files <;> rfl

/-! ## Files one after another -/

/-- What is shown of a file: the lines that are selected, or why it cannot be read. -/
def report (s : Search) (p : Regex) (t : FileTree) (file : String) : String :=
  match t.read file with
  | .error e => complaint "grep" file e
  | .ok text => s.shown file (s.select p text.toList)

theorem searchFile_spec {state : Progress × Bool} (hp : state.1.tree = w.tree) (file : String) :
    let next := s.searchFile p state file
    next.1.tree = w.tree ∧ next.1.text = state.1.text ++ s.report p w.tree file ∧
    (next.1.failed = false ↔ state.1.failed = false ∧ ∃ text, w.tree.read file = .ok text) ∧
    (next.2 = true ↔
      state.2 = true ∨ ∃ text, w.tree.read file = .ok text ∧ s.select p text.toList ≠ []) := by
  obtain ⟨progress, found⟩ := state
  dsimp only at hp
  cases hread : w.tree.read file with
  | error e => simp [searchFile, report, hp, hread, Progress.complain]
  | ok text => simp [searchFile, report, hp, hread, Progress.say]

theorem foldl_searchFile (files : List String) {state : Progress × Bool}
    (hp : state.1.tree = w.tree) :
    let last := files.foldl (s.searchFile p) state
    last.1.text = state.1.text ++ String.join (files.map (s.report p w.tree)) ∧
    (last.1.failed = false ↔
      state.1.failed = false ∧ ∀ file ∈ files, ∃ text, w.tree.read file = .ok text) ∧
    (last.2 = true ↔ state.2 = true ∨
      ∃ file ∈ files, ∃ text, w.tree.read file = .ok text ∧ s.select p text.toList ≠ []) := by
  induction files generalizing state with
  | nil => simp
  | cons file files ih =>
    obtain ⟨htree, htext, hfailed, hfound⟩ := searchFile_spec (s := s) (p := p) hp file
    obtain ⟨htexts, hfaileds, hfounds⟩ := ih htree
    refine ⟨?_, ?_, ?_⟩
    · rw [List.foldl_cons, htexts, htext, List.map_cons, String.join_cons, String.append_assoc]
    · rw [List.foldl_cons, hfaileds, hfailed, List.forall_mem_cons, and_assoc]
    · rw [List.foldl_cons, hfounds, hfound, List.exists_mem_cons_iff, or_assoc]

/-- A search shows its files one after another, and it succeeds if all of them can be read and some line
of one of them is selected. -/
theorem runGrep_of_ofArgs {args : List String} (hargs : ofArgs args = .ok (pattern, s))
    (hcompile : s.compile pattern = .ok p) :
    ∃ code, runGrep args w = .withCode (String.join (s.operands.map (s.report p w.tree))) code ∧
      (code = 0 ↔ (∀ file ∈ s.operands, ∃ text, w.tree.read file = .ok text) ∧
        ∃ file ∈ s.operands, ∃ text, w.tree.read file = .ok text ∧ s.select p text.toList ≠ []) := by
  have hstart : (Progress.start w.tree, false).1.tree = w.tree := rfl
  obtain ⟨htext, hfailed, hfound⟩ := foldl_searchFile (s := s) (p := p) s.operands hstart
  rw [runGrep, hargs]
  dsimp only
  rw [hcompile]
  dsimp only
  generalize s.operands.foldl (s.searchFile p) (.start w.tree, false) = last at *
  refine ⟨if last.2 && !last.1.failed then 0 else 1, ?_, ?_⟩
  · rw [htext, Progress.start, String.empty_append]
  · have hfaileds : last.1.failed = false ↔ ∀ file ∈ s.operands, ∃ text, w.tree.read file = .ok text :=
      hfailed.trans (and_iff_right rfl)
    have hfounds : last.2 = true ↔ ∃ file ∈ s.operands, ∃ text, w.tree.read file = .ok text ∧
        s.select p text.toList ≠ [] := hfound.trans (or_iff_right Bool.false_ne_true)
    rw [← hfaileds, ← hfounds]
    cases last.2 <;> cases last.1.failed <;> decide

/-- For a pattern that can be read: the search without inversion and the one with it part the lines of
every text. Whether lines are inverted, numbered or only counted, the search shows of each file that can
be read the lines that are selected in it, or their number, and it succeeds if all files can be read and
some line of one of them is selected. The options `-v`, `-n` and `-c` ask for just this. -/
theorem parted_of_runGrep (hcompile : s.compile pattern = .ok p) :
    let selected (invert : Bool) (text : String) := ({ s with invert } : Search).select p text.toList
    (∀ text, Parts p (lines text.toList) (selected false text) (selected true text)) ∧
    (∀ invert numbers countOnly args, ofArgs args =
        .ok (pattern, { s with invert := false, numbers := false, countOnly := false }) →
      ofArgs (flags invert numbers countOnly ++ args) =
        .ok (pattern, { s with invert, numbers, countOnly })) ∧
    ∀ invert numbers countOnly args,
      ofArgs args = .ok (pattern, { s with invert, numbers, countOnly }) →
      ∃ code, runGrep args w = .withCode (String.join (s.operands.map fun file =>
          match w.tree.read file with
          | .error e => complaint "grep" file e
          | .ok text =>
            let name := if s.operands.length > 1 then file ++ ":" else ""
            if countOnly then name ++ decimal (selected invert text).length ++ "\n"
            else String.join ((selected invert text).map fun line =>
              name ++ (if numbers then decimal line.1 ++ ":" else "") ++ String.ofList line.2 ++
                "\n"))) code ∧
        (code = 0 ↔ (∀ file ∈ s.operands, ∃ text, w.tree.read file = .ok text) ∧
          ∃ file ∈ s.operands, ∃ text, w.tree.read file = .ok text ∧
            selected invert text ≠ []) := by
  intro selected
  refine ⟨fun text => parts_select s p text.toList, ?_, ?_⟩
  · intro invert numbers countOnly args hargs
    rw [ofArgs_flags, hargs]
    simp [Except.map, raise]
  · intro invert numbers countOnly args hargs
    exact runGrep_of_ofArgs hargs hcompile

/-- Lines that begin with a number sign and lines that do not, in a file before another one that does
not exist. -/
theorem parted_of_runGrep_of_numberSign :
    let w : World := ⟨oneFile "#a\nb\r\n\n#", default⟩
    let s : Search := { start with operands := ["/x", "nope"] }
    let p : Regex := .sequence [.anchor .start, .char '#']
    s.compile "^#" = .ok p ∧
      Parts p [['#', 'a'], ['b'], [], ['#']] [(1, ['#', 'a']), (4, ['#'])] [(2, ['b']), (3, [])] ∧
      ofArgs ["-v", "-n", "^#", "/x", "nope"] =
        .ok ("^#", { s with invert := true, numbers := true }) ∧
      ∃ code, code ≠ 0 ∧ runGrep ["-v", "-n", "^#", "/x", "nope"] w = .withCode
        "/x:2:b\n/x:3:\ngrep: nope: No such file or directory\n" code := by
  intro w s p
  have hcompile : s.compile "^#" = .ok p := rfl
  obtain ⟨hparts, hflags, hruns⟩ := parted_of_runGrep (w := w) hcompile
  have hargs := hflags true true false ["^#", "/x", "nope"] rfl
  obtain ⟨code, hrun, hcode⟩ := hruns true true false _ hargs
  have hnope : w.tree.read "nope" = .error (.notFound "/nope") := by decide
  refine ⟨hcompile, hparts "#a\nb\r\n\n#", hargs, code, fun hzero => ?_,
    hrun.trans (congrArg (Reply.withCode · code) (by decide))⟩
  obtain ⟨text, htext⟩ := (hcode.1 hzero).1 "nope" (by simp [s])
  rw [hnope] at htext
  cases htext

end Search

end Command

end VirtualShell
