import Mathlib.Data.List.Forall2
import VirtualShell.Command.Counting
import VirtualShell.Proofs.Shell.Numbering

/-!
# Totals

The total that `wc` shows is the sum of what it counts in the files one by one. A text that is cut
behind a line feed has the lines, the words and the characters of both parts (`Counts.ofText_append`),
since no line and no word goes on there. So, if no file but the last one ends without a line feed, the
total is what `wc` counts in all files put behind one another; and as no number is greater than the total
of its kind, all of them fit into columns of one width (`total_of_runWc`).
-/

namespace VirtualShell

namespace Command

open Text

/-! ## Counting in parts -/

/-- A text that is cut behind a line feed has the words of both parts. -/
theorem words_append {a : List Char} (h : a.getLast? = some '\n') (s : List Char) :
    words (a ++ s) = words a ++ words s := by
  obtain ⟨b, rfl⟩ := List.getLast?_eq_some_iff.1 h
  have hblank : isBlank '\n' = true := by decide
  simp [words, List.splitOnP_append_cons _ _ hblank]

namespace Counts

theorem zero_add (a : Counts) : zero.add a = a := by simp [add, zero]

theorem add_zero (a : Counts) : a.add zero = a := rfl

theorem add_assoc (a b c : Counts) : (a.add b).add c = a.add (b.add c) := by
  simp [add, Nat.add_assoc]

theorem ofText_nil : ofText [] = zero := rfl

theorem ofText_append {a : List Char} (ha : a = [] ∨ a.getLast? = some '\n') (s : List Char) :
    ofText (a ++ s) = (ofText a).add (ofText s) := by
  rcases ha with rfl | ha
  · rw [ofText_nil, zero_add, List.nil_append]
  · simp only [ofText, add, length_lines, pieces_append ha, words_append ha, List.length_append]

/-- If no text but the last one ends without a line feed, the sum of the counts is the count of all
texts put behind one another. -/
theorem foldl_add_ofText {texts : List (List Char)}
    (hends : ∀ c ∈ texts.dropLast, c = [] ∨ c.getLast? = some '\n') (sum : Counts) :
    (texts.map ofText).foldl add sum = sum.add (ofText texts.flatten) := by
  induction texts generalizing sum with
  | nil => rw [List.flatten_nil, ofText_nil, add_zero, List.map_nil, List.foldl_nil]
  | cons c texts ih =>
    rw [List.map_cons, List.foldl_cons, List.flatten_cons]
    cases texts with
    | nil => rw [List.flatten_nil, List.append_nil, List.map_nil, List.foldl_nil]
    | cons d texts =>
      rw [List.dropLast_cons_cons, List.forall_mem_cons] at hends
      rw [ih hends.2, add_assoc, ofText_append hends.1]

/-- None of the counts is greater than the other, kind by kind. -/
def Within (a b : Counts) : Prop := a.lines ≤ b.lines ∧ a.words ≤ b.words ∧ a.chars ≤ b.chars

theorem within_foldl_add {counts : List Counts} {a sum : Counts} (h : a.Within sum ∨ a ∈ counts) :
    a.Within (counts.foldl add sum) := by
  induction counts generalizing sum with
  | nil => exact h.resolve_right List.not_mem_nil
  | cons b counts ih =>
    refine ih ?_
    rw [List.mem_cons, ← or_assoc] at h
    refine h.imp_left fun h => ?_
    rcases h with ⟨hlines, hwords, hchars⟩ | rfl
    · exact ⟨Nat.le_add_right_of_le hlines, Nat.le_add_right_of_le hwords,
        Nat.le_add_right_of_le hchars⟩
    · exact ⟨Nat.le_add_left .., Nat.le_add_left .., Nat.le_add_left ..⟩

end Counts

/-! ## Columns -/

theorem length_decimal_le {m n : Nat} (h : m ≤ n) : (decimal m).length ≤ (decimal n).length := by
  have hlength : ∀ k, (decimal k).length = (Nat.toDigits 10 k).length := fun k => by
    rw [← String.length_toList, toList_decimal]
  rw [hlength, hlength]
  have hpos : 0 < (Nat.toDigits 10 n).length := Nat.length_toDigits_pos
  have hn := (Nat.length_toDigits_le_iff (by decide) hpos).1 (Nat.le_refl _)
  exact (Nat.length_toDigits_le_iff (by decide) hpos).2 (Nat.lt_of_le_of_lt h hn)

/-- A row of numbers in columns of a width, each with blanks in front, and a name behind them. -/
def InColumns (width : Nat) (numbers : List Nat) (name row : String) : Prop :=
  ∃ cells, row = String.intercalate " " (cells ++ [name]) ++ "\n" ∧
    List.Forall₂ (fun n cell => cell.length = width ∧
      ∃ blanks, cell = String.ofList (List.replicate blanks ' ') ++ decimal n) numbers cells

namespace Tally

variable {t : Tally} {w : World} {files texts : List String}

theorem columns_orAll_ne_nil (t : Tally) (c : Counts) : t.orAll.columns c ≠ [] := by
  unfold orAll columns
  split
  · next h =>
    rw [Bool.or_eq_true, Bool.or_eq_true] at h
    rcases h with (h | h) | h <;> simp [h]
  · simp

/-- The columns of what is within the total are wide enough. -/
theorem length_decimal_le_width {several : Bool} {c total : Counts} (h : c.Within total) :
    ∀ n ∈ t.columns c, (decimal n).length ≤ width several total := by
  obtain ⟨hlines, hwords, hchars⟩ := h
  have hl := length_decimal_le hlines
  have hw := length_decimal_le hwords
  have hc := length_decimal_le hchars
  intro n hn
  have hkind : n = c.lines ∨ n = c.words ∨ n = c.chars := by
    unfold columns at hn
    grind
  simp only [width, List.foldl_cons, List.foldl_nil]
  rcases hkind with rfl | rfl | rfl <;> omega

theorem inColumns_row {width : Nat} {c : Counts} (name : String) (hne : t.columns c ≠ [])
    (h : ∀ n ∈ t.columns c, (decimal n).length ≤ width) :
    InColumns width (t.columns c) name (t.row width c name) := by
  refine ⟨(t.columns c).map fun n => padLeft width ' ' (decimal n), ?_, ?_⟩
  · rw [row, String.intercalate_append_of_ne_nil (by simpa using hne) (List.cons_ne_nil _ _),
      String.intercalate_singleton]
  · rw [List.forall₂_map_right_iff, List.forall₂_same]
    refine fun n hn => ⟨?_, _, rfl⟩
    have hle := h n hn
    rw [padLeft, String.length_append, String.length_ofList, List.length_replicate]
    omega

theorem foldl_measure (hread : List.Forall₂ (fun f c => w.tree.read f = .ok c) files texts)
    {p : Progress} (hp : p.tree = w.tree) (rows : List (Counts × String)) :
    files.foldl measure (p, rows) =
      (p, rows ++ (texts.map fun c => Counts.ofText c.toList).zip files) := by
  induction hread generalizing rows with
  | nil => simp
  | @cons f c files texts hf _ ih =>
    have hstep : measure (p, rows) f = (p, rows ++ [(Counts.ofText c.toList, f)]) := by
      simp [measure, hp, hf]
    rw [List.foldl_cons, hstep, ih]
    simp

/-- If the files can be read, `wc` shows what it counts in them. -/
theorem runWc_of_read {args : List String}
    (hargs : args.foldlM argument ⟨false, false, false, []⟩ = .ok t) (hfiles : t.operands ≠ [])
    (hread : List.Forall₂ (fun f c => w.tree.read f = .ok c) t.operands texts) :
    runWc args w = .success
      (t.orAll.report ((texts.map fun c => Counts.ofText c.toList).zip t.operands)) := by
  rw [runWc, hargs]
  dsimp only
  rw [if_neg (by simpa using hfiles), foldl_measure hread (p := .start w.tree) rfl]
  simp [Progress.reply, Progress.say, Progress.start, Reply.success]

/-- Several rows are followed by one with their total, in columns of the same width. -/
theorem report_of_several {rows : List (Counts × String)} (h : 2 ≤ rows.length) :
    let total := (rows.map Prod.fst).foldl Counts.add .zero
    t.report rows = String.join ((rows ++ [(total, "total")]).map fun r =>
      t.row (width true total) r.1 r.2) := by
  intro total
  have htotal : rows.foldl (fun sum r => sum.add r.1) Counts.zero = total := List.foldl_map.symm
  have hmore : 1 < rows.length := h
  simp [report, htotal, hmore]

/-- If several files can be read, none of which but the last one ends without a line feed, `wc` shows a
row for each file with what it counts in it, and then one with what it counts in all files put behind one
another. All rows have columns of one width, in which each number fits. Options may stand anywhere. -/
theorem total_of_runWc {args : List String}
    (hargs : args.foldlM argument ⟨false, false, false, []⟩ = .ok t)
    (hread : List.Forall₂ (fun f c => w.tree.read f = .ok c) t.operands texts)
    (hseveral : 2 ≤ t.operands.length)
    (hends : ∀ c ∈ texts.dropLast, c = "" ∨ c.toList.getLast? = some '\n') :
    let table := (texts.map fun c => Counts.ofText c.toList).zip t.operands ++
      [(Counts.ofText (String.join texts).toList, "total")]
    ∃ width rows, runWc args w = .success (String.join rows) ∧
      List.Forall₂ (fun entry row => InColumns width (t.orAll.columns entry.1) entry.2 row)
        table rows ∧
      ∀ entry ∈ table, ∀ n ∈ t.orAll.columns entry.1, (decimal n).length ≤ width := by
  intro table
  set total := Counts.ofText (String.join texts).toList with htotal
  have hlength : t.operands.length = texts.length := hread.length_eq
  have hfirst : ((texts.map fun c => Counts.ofText c.toList).zip t.operands).map Prod.fst =
      (texts.map String.toList).map Counts.ofText := by
    rw [List.map_fst_zip (by simp [hlength]), List.map_map]
    rfl
  have hsum : ((texts.map String.toList).map Counts.ofText).foldl Counts.add .zero = total := by
    have hlists : ∀ c ∈ (texts.map String.toList).dropLast, c = [] ∨ c.getLast? = some '\n' := by
      rw [← List.map_dropLast, List.forall_mem_map]
      simpa using hends
    rw [Counts.foldl_add_ofText hlists, Counts.zero_add, htotal, String.toList_join,
      List.flatMap_def]
  have hwithin : ∀ entry ∈ table, entry.1.Within total := by
    intro entry hentry
    rcases List.mem_append.1 hentry with hfile | hlast
    · rw [← hsum]
      exact Counts.within_foldl_add (Or.inr (hfirst ▸ List.mem_map_of_mem hfile))
    · rw [List.mem_singleton.1 hlast]
      exact ⟨Nat.le_refl _, Nat.le_refl _, Nat.le_refl _⟩
  have hfits : ∀ entry ∈ table, ∀ n ∈ t.orAll.columns entry.1,
      (decimal n).length ≤ width true total :=
    fun entry hentry => length_decimal_le_width (hwithin entry hentry)
  refine ⟨width true total, table.map fun r => t.orAll.row (width true total) r.1 r.2, ?_, ?_, hfits⟩
  · have hsome : t.operands ≠ [] := List.ne_nil_of_length_pos (by omega)
    rw [runWc_of_read hargs hsome hread, report_of_several (by simp [hlength]; omega), hfirst, hsum]
  · rw [List.forall₂_map_right_iff, List.forall₂_same]
    exact fun entry hentry =>
      inColumns_row entry.2 (columns_orAll_ne_nil t entry.1) (hfits entry hentry)

/-- A file that is read twice, with a blank and a letter outside of ASCII, a line ending of two characters
and an empty line. -/
theorem total_of_runWc_twice :
    let text := "one\u3000zwölf\r\n\n"
    let w : World := ⟨oneFile text, default⟩
    let t : Tally := ⟨false, true, true, ["/x", "x"]⟩
    ["-w", "/x", "-m", "x"].foldlM argument ⟨false, false, false, []⟩ = .ok t ∧
      List.Forall₂ (fun f c => w.tree.read f = .ok c) t.operands [text, text] ∧
      2 ≤ t.operands.length ∧ (∀ c ∈ [text, text].dropLast, c = "" ∨ c.toList.getLast? = some '\n') ∧
      ∃ width rows, runWc ["-w", "/x", "-m", "x"] w = .success (String.join rows) ∧
        List.Forall₂ (fun entry row => InColumns width (t.orAll.columns entry.1) entry.2 row)
          [(⟨2, 2, 12⟩, "/x"), (⟨2, 2, 12⟩, "x"), (⟨4, 4, 24⟩, "total")] rows := by
  intro text w t
  have hargs : ["-w", "/x", "-m", "x"].foldlM argument ⟨false, false, false, []⟩ = .ok t := rfl
  have hread : List.Forall₂ (fun f c => w.tree.read f = .ok c) t.operands [text, text] :=
    .cons (by decide) (.cons (by decide) .nil)
  have hends : ∀ c ∈ [text, text].dropLast, c = "" ∨ c.toList.getLast? = some '\n' := by decide
  have htable : ([text, text].map fun c => Counts.ofText c.toList).zip t.operands ++
      [(Counts.ofText (String.join [text, text]).toList, "total")] =
      [(⟨2, 2, 12⟩, "/x"), (⟨2, 2, 12⟩, "x"), (⟨4, 4, 24⟩, "total")] := by decide
  obtain ⟨width, rows, hrun, hrows, -⟩ := total_of_runWc hargs hread (Nat.le_refl 2) hends
  exact ⟨hargs, hread, Nat.le_refl 2, hends, width, rows, hrun, htable ▸ hrows⟩

end Tally

end Command

end VirtualShell
