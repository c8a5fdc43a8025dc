import VirtualShell.Proofs.Text.Lines
import VirtualShell.Proofs.Text.Numerals

/-!
# Labels in front of lines

A label is a number in a column of six and a tab. The pieces of a text are shown behind the labels 1, 2,
3 and so on, and with plain endings: a line feed alone where there was a carriage return before it.
Taken off again, the labels leave what there was before only if no carriage return was lost and no piece
has run into the next one (`onlyLabels_iff`). Each label holds one tab and no carriage return, so that
both shows in the numbers of these characters.
-/

namespace VirtualShell.Text

variable {p : List Char} {ps qs : List (List Char)} {n first : Nat}

/-! ## Labels -/

/-- What stands in front of a numbered line: the number in a column of six, and a tab. -/
def label (n : Nat) : List Char := (padLeft 6 ' ' (decimal n) ++ "\t").toList

/-- Pieces behind their labels, the first with a given number. -/
def labelled (first : Nat) (ps : List (List Char)) : List (List Char) :=
  (ps.zipIdx first).map fun item => label item.2 ++ item.1

/-- A piece without its label: what comes after its first tab. -/
def unlabel (p : List Char) : List Char := (p.dropWhile (· ≠ '\t')).drop 1

theorem label_eq (n : Nat) : ∃ column, label n = column ++ ['\t'] ∧
    ∀ c ∈ column, c = ' ' ∨ c.isDigit = true := by
  refine ⟨(padLeft 6 ' ' (decimal n)).toList, ?_, fun c hc => ?_⟩
  · rw [label, String.toList_append]
    rfl
  · rw [padLeft, String.toList_append, String.toList_ofList, toList_decimal, List.mem_append] at hc
    rcases hc with hc | hc
    · exact Or.inl (List.eq_of_mem_replicate hc)
    · exact Or.inr (Nat.isDigit_of_mem_toDigits (by decide) (by decide) hc)

theorem unlabel_label_append (n : Nat) (p : List Char) : unlabel (label n ++ p) = p := by
  obtain ⟨column, hlabel, hcolumn⟩ := label_eq n
  have htab : ∀ c ∈ column, decide (c ≠ '\t') = true := by
    intro c hc
    rcases hcolumn c hc with rfl | hdigit
    · rfl
    · refine decide_eq_true fun he => ?_
      rw [he] at hdigit
      cases hdigit
  rw [unlabel, hlabel, List.append_assoc, List.dropWhile_append_of_pos htab]
  rfl

/-- A label holds one tab, and no other character that is neither a blank nor a digit. -/
theorem count_label {c : Char} (hblank : c ≠ ' ') (hdigit : c.isDigit = false) (n : Nat) :
    (label n).count c = if c = '\t' then 1 else 0 := by
  obtain ⟨column, hlabel, hcolumn⟩ := label_eq n
  have hnot : c ∉ column := by
    intro hc
    rcases hcolumn c hc with he | he
    · exact hblank he
    · rw [hdigit] at he
      cases he
  rw [hlabel, List.count_append, List.count_eq_zero.2 hnot, List.count_singleton, Nat.zero_add]
  by_cases hc : c = '\t'
  · rw [hc]
    rfl
  · rw [if_neg hc, if_neg (by simpa using Ne.symm hc)]

theorem newline_not_mem_label (n : Nat) : '\n' ∉ label n :=
  List.count_eq_zero.1 (count_label (by decide) (by decide) n)

/-! ## Labelled pieces -/

@[simp] theorem labelled_nil (first : Nat) : labelled first [] = [] := rfl

@[simp] theorem labelled_cons (first : Nat) (p : List Char) (ps : List (List Char)) :
    labelled first (p :: ps) = (label first ++ p) :: labelled (first + 1) ps := rfl

theorem labelled_append (first : Nat) (ps qs : List (List Char)) :
    labelled first (ps ++ qs) = labelled first ps ++ labelled (first + ps.length) qs := by
  rw [labelled, List.zipIdx_append, List.map_append]
  rfl

@[simp] theorem length_labelled (first : Nat) (ps : List (List Char)) :
    (labelled first ps).length = ps.length := by
  rw [labelled, List.length_map, List.length_zipIdx]

theorem map_unlabel_labelled (first : Nat) (ps : List (List Char)) :
    (labelled first ps).map unlabel = ps := by
  induction ps generalizing first with
  | nil => rfl
  | cons p ps ih => rw [labelled_cons, List.map_cons, unlabel_label_append, ih]

theorem label_prefix_of_labelled {i : Nat} (h : (labelled first ps)[i]? = some p) :
    label (first + i) <+: p := by
  rw [labelled, List.getElem?_map, List.getElem?_zipIdx, Option.map_map] at h
  obtain ⟨q, -, rfl⟩ := Option.map_eq_some_iff.1 h
  exact ⟨q, rfl⟩

/-- Texts that begin with the labels in turn are what they are without them, labelled. -/
theorem labelled_map_unlabel (h : ∀ i p, qs[i]? = some p → label (first + i) <+: p) :
    labelled first (qs.map unlabel) = qs := by
  induction qs generalizing first with
  | nil => rfl
  | cons q qs ih =>
    obtain ⟨rest, hrest⟩ := h 0 q rfl
    rw [Nat.add_zero] at hrest
    have htail : ∀ i p, qs[i]? = some p → label (first + 1 + i) <+: p := by
      intro i p hp
      rw [Nat.add_assoc, Nat.add_comm 1 i]
      exact h (i + 1) p hp
    rw [List.map_cons, labelled_cons, ih htail, ← hrest, unlabel_label_append]

theorem count_labelled {c : Char} (hblank : c ≠ ' ') (hdigit : c.isDigit = false) (first : Nat)
    (ps : List (List Char)) : (labelled first ps).flatten.count c =
      (if c = '\t' then ps.length else 0) + ps.flatten.count c := by
  induction ps generalizing first with
  | nil => simp
  | cons p ps ih =>
    rw [labelled_cons, List.flatten_cons, List.count_append, List.count_append, ih,
      count_label hblank hdigit, List.flatten_cons, List.count_append, List.length_cons]
    split <;> omega

theorem cut_labelled_iff (h : ∀ p ∈ ps, p ≠ []) (first : Nat) :
    Cut (labelled first ps) ↔ Cut ps := by
  induction ps generalizing first with
  | nil => rfl
  | cons p ps ih =>
    have hp := h p List.mem_cons_self
    have hlabels : labelled (first + 1) ps = [] ↔ ps = [] := by
      rw [← List.length_eq_zero_iff, length_labelled, List.length_eq_zero_iff]
    rw [labelled_cons, cut_cons_iff, cut_cons_iff, hlabels,
      ih (fun q hq => h q (List.mem_cons_of_mem _ hq)), List.dropLast_append_of_ne_nil hp,
      List.getLast?_append_of_ne_nil _ hp]
    simp [newline_not_mem_label, hp]

theorem cut_of_mem_labelled (h : ∀ p ∈ ps, Cut [p]) (first : Nat) :
    ∀ q ∈ labelled first ps, Cut [q] := by
  induction ps generalizing first with
  | nil => simp
  | cons p ps ih =>
    have hp := h p List.mem_cons_self
    refine List.forall_mem_cons.2 ⟨?_, ih (fun q hq => h q (List.mem_cons_of_mem _ hq)) _⟩
    exact (cut_labelled_iff hp.ne_nil first).2 hp

/-! ## Endings -/

/-- A piece with a line feed alone where it had a carriage return before it. -/
def plainEnding (p : List Char) : List Char :=
  stripEnding p ++ if p.getLast? = some '\n' then ['\n'] else []

theorem plainEnding_of_not_mem (hnot : '\n' ∉ p) : plainEnding p = p := by
  have hend : ¬ p.getLast? = some '\n' := fun h => hnot (List.mem_of_getLast? h)
  rw [plainEnding, stripEnding, if_neg hend, if_neg hend, List.append_nil]

theorem plainEnding_concat (a : List Char) : plainEnding (a ++ ['\n']) =
    (if a.getLast? = some '\r' then a.dropLast else a) ++ ['\n'] := by
  rw [plainEnding, stripEnding, if_pos List.getLast?_concat, if_pos List.getLast?_concat,
    List.dropLast_concat]

theorem cut_map_plainEnding (h : Cut ps) : Cut (ps.map plainEnding) := by
  induction h with
  | nil => exact .nil
  | last hp hnot =>
    rw [List.map_cons, plainEnding_of_not_mem hnot]
    exact .last hp hnot
  | @cons a _ hnot _ ih =>
    rw [List.map_cons, plainEnding_concat]
    refine .cons ?_ ih
    split
    · exact fun h => hnot ((List.dropLast_sublist a).subset h)
    · exact hnot

/-- A piece loses a carriage return, or it has a plain ending. -/
theorem plainEnding_cases (h : Cut [p]) : (¬ ['\r', '\n'] <:+ p ∧ plainEnding p = p) ∨
    ∃ a, p = a ++ ['\r', '\n'] ∧ plainEnding p = a ++ ['\n'] := by
  cases h with
  | last hp hnot =>
    exact Or.inl ⟨fun hin => hnot (hin.subset (by simp)), plainEnding_of_not_mem hnot⟩
  | @cons a _ hnot _ =>
    rw [plainEnding_concat]
    by_cases hreturn : a.getLast? = some '\r'
    · obtain ⟨b, rfl⟩ := List.getLast?_eq_some_iff.1 hreturn
      exact Or.inr ⟨b, by simp, by rw [if_pos hreturn, List.dropLast_concat]⟩
    · refine Or.inl ⟨?_, by rw [if_neg hreturn]⟩
      rintro ⟨b, hb⟩
      have hsplit : b ++ ['\r'] = a :=
        (List.append_inj' (show (b ++ ['\r']) ++ ['\n'] = a ++ ['\n'] by simpa using hb) rfl).1
      exact hreturn (by rw [← hsplit, List.getLast?_concat])

/-- The carriage returns that are lost. -/
theorem count_map_plainEnding (h : ∀ p ∈ ps, Cut [p]) :
    (ps.map plainEnding).flatten.count '\r' + ps.countP (['\r', '\n'] <:+ ·) =
      ps.flatten.count '\r' := by
  induction ps with
  | nil => rfl
  | cons p ps ih =>
    have hrest := ih fun q hq => h q (List.mem_cons_of_mem _ hq)
    have hfirst : (plainEnding p).count '\r' + (if ['\r', '\n'] <:+ p then 1 else 0) =
        p.count '\r' := by
      rcases plainEnding_cases (h p List.mem_cons_self) with ⟨hnot, hsame⟩ | ⟨a, rfl, hplain⟩
      · rw [hsame, if_neg hnot, Nat.add_zero]
      · rw [hplain, if_pos (List.suffix_append _ _), List.count_append, List.count_append]
        rfl
    rw [List.map_cons, List.flatten_cons, List.flatten_cons, List.count_append, List.count_append,
      List.countP_cons, ← hrest, ← hfirst]
    simp only [decide_eq_true_eq]
    omega

theorem map_plainEnding_eq_self (h : ∀ p ∈ ps, Cut [p])
    (hnone : ∀ p ∈ ps, ¬ ['\r', '\n'] <:+ p) : ps.map plainEnding = ps := by
  refine (List.map_congr_left fun p hp => ?_).trans (List.map_id ps)
  rcases plainEnding_cases (h p hp) with ⟨-, hsame⟩ | ⟨a, rfl, -⟩
  · exact hsame
  · exact absurd (List.suffix_append _ _) (hnone _ hp)

/-! ## What the labels add -/

/-- The pieces of a text begin with the labels 1, 2, 3 and so on, and without them they give another
text. -/
structure OnlyLabels (plain shown : List Char) : Prop where
  numbered : ∀ i p, (pieces shown)[i]? = some p → label (i + 1) <+: p
  stripped : ((pieces shown).map unlabel).flatten = plain

/-- With equal texts behind them, as many labels were put in: each holds one tab. -/
theorem length_eq_of_labelled (h : (labelled first qs).flatten = (labelled first ps).flatten)
    (hflat : qs.flatten = ps.flatten) : qs.length = ps.length := by
  have htabs := congrArg (List.count '\t') h
  rw [count_labelled (by decide) (by decide), count_labelled (by decide) (by decide), hflat,
    if_pos rfl, if_pos rfl] at htabs
  omega

/-- No carriage return is lost if the labels leave the texts as they were: no label holds one. -/
theorem not_crlf_of_labelled (hps : ∀ p ∈ ps, Cut [p])
    (h : (labelled first qs).flatten = (labelled first (ps.map plainEnding)).flatten)
    (hflat : qs.flatten = ps.flatten) : ∀ p ∈ ps, ¬ ['\r', '\n'] <:+ p := by
  have hreturns := congrArg (List.count '\r') h
  rw [count_labelled (by decide) (by decide), count_labelled (by decide) (by decide), hflat,
    ← count_map_plainEnding hps] at hreturns
  have hzero : ps.countP (['\r', '\n'] <:+ ·) = 0 := by simpa using hreturns
  simpa [List.countP_eq_zero] using hzero

/-- Pieces that are shown with plain endings have only labels more than before, just if none of them
ends in a carriage return with a line feed and they are a cut. -/
theorem onlyLabels_iff (h : ∀ p ∈ ps, Cut [p]) :
    OnlyLabels ps.flatten (labelled 1 (ps.map plainEnding)).flatten ↔
      (∀ p ∈ ps, ¬ ['\r', '\n'] <:+ p) ∧ Cut ps := by
  have hne : ∀ p ∈ ps, p ≠ [] := fun p hp => (h p hp).ne_nil p (by simp)
  constructor
  · rintro ⟨hnumbered, hstripped⟩
    generalize hpieces : pieces (labelled 1 (ps.map plainEnding)).flatten = qs at *
    have hflat := (pieces_eq_iff.1 hpieces).2
    have hqs : labelled 1 (qs.map unlabel) = qs :=
      labelled_map_unlabel fun i p hp => Nat.add_comm i 1 ▸ hnumbered i p hp
    rw [← hqs] at hflat
    have hnone := not_crlf_of_labelled h hflat hstripped
    rw [map_plainEnding_eq_self h hnone] at hpieces hflat
    have hlength := length_eq_of_labelled hflat hstripped
    -- the shown text falls into as many pieces as were put together
    have hcut : Cut (labelled 1 ps) :=
      (length_pieces_flatten (cut_of_mem_labelled h 1)).2 (by simpa [hpieces] using hlength)
    exact ⟨hnone, (cut_labelled_iff hne 1).1 hcut⟩
  · rintro ⟨hnone, hcut⟩
    have hshown : pieces (labelled 1 ps).flatten = labelled 1 ps :=
      ((cut_labelled_iff hne 1).2 hcut).pieces_flatten
    rw [map_plainEnding_eq_self h hnone]
    refine ⟨fun i p hp => ?_, ?_⟩
    · rw [hshown] at hp
      exact Nat.add_comm 1 i ▸ label_prefix_of_labelled hp
    · rw [hshown, map_unlabel_labelled]

end VirtualShell.Text
