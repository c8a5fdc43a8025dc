import VirtualShell.Command.Files
import VirtualShell.Proofs.Text.Labels

/-!
# Numbered lines

`cat -n` shows the pieces of each file with plain endings behind their labels, and the numbers go on
from file to file. Where a file does not end in a line feed, the first piece of the next one comes on the
same line. So `cat -n` has only the labels more than `cat` if no file holds a carriage return with a line
feed and no piece runs into that of another file, and in no other case (`onlyLabels_of_runCat`).
-/

namespace VirtualShell

namespace Command

open Text

variable {ps : List (List Char)}

/-! ## Numbered texts -/

/-- Lines that are joined by line feeds, with one more behind them if the text has it, are pieces. -/
theorem intercalate_labelled (h : Cut ps) (first : Nat) :
    ['\n'].intercalate (labelled first (ps.map stripEnding)) ++
        (if ps.flatten.getLast? = some '\n' then ['\n'] else []) =
      (labelled first (ps.map plainEnding)).flatten := by
  induction h generalizing first with
  | nil => simp
  | @last p _ _ => simp [plainEnding]
  | @cons a ps _ hrest ih =>
    by_cases hps : ps = []
    · subst hps
      simp [plainEnding]
    · have hflat : ps.flatten ≠ [] := fun h => hps (hrest.flatten_eq_nil_iff.1 h)
      have hlabels : labelled (first + 1) (ps.map stripEnding) ≠ [] := by
        rw [← List.length_pos_iff, length_labelled, List.length_map, List.length_pos_iff]
        exact hps
      have hfirst : plainEnding (a ++ ['\n']) = stripEnding (a ++ ['\n']) ++ ['\n'] := by
        rw [plainEnding, if_pos List.getLast?_concat]
      rw [List.map_cons, List.map_cons, labelled_cons, labelled_cons, List.flatten_cons,
        List.flatten_cons, List.getLast?_append_of_ne_nil _ hflat,
        List.intercalate_cons_of_ne_nil hlabels, ← ih, hfirst]
      simp only [List.append_assoc]

/-- What `cat -n` shows of a text: its pieces with plain endings, labelled. -/
theorem toList_numberLines (first : Nat) (text : String) :
    (numberLines first text).1.toList =
        (labelled first ((pieces text.toList).map plainEnding)).flatten ∧
      (numberLines first text).2 = first + (pieces text.toList).length := by
  refine ⟨?_, by rw [numberLines, length_lines]⟩
  have hlines : ((lines text.toList).zipIdx.map fun item =>
      padLeft 6 ' ' (decimal (first + item.2)) ++ "\t" ++ String.ofList item.1).map String.toList =
      labelled first ((pieces text.toList).map stripEnding) := by
    rw [labelled, ← lines, List.zipIdx_eq_map_add (i := first), List.map_map, List.map_map]
    refine List.map_congr_left fun item _ => ?_
    simp [label]
  rw [← intercalate_labelled (cut_pieces _), flatten_pieces, ← hlines, numberLines,
    String.toList_append, String.toList_intercalate]
  split <;> rfl

/-! ## Files -/

section Files

variable {t : FileTree} {w : World} {files texts : List String}

theorem foldl_showFile_false (hread : List.Forall₂ (fun f c => t.read f = .ok c) files texts)
    {p : Progress} (hp : p.tree = t) (next : Nat) :
    (files.foldl (showFile false) (p, next)).1 = p.say (String.join texts) := by
  induction hread generalizing p with
  | nil => simp [Progress.say, String.join]
  | @cons f c _ _ hf _ ih =>
    have hshow : showFile false (p, next) f = (p.say c, next) := by
      simp [showFile, hp, hf]
    rw [List.foldl_cons, hshow, ih (p := p.say c) hp]
    simp [Progress.say, String.append_assoc]

/-- The numbers go on from one file to the next. -/
theorem foldl_showFile_true (hread : List.Forall₂ (fun f c => t.read f = .ok c) files texts)
    {p : Progress} (hp : p.tree = t) (next : Nat) :
    (files.foldl (showFile true) (p, next)).1 = p.say (String.ofList
      (labelled next ((texts.flatMap fun c => pieces c.toList).map plainEnding)).flatten) := by
  induction hread generalizing p next with
  | nil => simp [Progress.say]
  | @cons f c _ _ hf _ ih =>
    obtain ⟨htext, hnext⟩ := toList_numberLines next c
    have hshow : showFile true (p, next) f =
        (p.say (numberLines next c).1, next + (pieces c.toList).length) := by
      simp [showFile, hp, hf, hnext]
    have hshown : (numberLines next c).1 =
        String.ofList (labelled next ((pieces c.toList).map plainEnding)).flatten := by
      rw [← htext, String.ofList_toList]
    rw [List.foldl_cons, hshow, ih (p := p.say _) hp, hshown, List.flatMap_cons, List.map_append,
      labelled_append, List.length_map, List.flatten_append, String.ofList_append]
    simp [Progress.say, String.append_assoc]

theorem runCat_plain (hfiles : files ≠ []) (hplain : ∀ f ∈ files, asksNumbers f = false)
    (hread : List.Forall₂ (fun f c => w.tree.read f = .ok c) files texts) :
    runCat files w = .success (String.join texts) := by
  have hall : files.filter (!asksNumbers ·) = files :=
    List.filter_eq_self.2 fun f hf => by rw [hplain f hf]; rfl
  have hnone : files.any asksNumbers = false := by simpa using hplain
  rw [runCat, hall, if_neg (by simpa using hfiles), hnone,
    foldl_showFile_false hread (p := .start w.tree) rfl]
  simp [Progress.reply, Progress.say, Progress.start, Reply.success]

theorem runCat_numbered (hfiles : files ≠ []) (hplain : ∀ f ∈ files, asksNumbers f = false)
    (hread : List.Forall₂ (fun f c => w.tree.read f = .ok c) files texts) :
    runCat ("-n" :: files) w = .success (String.ofList
      (labelled 1 ((texts.flatMap fun c => pieces c.toList).map plainEnding)).flatten) := by
  have hall : ("-n" :: files).filter (!asksNumbers ·) = files := by
    rw [List.filter_cons_of_neg (by decide)]
    exact List.filter_eq_self.2 fun f hf => by rw [hplain f hf]; rfl
  have hsome : ("-n" :: files).any asksNumbers = true := rfl
  rw [runCat, hall, if_neg (by simpa using hfiles), hsome,
    foldl_showFile_true hread (p := .start w.tree) rfl]
  simp [Progress.reply, Progress.say, Progress.start, Reply.success]

/-- If the files can be read, both commands succeed, and `cat -n` shows the pieces of all files with
plain endings, labelled. So it has only the labels 1, 2, 3 and so on more than `cat`, just if no file
holds a carriage return with a line feed, and each file ends in a line feed, or it is empty, or all that
follow it are. -/
theorem onlyLabels_of_runCat (hfiles : files ≠ []) (hplain : ∀ f ∈ files, asksNumbers f = false)
    (hread : List.Forall₂ (fun f c => w.tree.read f = .ok c) files texts) :
    ∃ plain shown, runCat files w = .success plain ∧ plain = String.join texts ∧
      runCat ("-n" :: files) w = .success shown ∧
      shown.toList =
        (labelled 1 ((texts.flatMap fun c => pieces c.toList).map plainEnding)).flatten ∧
      (OnlyLabels plain.toList shown.toList ↔
        (∀ c ∈ texts, ¬ ['\r', '\n'] <:+: c.toList) ∧
        texts.Pairwise fun c d => c = "" ∨ d = "" ∨ c.toList.getLast? = some '\n') := by
  refine ⟨_, _, runCat_plain hfiles hplain hread, rfl, runCat_numbered hfiles hplain hread,
    String.toList_ofList, ?_⟩
  have hpieces : ∀ p ∈ texts.flatMap fun c => pieces c.toList, Cut [p] := by
    intro p hp
    obtain ⟨c, -, hc⟩ := List.mem_flatMap.1 hp
    exact (cut_pieces c.toList).of_mem p hc
  have hmap : (texts.flatMap fun c => pieces c.toList) = (texts.map String.toList).flatMap pieces :=
    List.flatMap_map .. |>.symm
  have hflat : (String.join texts).toList = (texts.flatMap fun c => pieces c.toList).flatten := by
    rw [hmap, flatten_flatMap_pieces, String.toList_join, List.flatMap]
  rw [String.toList_ofList, hflat, onlyLabels_iff hpieces]
  refine and_congr ?_ ?_
  · simp only [List.mem_flatMap, crlf_infix_iff]
    exact ⟨fun h c hc ⟨p, hp, hend⟩ => h p ⟨c, hc, hp⟩ hend,
      fun h p ⟨c, hc, hp⟩ hend => h c hc ⟨p, hp, hend⟩⟩
  · rw [hmap, cut_flatMap_pieces_iff, List.pairwise_map]
    simp only [String.toList_eq_nil_iff]

/-- A tree whose root holds one file, with a given text. -/
def oneFile (text : String) : FileTree :=
  let node (id name path : String) (parent : Option NodeId) (content : Content) :=
    (NodeId.mk id, Node.mk ⟨id⟩ name path parent content (.forContent content ⟨0, 0⟩) false)
  { nodes := .ofList [node "0" "" "/" none (.directory [⟨"1"⟩]),
      node "1" "x" "/x" (some ⟨"0"⟩) (.file text)]
    root := ⟨"0"⟩, cwd := ⟨"0"⟩ }

/-- A file with an empty line, shown twice. -/
theorem onlyLabels_of_runCat_twice :
    let w : World := ⟨oneFile "a\n\n", default⟩
    List.Forall₂ (fun f c => w.tree.read f = .ok c) ["/x", "x"] ["a\n\n", "a\n\n"] ∧
      runCat ["-n", "/x", "x"] w =
        .success "     1\ta\n     2\t\n     3\ta\n     4\t\n" ∧
      ∃ plain shown, runCat ["/x", "x"] w = .success plain ∧
        runCat ["-n", "/x", "x"] w = .success shown ∧ OnlyLabels plain.toList shown.toList := by
  intro w
  have hread : List.Forall₂ (fun f c => w.tree.read f = .ok c) ["/x", "x"] ["a\n\n", "a\n\n"] :=
    .cons (by decide) (.cons (by decide) .nil)
  obtain ⟨plain, shown, hplain, -, hshown, -, honly⟩ :=
    onlyLabels_of_runCat (by simp) (by decide) hread
  exact ⟨hread, by decide, plain, shown, hplain, hshown,
    honly.2 ⟨by decide, by simp⟩⟩

/-- A carriage return before a line feed is lost. -/
theorem not_onlyLabels_of_crlf :
    ¬ ∀ (w : World) (files texts : List String) (plain shown : String), files ≠ [] →
      (∀ f ∈ files, asksNumbers f = false) →
      List.Forall₂ (fun f c => w.tree.read f = .ok c) files texts →
      runCat files w = .success plain → runCat ("-n" :: files) w = .success shown →
      OnlyLabels plain.toList shown.toList := by
  intro h
  have honly := h ⟨oneFile "a\r\nb\n", default⟩ ["/x"] ["a\r\nb\n"] "a\r\nb\n"
    "     1\ta\n     2\tb\n" (by simp) (by decide) (.cons (by decide) .nil)
    (by decide) (by decide)
  exact absurd honly.stripped (by decide)

end Files

end Command

end VirtualShell
