import Mathlib.Data.List.TakeWhile
import VirtualShell.Proofs.Host.Directories

/-!
# Saving a state

While a text is saved the host goes through three stages: directories are made on the way to the
state file, the text is written into the temporary file, and that file takes the place of the state
file. A save that is refused or given up leaves the host at one of the first two stages (`Unfinished`),
and a successful one at the last (`Finished`, `save_cases`). A successful save puts the text there and
leaves all else as it was (`frame_of_save`), up to the directories, to what had the temporary name, and
to the file that this was a link to (`temporary_lost_of_save`).
-/

namespace VirtualShell

namespace HostPath

/-- The path holds a name that is too long for the host. -/
def HasLongName (p : HostPath) : Prop := ∃ part ∈ p.parts, nameLimit < part.utf8ByteSize

instance (p : HostPath) : Decidable p.HasLongName :=
  inferInstanceAs (Decidable (∃ part ∈ p.parts, nameLimit < part.utf8ByteSize))

theorem stem_of_not_mem {name : String} (hpoint : '.' ∉ name.toList) : stem name = name := by
  have hdrop : name.toList.reverse.dropWhile (· ≠ '.') = [] := by
    rw [List.dropWhile_eq_nil_iff]
    intro c hc
    exact decide_eq_true fun hc' => hpoint (hc' ▸ List.mem_reverse.1 hc)
  rw [stem, hdrop]

/-- Some of the directories on the way to a path, the first ones. -/
theorem prefix_ancestry_parent {p : HostPath} {dirs : List HostPath}
    (hdirs : dirs <+: p.parent.ancestry) :
    ∃ k, (k = 0 ∨ k < p.parts.length) ∧ dirs = (List.range k).map fun i => p.upTo (i + 1) := by
  have hlength : p.parent.parts.length = p.parts.length - 1 := by simp [parent, upTo]
  obtain ⟨k, hk, rfl⟩ : ∃ k ≤ p.parent.parts.length, dirs = p.parent.ancestry.take k := by
    have hle := hdirs.length_le
    rw [ancestry, List.length_map, List.length_range] at hle
    exact ⟨dirs.length, hle, List.prefix_iff_eq_take.1 hdirs⟩
  refine ⟨k, by omega, ?_⟩
  rw [ancestry, ← List.map_take, List.take_range, Nat.min_eq_left hk]
  refine List.map_congr_left fun i hi => ?_
  have hlt : i < k := List.mem_range.1 hi
  simp only [upTo, parent, List.take_take]
  rw [Nat.min_eq_left (by omega)]

end HostPath

namespace HostStep

/-- Steps are taken up to one that is refused, and taking just these is refused nowhere. -/
theorem exists_taken (h : Host) (steps : List HostStep) : ∃ taken, taken <+: steps ∧
    runAll unhindered h taken = ((runAll unhindered h steps).1, none) := by
  induction steps generalizing h with
  | nil => exact ⟨[], List.prefix_rfl, rfl⟩
  | cons s steps ih =>
    cases hstep : s.run h with
    | error e => exact ⟨[], List.nil_prefix, by simp [runAll, unhindered, hstep]⟩
    | ok h₁ =>
      have hrun : ∀ ss, runAll unhindered h (s :: ss) = runAll unhindered h₁ ss := fun ss => by
        simp [runAll, unhindered, hstep]
      obtain ⟨taken, hprefix, htaken⟩ := ih h₁
      exact ⟨s :: taken, List.cons_prefix_cons.2 ⟨rfl, hprefix⟩, by rw [hrun, hrun, htaken]⟩

/-- Steps that are all taken meet no hindrance. -/
theorem runAll_of_eq_none {hinders : HostStep → Option Hindrance} {h : Host} {steps : List HostStep}
    (htaken : (runAll hinders h steps).2 = none) :
    runAll unhindered h steps = runAll hinders h steps := by
  induction steps generalizing h with
  | nil => rfl
  | cons s steps ih =>
    simp only [runAll, unhindered] at htaken ⊢
    cases hs : hinders s with
    | some hindrance => rw [hs] at htaken; cases htaken
    | none =>
      rw [hs] at htaken
      cases hstep : s.run h with
      | error e => rfl
      | ok h₁ =>
        rw [hstep] at htaken
        exact ih htaken

theorem Stopped.cons {s : HostStep} {h h₁ h' : Host} {steps : List HostStep}
    (hstep : s.run h = .ok h₁) (hstop : Stopped h₁ steps h') : Stopped h (s :: steps) h' := by
  have hrun : ∀ ss, runAll unhindered h₁ ss = runAll unhindered h (s :: ss) := fun ss => by
    simp [runAll, unhindered, hstep]
  cases hstop with
  | between done hdone =>
    rw [hrun]
    exact .between _ (List.cons_prefix_cons.2 ⟨rfl, hdone⟩)
  | writing done path text part _ hdone htaken hpart hwrite =>
    rw [hrun] at htaken hwrite
    exact .writing _ path text part _ (List.cons_prefix_cons.2 ⟨rfl, hdone⟩) htaken hpart hwrite

/-- Where the host gives up a step, it could have been stopped as well. -/
theorem stopped_runAll (hinders : HostStep → Option Hindrance) (h : Host) (steps : List HostStep) :
    Stopped h steps (runAll hinders h steps).1 := by
  have hnow : ∀ {ss}, Stopped h ss h := .between [] List.nil_prefix
  induction steps generalizing h with
  | nil => exact hnow
  | cons s steps ih =>
    cases hs : hinders s with
    | none =>
      cases hstep : s.run h with
      | ok h₁ =>
        have hrun : runAll hinders h (s :: steps) = runAll hinders h₁ steps := by
          simp [runAll, hs, hstep]
        rw [hrun]
        exact (ih h₁ (.between [] List.nil_prefix)).cons hstep
      | error e =>
        rw [runAll, hs, hstep]
        exact hnow
    | some hindrance =>
      rw [runAll, hs]
      cases s with
      | ensureDirectory path | renameFile source target => exact hnow
      | write path text =>
        cases hindrance with
        | refused => exact hnow
        | broken count =>
          dsimp only [remains]
          cases hwrite : h.writeBytes path ((bytesOf text).take count) with
          | error e => exact hnow
          | ok h' =>
            exact .writing [] path text _ h' (List.prefix_append [_] steps) rfl
              (List.take_prefix count _) hwrite

end HostStep

namespace StateFile

open Host
open HostPath (nameLimit)

variable {f : StateFile} {h h' h₁ h₂ h₃ : Host} {text name : String} {bytes : List UInt8}

/-! ## The temporary file -/

/-- The name of the temporary file. -/
def temporaryName (name : String) : String := HostPath.stem name ++ "." ++ "tmp"

theorem temporary_eq (hname : f.path.fileName? = some name) : f.temporary =
    ⟨f.path.absolute, f.path.parts.dropLast ++ [temporaryName name], false⟩ := by
  rw [temporary, HostPath.withExtension, hname]
  rfl

theorem temporaryName_ne_parent (name : String) : temporaryName name ≠ ".." := by
  intro hdots
  have hlast := congrArg (fun s : String => s.toList.getLast?) hdots
  rw [temporaryName, String.toList_append] at hlast
  simp at hlast

theorem fileName?_temporary (hname : f.path.fileName? = some name) :
    f.temporary.fileName? = some (temporaryName name) := by
  rw [temporary_eq hname, HostPath.fileName?, List.getLast?_concat]
  exact Option.filter_eq_some_iff.2 ⟨rfl, decide_eq_true (temporaryName_ne_parent name)⟩

theorem directory_temporary (hname : f.path.fileName? = some name) :
    f.temporary.directory = false := by
  rw [temporary_eq hname]

/-- Both files are names in one directory. -/
theorem folderWay_temporary (h : Host) (hname : f.path.fileName? = some name) :
    h.folderWay f.temporary = h.folderWay f.path := by
  rw [temporary_eq hname, folderWay, folderWay, HostPath.folder, List.dropLast_concat]
  rfl

/-- A path without a file name leads to a directory, if it leads anywhere, and nothing is written
there. -/
theorem exists_fileName_of_writeBytes (htree : h.IsTree)
    (hstep : h.writeBytes f.temporary bytes = .ok h') : ∃ name, f.path.fileName? = some name := by
  cases hname : f.path.fileName? with
  | some name => exact ⟨name, rfl⟩
  | none =>
    have htemporary : f.temporary = f.path := by rw [temporary, HostPath.withExtension, hname]
    obtain ⟨p, hlocate, hp, -⟩ := writeBytes_eq_ok htree hstep
    rw [htemporary] at hlocate
    have hdirectory : h.at? p = some .directory :=
      directory_of_locateName htree (Or.inl hname) (by rw [locateName, hname]; exact hlocate)
    exact absurd hdirectory hp.1

/-- The way to the directory of both files is as it was before the temporary file was written. -/
theorem folderWay_of_writeBytes (htree : h.IsTree)
    (hstep : h.writeBytes f.temporary bytes = .ok h') : h'.folderWay f.path = h.folderWay f.path := by
  obtain ⟨name, hname⟩ := exists_fileName_of_writeBytes htree hstep
  obtain ⟨written, hlocate, hleaf, hwrites⟩ := writeBytes_eq_ok htree hstep
  obtain ⟨m, hway⟩ := locate_eq_ok.1 hlocate
  obtain ⟨-, hlegal, -⟩ := wayOf_of_ok hway
  rw [wayOf_of_fileName (fileName?_temporary hname) (directory_temporary hname) hlegal,
    folderWay_temporary h hname] at hway
  obtain ⟨dir, links, hdir, -⟩ := Way.exists_of_andThen_eq_ok hway
  exact folderWay_congr htree hwrites.here (hwrites.directories hleaf) fun r _ =>
    hwrites.fits hleaf ⟨_, hdir⟩ r

/-! ## The steps of saving -/

/-- The directories on the way to the state file. A path that is too long is refused as a whole. -/
def directories (f : StateFile) : List HostPath :=
  if f.path.parent.isLegal then f.path.parent.ancestry else [f.path.parent]

/-- The host when the directories on the way were made. -/
def prepared (f : StateFile) (h : Host) : Host := (h.makeAll f.directories).1

theorem directorySteps_eq (f : StateFile) :
    f.directorySteps = f.directories.map .ensureDirectory := by
  unfold directorySteps directories
  dsimp only
  split <;> rfl

/-- The steps of saving before the temporary file takes the place of the state file. -/
def writingSteps (f : StateFile) (text : String) : List HostStep :=
  f.directories.map .ensureDirectory ++ [.write f.temporary text]

theorem saveSteps_eq (f : StateFile) (text : String) :
    f.saveSteps text = f.writingSteps text ++ [.renameFile f.temporary f.path] := by
  rw [saveSteps, directorySteps_eq, writingSteps, List.append_assoc]
  rfl

theorem isTree_prepared (htree : h.IsTree) : (f.prepared h).IsTree :=
  isTree_makeAll htree f.directories

theorem widenedBy_prepared (htree : h.IsTree) : WidenedBy f.directories h (f.prepared h) :=
  widenedBy_makeAll htree f.directories

/-- What the host may have come to before the temporary file takes the place of the state file. -/
inductive Unfinished (f : StateFile) (text : String) (h : Host) : Host → Prop where
  /-- Directories were made. -/
  | preparing {dirs : List HostPath} : dirs <+: f.directories →
      Unfinished f text h (h.makeAll dirs).1
  /-- Then some or all of the text was written. -/
  | writing {h₂ : Host} {part : List UInt8} : (h.makeAll f.directories).2 = none →
      part <+: bytesOf text → (f.prepared h).writeBytes f.temporary part = .ok h₂ →
      Unfinished f text h h₂

/-- A text was saved: the directories were made, the text was written, and the temporary file took
the place of the state file. -/
structure Finished (f : StateFile) (text : String) (h h' : Host) : Prop where
  made : (h.makeAll f.directories).2 = none
  replaced : ∃ h₂, (f.prepared h).write f.temporary text = .ok h₂ ∧
    h₂.renameFile f.temporary f.path = .ok h'

theorem Unfinished.isTree (hunfinished : Unfinished f text h h') (htree : h.IsTree) : h'.IsTree := by
  cases hunfinished with
  | preparing _ => exact isTree_makeAll htree _
  | writing _ _ hwrite => exact (isTree_prepared htree).writeBytes hwrite

theorem Finished.isTree (hfinished : Finished f text h h') (htree : h.IsTree) : h'.IsTree := by
  obtain ⟨h₂, hwrite, hrename⟩ := hfinished.replaced
  exact ((isTree_prepared htree).writeBytes hwrite).renameFile hrename

/-- All steps are taken where those before the last are, and then the last one. -/
theorem runAll_concat_eq_none {s : HostStep} {steps : List HostStep}
    (htaken : HostStep.runAll HostStep.unhindered h (steps ++ [s]) = (h', none)) :
    ∃ h₁, HostStep.runAll HostStep.unhindered h steps = (h₁, none) ∧ s.run h₁ = .ok h' := by
  rw [HostStep.runAll_append] at htaken
  cases hfirst : HostStep.runAll HostStep.unhindered h steps with
  | mk h₁ refusal =>
    rw [hfirst] at htaken
    cases refusal with
    | some e => cases htaken
    | none =>
      simp only [HostStep.runAll, HostStep.unhindered] at htaken
      cases hstep : s.run h₁ with
      | error e => rw [hstep] at htaken; cases htaken
      | ok h₂ => rw [hstep] at htaken; cases htaken; exact ⟨h₁, rfl, hstep⟩

theorem unfinished_of_stopped (hstop : HostStep.Stopped h (f.writingSteps text) h') :
    Unfinished f text h h' := by
  cases hstop with
  | between done hdone =>
    obtain ⟨taken, hbefore, htaken⟩ := HostStep.exists_taken h done
    rcases List.prefix_concat_iff.1 (hbefore.trans hdone) with rfl | hdirs
    · obtain ⟨h₁, hmade, hwrite⟩ := runAll_concat_eq_none htaken
      have hprepared : f.prepared h = h₁ := congrArg Prod.fst hmade
      exact .writing (congrArg Prod.snd hmade) List.prefix_rfl (hprepared ▸ hwrite)
    · have hmade : (h.makeAll (f.directories.take taken.length)).1 =
          (HostStep.runAll HostStep.unhindered h done).1 := by
        rw [makeAll, List.map_take, ← List.prefix_iff_eq_take.1 hdirs, htaken]
      rw [← hmade]
      exact .preparing (List.take_prefix _ _)
  | writing done path text' part _ hdone hmade hpart hwrite =>
    -- the only step that writes is the one behind the directories
    rcases List.prefix_concat_iff.1 hdone with hlast | hdirs
    · obtain ⟨rfl, hstep⟩ := List.append_inj' hlast rfl
      cases hstep
      exact .writing hmade hpart hwrite
    · obtain ⟨d, -, hd⟩ := List.mem_map.1 (hdirs.subset List.mem_concat_self)
      cases hd

/-- A save is given up before the temporary file takes the place of the state file, or it is
finished. -/
theorem save_cases (f : StateFile) (h : Host) (text : String)
    (hinders : HostStep → Option Hindrance) :
    (f.save h text hinders).2 ≠ none ∧ Unfinished f text h (f.save h text hinders).1 ∨
      (f.save h text hinders).2 = none ∧ Finished f text h (f.save h text hinders).1 := by
  by_cases hsaved : (f.save h text hinders).2 = none
  · refine Or.inr ⟨hsaved, ?_⟩
    have htaken : HostStep.runAll HostStep.unhindered h
        (f.writingSteps text ++ [.renameFile f.temporary f.path]) =
          ((f.save h text hinders).1, none) := by
      rw [← saveSteps_eq, HostStep.runAll_of_eq_none hsaved]
      exact Prod.ext rfl hsaved
    obtain ⟨h₂, hwritten, hrename⟩ := runAll_concat_eq_none htaken
    obtain ⟨h₁, hmade, hwrite⟩ := runAll_concat_eq_none hwritten
    have hprepared : f.prepared h = h₁ := congrArg Prod.fst hmade
    exact ⟨congrArg Prod.snd hmade, h₂, hprepared ▸ hwrite, hrename⟩
  · refine Or.inl ⟨hsaved, unfinished_of_stopped ?_⟩
    have hstop := HostStep.stopped_runAll hinders h (f.writingSteps text)
    -- renaming that is given up leaves the files as they are
    have hsame : (f.save h text hinders).1 =
        (HostStep.runAll hinders h (f.writingSteps text)).1 := by
      rw [save, saveSteps_eq, HostStep.runAll_append] at hsaved ⊢
      cases hfirst : HostStep.runAll hinders h (f.writingSteps text) with
      | mk h₂ refusal =>
        rw [hfirst] at hsaved
        cases refusal with
        | some e => rfl
        | none =>
          simp only [HostStep.runAll] at hsaved ⊢
          cases hhinders : hinders (.renameFile f.temporary f.path) with
          | some hindrance => rfl
          | none =>
            cases hrename : (HostStep.renameFile f.temporary f.path).run h₂ with
            | error e => rfl
            | ok h₃ => exact absurd (by simp [hhinders, hrename]) hsaved
    rwa [hsame]

theorem isTree_save {hinders : HostStep → Option Hindrance} (htree : h.IsTree) :
    (f.save h text hinders).1.IsTree := by
  rcases save_cases f h text hinders with ⟨-, hunfinished⟩ | ⟨-, hfinished⟩
  · exact hunfinished.isTree htree
  · exact hfinished.isTree htree

/-- Saving is stopped before it is finished, or when it is. -/
theorem stopped_cases (hstop : HostStep.Stopped h (f.saveSteps text) h') :
    Unfinished f text h h' ∨ Finished f text h h' := by
  cases hstop with
  | between done hdone =>
    rw [saveSteps_eq] at hdone
    rcases List.prefix_concat_iff.1 hdone with rfl | hbefore
    · rw [← saveSteps_eq]
      exact (save_cases f h text HostStep.unhindered).imp And.right And.right
    · exact Or.inl (unfinished_of_stopped (.between done hbefore))
  | writing done path text' part _ hdone htaken hpart hwrite =>
    rw [saveSteps_eq] at hdone
    rcases List.prefix_concat_iff.1 hdone with hlast | hbefore
    · obtain ⟨-, hstep⟩ := List.append_inj' hlast rfl
      cases hstep
    · exact Or.inl (unfinished_of_stopped (.writing done path text' part _ hbefore htaken hpart hwrite))

/-! ## The temporary file takes the place of the state file -/

/-- A text was written through the temporary path of a state file, whose names are in `dir`, into the
file at `written`, and then what has the temporary name got the name of the state file. -/
structure Replaced (f : StateFile) (text name : String) (dir written : Place) (links : Nat)
    (h₁ h₂ h₃ : Host) : Prop where
  fileName : f.path.fileName? = some name
  directory : f.path.directory = false
  legal : f.path.isLegal = true
  legal_temporary : f.temporary.isLegal = true
  short : ¬ nameLimit < name.utf8ByteSize
  short_temporary : ¬ nameLimit < (temporaryName name).utf8ByteSize
  folder : (h₁.folderWay f.path).outcome = .ok (dir, links)
  locate : h₁.locate f.temporary = .ok written
  leaf : h₁.IsLeaf written
  writes : Writes h₁ h₂ written (bytesOf text)
  temporary_file : h₂.at? (dir ++ [temporaryName name]) ≠ some .directory
  store_file : h₂.at? (dir ++ [name]) ≠ some .directory
  renamed : h₂.SameFile (dir ++ [temporaryName name]) (dir ++ [name]) ∧ h₃ = h₂ ∨
    ¬ h₂.SameFile (dir ++ [temporaryName name]) (dir ++ [name]) ∧
      dir ++ [temporaryName name] ≠ dir ++ [name] ∧
      Renames h₂ h₃ (dir ++ [temporaryName name]) (dir ++ [name])

theorem exists_of_replaced (htree : h₁.IsTree) (hwrite : h₁.write f.temporary text = .ok h₂)
    (hrename : h₂.renameFile f.temporary f.path = .ok h₃) :
    ∃ name dir written links, f.Replaced text name dir written links h₁ h₂ h₃ := by
  have htree₂ : h₂.IsTree := htree.writeBytes hwrite
  obtain ⟨written, hlocate, hleaf, hwrites⟩ := writeBytes_eq_ok htree hwrite
  obtain ⟨p, q, hp, hq, -, hfile, hstore, hrenamed⟩ := renameFile_eq_ok hrename
  obtain ⟨name, dir, links, hname, hdirectory, hlegal, hfolder, hshort, rfl⟩ :=
    exists_of_locateName htree₂ hq hstore
  obtain ⟨hlegal', dir', links', hfolder', hshort', rfl⟩ :=
    (locateName_eq_ok (fileName?_temporary hname) (directory_temporary hname)).1 hp
  rw [folderWay_temporary h₂ hname, hfolder] at hfolder'
  cases hfolder'
  have hsame : h₂.folderWay f.path = h₁.folderWay f.path := folderWay_of_writeBytes htree hwrite
  refine ⟨name, dir, written, links, hname, hdirectory, hlegal, hlegal', hshort, hshort', ?_, hlocate,
    hleaf, hwrites, hfile, hstore, ?_⟩
  · rw [← hsame, hfolder]
  · exact hrenamed.imp_right fun ⟨hother, hne, _, hrenames⟩ => ⟨hother, hne, hrenames⟩

namespace Replaced

variable {dir written : Place} {links : Nat}
  (hr : f.Replaced text name dir written links h₁ h₂ h₃)
include hr

theorem directory_dir : h₁.at? dir = some .directory := directory_of_folderWay hr.folder

theorem locateName_path : h₁.locateName f.path = .ok (dir ++ [name]) :=
  (locateName_eq_ok hr.fileName hr.directory).2 ⟨hr.legal, dir, links, hr.folder, hr.short, rfl⟩

theorem locateName_temporary : h₁.locateName f.temporary = .ok (dir ++ [temporaryName name]) :=
  (locateName_eq_ok (fileName?_temporary hr.fileName) (directory_temporary hr.fileName)).2
    ⟨hr.legal_temporary, dir, links, by rw [folderWay_temporary h₁ hr.fileName, hr.folder],
      hr.short_temporary, rfl⟩

theorem wayOf_temporary : h₁.wayOf f.temporary = ⟨(h₁.folderWay f.path).names ++
    (h₁.way links dir [.down (temporaryName name)]).names,
    (h₁.way links dir [.down (temporaryName name)]).outcome⟩ := by
  have hfolder : (h₁.folderWay f.temporary).outcome = .ok (dir, links) := by
    rw [folderWay_temporary h₁ hr.fileName, hr.folder]
  rw [wayOf_of_folderWay (fileName?_temporary hr.fileName) (directory_temporary hr.fileName)
    hr.legal_temporary hfolder, folderWay_temporary h₁ hr.fileName]

/-- What is written into is what has the temporary name, unless that is a link. -/
theorem written_cases :
    (written = dir ++ [temporaryName name] ∧ h₁.IsLeaf written) ∨
    ∃ target, h₁.at? (dir ++ [temporaryName name]) = some (.link target) ∧
      h₂.at? (dir ++ [temporaryName name]) = some (.link target) := by
  obtain ⟨q, hq, hcases⟩ := exists_locateName hr.locate
  obtain rfl := Except.ok.inj (hq.symm.trans hr.locateName_temporary)
  rcases hcases with heq | ⟨target, hlink⟩
  · exact Or.inl ⟨heq.symm, hr.leaf⟩
  · refine Or.inr ⟨target, hlink, ?_⟩
    rw [hr.writes.at?_of_not_isLeaf hr.leaf fun hleaf => hleaf.2 target hlink, hlink]

/-- Whether two names stand for one file is as it was before the text was written. -/
theorem sameFile_iff (hne : dir ++ [temporaryName name] ≠ dir ++ [name]) :
    h₂.SameFile (dir ++ [temporaryName name]) (dir ++ [name]) ↔
      h₁.SameFile (dir ++ [temporaryName name]) (dir ++ [name]) := by
  rcases hr.written_cases with ⟨rfl, -⟩ | ⟨target, hlink, hlink₂⟩
  · have hsame := hr.writes.sameFile _ hne.symm
    exact ⟨fun h => (hsame.1 h.symm).symm, fun h => (hsame.2 h.symm).symm⟩
  · have hp : dir ++ [temporaryName name] ≠ written := by
      rintro rfl
      exact hr.leaf.2 target hlink
    by_cases hq : dir ++ [name] = written
    · refine iff_of_false (fun hsame => ?_) fun hsame => ?_
      · rw [hsame.at?_eq, hq, hr.writes.at?_self] at hlink₂
        cases hlink₂
      · rw [hsame.at?_eq, hq] at hlink
        exact hr.leaf.2 target hlink
    · rw [SameFile, SameFile, hr.writes.number? _ hp, hr.writes.number? _ hq]

/-- Other names than the two stand for what they stood for when the text was written. -/
theorem at?_of_ne {q : Place} (hp : q ≠ dir ++ [temporaryName name]) (hq : q ≠ dir ++ [name]) :
    h₃.at? q = h₂.at? q := by
  rcases hr.renamed with ⟨-, rfl⟩ | ⟨-, -, hrenames⟩
  · rfl
  · exact hrenames.at?_of_ne hp hq

/-- The name of the state file stands for what had the temporary name. -/
theorem at?_store : h₃.at? (dir ++ [name]) = h₂.at? (dir ++ [temporaryName name]) := by
  rcases hr.renamed with ⟨hsame, rfl⟩ | ⟨-, -, hrenames⟩
  · exact hsame.at?_eq.symm
  · rw [hrenames.at?, if_pos rfl]

theorem here : h₃.here = h₁.here := by
  rcases hr.renamed with ⟨-, rfl⟩ | ⟨-, -, hrenames⟩
  · exact hr.writes.here
  · exact hrenames.here.trans hr.writes.here

theorem directories : ∀ r, h₁.at? r = some .directory → h₃.at? r = some .directory := by
  intro r hdir
  have hdir₂ := hr.writes.directories hr.leaf r hdir
  rcases hr.renamed with ⟨-, rfl⟩ | ⟨-, -, hrenames⟩
  · exact hdir₂
  · exact hrenames.directories hr.temporary_file hr.store_file r hdir₂

end Replaced

/-! ## What a save leaves alone -/

/-- After a successful save the name of the state file stands for the text, and nothing has the
temporary name, unless it is the same one or another name of one file. If the temporary name was a
link, the state file is that link now, and the text is in the file that it led to. All other names
stand for what they stood for, except that missing directories on the way to the state file were
made. -/
theorem frame_of_save (f : StateFile) (h : Host) (text : String)
    (hinders : HostStep → Option Hindrance) (htree : h.IsTree)
    (hsaved : (f.save h text hinders).2 = none) :
    let h₁ := f.prepared h
    let h' := (f.save h text hinders).1
    ∃ store temp written, h₁.locateName f.path = .ok store ∧
      h₁.locateName f.temporary = .ok temp ∧ h₁.locate f.temporary = .ok written ∧
      (∀ q, q ≠ store → q ≠ temp → q ≠ written → ¬ h₁.SameFile q written →
        h'.at? q = h.at? q ∨ h.at? q = none ∧ h'.at? q = some .directory ∧
          ∃ d ∈ f.directories, h₁.locateName d = .ok q) ∧
      (∀ q, q ≠ store → q ≠ temp → q = written ∨ h₁.SameFile q written →
        h'.at? q = some (.file text)) ∧
      (temp ≠ store → ¬ h₁.SameFile temp store → h'.at? temp = none) ∧
      ((∀ target, h.at? temp ≠ some (.link target)) →
        written = temp ∧ h'.at? store = some (.file text)) ∧
      ∀ target, h.at? temp = some (.link target) → h'.at? store = some (.link target) := by
  intro h₁ h'
  have hw : WidenedBy f.directories h h₁ := widenedBy_prepared htree
  have hfinished : Finished f text h h' :=
    ((save_cases f h text hinders).resolve_left fun hrefused => hrefused.1 hsaved).2
  obtain ⟨h₂, hwrite, hrename⟩ := hfinished.replaced
  obtain ⟨name, dir, written, links, hr⟩ := exists_of_replaced (isTree_prepared htree) hwrite hrename
  have hlink : ∀ {q target}, h₁.at? q = some (.link target) → h.at? q = some (.link target) := by
    intro q target hq
    rcases hw.at? q with hsame | ⟨-, hnew, -⟩
    · rw [← hsame, hq]
    · rw [hnew] at hq
      cases hq
  refine ⟨dir ++ [name], dir ++ [temporaryName name], written, hr.locateName_path,
    hr.locateName_temporary, hr.locate, ?rest, ?written, ?gone, ?file, ?link⟩
  case rest =>
    intro q hstore htemp hq hsame
    rw [hr.at?_of_ne htemp hstore, hr.writes.at?_of_ne hq hsame]
    exact hw.at? q
  case written =>
    intro q hstore htemp hq
    rw [hr.at?_of_ne htemp hstore, hr.writes.at?, if_pos hq]
    rfl
  case gone =>
    intro hne hother
    rcases hr.renamed with ⟨hsame, -⟩ | ⟨-, -, hrenames⟩
    · exact absurd ((hr.sameFile_iff hne).1 hsame) hother
    · rw [hrenames.at?, if_neg hne, if_pos rfl]
  case file =>
    intro hno
    rcases hr.written_cases with ⟨heq, -⟩ | ⟨target, ht, -⟩
    · refine ⟨heq, ?_⟩
      rw [hr.at?_store, ← heq, hr.writes.at?_self]
      rfl
    · exact absurd (hlink ht) (hno target)
  case link =>
    intro target ht
    have ht₁ : h₁.at? (dir ++ [temporaryName name]) = some (.link target) := by
      rw [hw.at?_of_ne_none (by simp [ht]), ht]
    have hother : dir ++ [temporaryName name] ≠ written := by
      rintro rfl
      exact hr.leaf.2 target ht₁
    rw [hr.at?_store, hr.writes.at?_of_not_isLeaf hr.leaf fun hleaf => hleaf.2 target ht₁, ht₁]

/-- A file of another name is still there after the state was saved in a new directory. -/
theorem frame_of_save_beside_notes :
    let h := (StateFile.save ⟨.ofText "notes.json"⟩ (bare ["work"]) "notes").1
    let f : StateFile := ⟨.ofText "nested/state.json"⟩
    h.IsTree ∧ (f.save h "new").2 = none ∧
      (f.save h "new").1.at? ["work", "nested", "state.json"] = some (.file "new") ∧
      (f.save h "new").1.at? ["work", "notes.json"] = some (.file "notes") := by
  intro h f
  have htree : h.IsTree := isTree_save (isTree_bare ["work"])
  have hsaved : (f.save h "new").2 = none := by decide +kernel
  have hnotes : h.at? ["work", "notes.json"] = some (.file "notes") := by decide +kernel
  obtain ⟨store, temp, written, hstore, htemp, hwritten, hrest, -, -, hfile, -⟩ :=
    frame_of_save f h "new" HostStep.unhindered htree hsaved
  have hstore' : (f.prepared h).locateName f.path =
      .ok ["work", "nested", "state.json"] := by decide +kernel
  have htemp' : (f.prepared h).locateName f.temporary =
      .ok ["work", "nested", "state.tmp"] := by decide +kernel
  cases hstore.symm.trans hstore'
  cases htemp.symm.trans htemp'
  have hnew : h.at? ["work", "nested", "state.tmp"] = none := by decide +kernel
  obtain ⟨rfl, htext⟩ := hfile (by simp [hnew])
  refine ⟨htree, hsaved, htext, ?_⟩
  rcases hrest ["work", "notes.json"] (by decide) (by decide) (by decide) (by decide +kernel) with
    hsame | ⟨hnone, -⟩
  · exact hsame.trans hnotes
  · exact absurd (hnotes.symm.trans hnone) (Option.some_ne_none _)

/-- A file that has the name of the temporary file is gone after a save, and one that a link of this
name leads to holds the new text. -/
theorem temporary_lost_of_save :
    let lost := (StateFile.save ⟨.ofText "state.tmp"⟩ (bare ["work"]) "notes").1
    let linked := (StateFile.save ⟨.ofText "notes.txt"⟩ (bare ["work"]) "notes").1.put
      ["work", "state.tmp"] (.link (.ofText "notes.txt"))
    let f : StateFile := ⟨.ofText "state.json"⟩
    (lost.locate f.path = .ok ["work", "state.json"] ∧
        lost.at? ["work", "state.tmp"] = some (.file "notes") ∧ (f.save lost "new").2 = none ∧
        (f.save lost "new").1.at? ["work", "state.tmp"] = none) ∧
      linked.locate f.path = .ok ["work", "state.json"] ∧
        linked.at? ["work", "notes.txt"] = some (.file "notes") ∧ (f.save linked "new").2 = none ∧
        (f.save linked "new").1.at? ["work", "notes.txt"] = some (.file "new") := by
  decide +kernel

end StateFile

end VirtualShell
