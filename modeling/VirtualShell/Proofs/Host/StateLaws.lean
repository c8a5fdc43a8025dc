import VirtualShell.Proofs.Host.Replacing

/-!
# What a state file holds

A load gives what the last successful save put there (`load_after_calls`), and a save that is
stopped in between leaves the old state or the new one (`load_of_stopped`), where no name and no link
ties the temporary path to the path of the state file: else a save that is given up may have written
into the state file, or there may be no way to it any more (`refused_after_refused_save`,
`not_whole_of_stopped`). Both laws have an exception that comes from the directories of the path. They
are made first and they stay, so that a path which led nowhere for lack of a directory may lead
somewhere after a save that was refused or stopped: to a name that the host does not take, or, through
a `..` part, to a file that was there all the time.
-/

namespace VirtualShell

namespace HostPath

/-- The path holds file names only: no `..` parts, and it does not ask for a directory. -/
def IsPlain (p : HostPath) : Prop := ".." ∉ p.parts ∧ p.directory = false

instance (p : HostPath) : Decidable p.IsPlain := inferInstanceAs (Decidable (_ ∧ _))

end HostPath

namespace StateFile

open Host

variable {f : StateFile} {h h' : Host} {text : String} {hinders : HostStep → Option Hindrance}

/-! ## What is loaded, by what is read -/

theorem load_eq_none_iff : f.load h = .ok none ↔ h.read f.path = .error .missing := by
  rw [load]
  split <;> simp_all

theorem load_eq_some_iff : f.load h = .ok (some text) ↔ h.read f.path = .ok text := by
  rw [load]
  split <;> simp_all

theorem load_eq_error_iff {e : HostError} :
    f.load h = .error e ↔ e = .refused ∧ h.read f.path = .error .refused := by
  rw [load]
  cases hread : h.read f.path with
  | ok text => simp
  | error e' => cases e' <;> simp [eq_comm]

theorem load_congr (hread : h'.read f.path = h.read f.path) : f.load h' = f.load h := by
  rw [load, load, hread]

/-! ## The directories that were made -/

/-- Of directories whose path is too long none is made. -/
theorem makeAll_cases {dirs : List HostPath} (hdirs : dirs <+: f.directories) :
    (h.makeAll dirs).1 = h ∨ ∃ k, k < f.path.parts.length ∧
      dirs = (List.range k).map fun i => f.path.upTo (i + 1) := by
  unfold directories at hdirs
  split at hdirs
  · obtain ⟨k, rfl | hk, rfl⟩ := HostPath.prefix_ancestry_parent hdirs
    · exact Or.inl rfl
    · exact Or.inr ⟨k, hk, rfl⟩
  · next hlong =>
    left
    rcases List.prefix_cons_iff.1 hdirs with rfl | ⟨dirs', rfl, hnil⟩
    · rfl
    · obtain ⟨e, hrefused⟩ := ensureDirectory_of_not_isLegal h hlong
      rw [makeAll_cons_of_error hrefused]

/-- After directories on the way were made a load gives what it gave before. Where it found nothing,
it may now be refused, but only if the path has a `..` part or a long name, or it may find a file
that was there before, but only if the path has a `..` part. -/
theorem load_of_makeAll (htree : h.IsTree) {dirs : List HostPath} (hdirs : dirs <+: f.directories) :
    f.load (h.makeAll dirs).1 = f.load h ∨
      f.load h = .ok none ∧
        (f.load (h.makeAll dirs).1 = .error .refused ∧
            (".." ∈ f.path.parts ∨ f.path.HasLongName) ∨
          ".." ∈ f.path.parts ∧
            ∃ p old, h.at? p = some (.file old) ∧ f.load (h.makeAll dirs).1 = .ok (some old)) := by
  have hw := widenedBy_makeAll htree dirs
  by_cases hread : h.read f.path = .error .missing
  · by_cases hodd : ".." ∈ f.path.parts ∨ f.path.HasLongName
    · cases hread' : (h.makeAll dirs).1.read f.path with
      | ok old =>
        obtain ⟨p, hlocate, hold⟩ := read_eq_ok.1 hread'
        have hdots : ".." ∈ f.path.parts := by
          refine hodd.resolve_right fun ⟨part, hpart, hlong⟩ => ?_
          exact short_of_locate hlocate part hpart hlong
        exact Or.inr ⟨load_eq_none_iff.2 hread, Or.inr ⟨hdots, p, old, hw.at?_eq_content hold,
          load_eq_some_iff.2 hread'⟩⟩
      | error e =>
        cases e with
        | missing => exact Or.inl (load_congr (hread'.trans hread.symm))
        | refused =>
          exact Or.inr ⟨load_eq_none_iff.2 hread,
            Or.inl ⟨load_eq_error_iff.2 ⟨rfl, hread'⟩, hodd⟩⟩
    · rw [not_or] at hodd
      have hshort : ∀ part ∈ f.path.parts, part.utf8ByteSize ≤ HostPath.nameLimit :=
        fun part hpart => Nat.le_of_not_lt fun hlong => hodd.2 ⟨part, hpart, hlong⟩
      rcases makeAll_cases (h := h) hdirs with hsame | ⟨k, hk, rfl⟩
      · exact Or.inl (by rw [hsame])
      · exact Or.inl (load_congr ((read_of_makeAll_upTo htree hodd.1 hshort hk hread).trans hread.symm))
  · exact Or.inl (load_congr (hw.read htree hread))

/-- When the directories are made, those that were made before make no difference. -/
theorem prepared_of_makeAll (htree : h.IsTree) {dirs : List HostPath}
    (hdirs : dirs <+: f.directories) : f.prepared (h.makeAll dirs).1 = f.prepared h := by
  obtain ⟨rest, hrest⟩ := hdirs
  rw [prepared, prepared, ← hrest, makeAll_twice htree]

/-! ## Saves that are given up, and saves that succeed -/

theorem load_of_finished (htree : h.IsTree) (hapart : f.Apart (f.prepared h))
    (hfinished : Finished f text h h') : f.load h' = .ok (some text) := by
  obtain ⟨h₂, hwrite, hrename⟩ := hfinished.replaced
  obtain ⟨name, dir, written, links, hr⟩ :=
    exists_of_replaced (isTree_prepared htree) hwrite hrename
  exact load_eq_some_iff.2 (hr.read hapart (isTree_prepared htree))

/-- Before the temporary file takes the place of the state file, a load gives what it gave when some
directories were made. -/
theorem load_of_unfinished (htree : h.IsTree) (hapart : f.Apart (f.prepared h))
    (hunfinished : Unfinished f text h h') :
    ∃ dirs, dirs <+: f.directories ∧ f.load h' = f.load (h.makeAll dirs).1 := by
  cases hunfinished with
  | preparing hdirs => exact ⟨_, hdirs, rfl⟩
  | writing _ _ hwrite =>
    exact ⟨f.directories, List.prefix_rfl,
      load_congr (hapart.read_of_writeBytes (isTree_prepared htree) hwrite)⟩

/-- The two paths have nothing to do with each other when the next text is saved. -/
theorem apart_save (htree : h.IsTree) (hapart : f.Apart (f.prepared h)) :
    f.Apart (f.prepared (f.save h text hinders).1) := by
  have htree₁ : (f.prepared h).IsTree := isTree_prepared htree
  have hthere : (h.makeAll f.directories).2 = none →
      ∀ d ∈ f.directories, (f.prepared h).LeadsToDirectory d := leadsToDirectory_of_makeAll htree
  have hstay : ∀ {g : Host}, (∀ d ∈ f.directories, g.LeadsToDirectory d) → f.prepared g = g :=
    fun hdirs => congrArg Prod.fst (makeAll_of_leadsToDirectory hdirs)
  rcases save_cases f h text hinders with ⟨-, hunfinished⟩ | ⟨-, hfinished⟩
  · generalize (f.save h text hinders).1 = h' at hunfinished
    cases hunfinished with
    | preparing hdirs => rwa [prepared_of_makeAll htree hdirs]
    | writing hmade _ hwrite =>
      rw [hstay fun d hd => leadsToDirectory_of_writeBytes htree₁ hwrite (hthere hmade d hd)]
      exact hapart.writeBytes htree₁ hwrite
  · obtain ⟨h₂, hwrite, hrename⟩ := hfinished.replaced
    obtain ⟨name, dir, written, links, hr⟩ := exists_of_replaced htree₁ hwrite hrename
    rw [hstay fun d hd => hr.leadsToDirectory hapart htree₁ hd (hthere hfinished.made d hd)]
    exact hr.apart hapart htree₁

/-- Where nothing was found, a load is refused now, for the path has a long name. -/
def Hindered (f : StateFile) (h h' : Host) : Prop :=
  f.path.HasLongName ∧ f.load h = .ok none ∧ f.load h' = .error .refused

/-- A save that is given up changes no load, unless it lets a long name come to light. -/
theorem load_of_refused (htree : h.IsTree) (hplain : f.path.IsPlain)
    (hapart : f.Apart (f.prepared h)) (hrefused : (f.save h text hinders).2 ≠ none) :
    f.load (f.save h text hinders).1 = f.load h ∨ f.Hindered h (f.save h text hinders).1 := by
  have hunfinished : Unfinished f text h (f.save h text hinders).1 :=
    ((save_cases f h text hinders).resolve_right fun hsaved => hrefused hsaved.1).2
  obtain ⟨dirs, hdirs, hsame⟩ := load_of_unfinished htree hapart hunfinished
  rw [Hindered, hsame]
  refine (load_of_makeAll htree hdirs).imp_right fun ⟨hnone, hodd⟩ => ?_
  rcases hodd with ⟨hload, hlong⟩ | ⟨hdots, -⟩
  · exact ⟨hlong.resolve_left hplain.1, hnone, hload⟩
  · exact absurd hdots hplain.1

theorem load_of_saved (htree : h.IsTree) (hapart : f.Apart (f.prepared h))
    (hsaved : (f.save h text hinders).2 = none) :
    f.load (f.save h text hinders).1 = .ok (some text) :=
  load_of_finished htree hapart
    ((save_cases f h text hinders).resolve_left fun hrefused => hrefused.1 hsaved).2

/-! ## Calls one after another -/

/-- A call on a state file. -/
inductive Call where
  /-- Saves a text; some steps the host gives up for reasons of its own. -/
  | save (text : String) (hinders : HostStep → Option Hindrance)
  | load

/-- The host after a call. -/
def Call.host (f : StateFile) (h : Host) : Call → Host
  | save text hinders => (f.save h text hinders).1
  | load => h

/-- The text that a call saves, if it does. -/
def Call.saved? (f : StateFile) (h : Host) : Call → Option String
  | save text hinders => if (f.save h text hinders).2 = none then some text else none
  | load => none

/-- The host after some calls. -/
def hostAfter (f : StateFile) (h : Host) (calls : List Call) : Host :=
  calls.foldl (fun h call => call.host f h) h

/-- The text of the last save that succeeds among some calls. -/
def lastSaved? (f : StateFile) : Host → List Call → Option String
  | _, [] => none
  | h, call :: calls => (f.lastSaved? (call.host f h) calls).or (call.saved? f h)

theorem Call.isTree_host (htree : h.IsTree) (call : Call) : (call.host f h).IsTree := by
  cases call with
  | save text hinders => exact isTree_save htree
  | load => exact htree

theorem Call.apart_host (htree : h.IsTree) (hapart : f.Apart (f.prepared h)) (call : Call) :
    f.Apart (f.prepared (call.host f h)) := by
  cases call with
  | save text hinders => exact apart_save htree hapart
  | load => exact hapart

/-- A load after a call gives the text that was saved, or what it gave before. -/
theorem Call.load_host (htree : h.IsTree) (hplain : f.path.IsPlain)
    (hapart : f.Apart (f.prepared h)) (call : Call) :
    f.load (call.host f h) = (call.saved? f h).elim (f.load h) (fun text => .ok (some text)) ∨
      call.saved? f h = none ∧ f.Hindered h (call.host f h) := by
  cases call with
  | load => exact Or.inl rfl
  | save text hinders =>
    by_cases hsaved : (f.save h text hinders).2 = none
    · rw [saved?, if_pos hsaved]
      exact Or.inl (load_of_saved htree hapart hsaved)
    · rw [saved?, if_neg hsaved]
      exact (load_of_refused htree hplain hapart hsaved).imp_right fun hhindered => ⟨rfl, hhindered⟩

/-- In a host whose files form a tree, where no name and no link ties the two paths of a state file to
each other: if the path is plain, a load after any calls gives the text of the last save that
succeeded, and what a load gave at first if none did. Only where that found nothing and the path has a
name that is too long for the host, it may be refused. -/
theorem load_after_calls (f : StateFile) (h : Host) (htree : h.IsTree) (hplain : f.path.IsPlain)
    (hapart : f.Apart (f.prepared h)) (calls : List Call) :
    f.load (f.hostAfter h calls) =
        (f.lastSaved? h calls).elim (f.load h) (fun text => .ok (some text)) ∨
      f.lastSaved? h calls = none ∧ f.path.HasLongName ∧ f.load h = .ok none ∧
        f.load (f.hostAfter h calls) = .error .refused := by
  induction calls generalizing h with
  | nil => exact Or.inl rfl
  | cons call calls ih =>
    have hrest := ih (call.host f h) (call.isTree_host htree) (call.apart_host htree hapart)
    have hcall := call.load_host htree hplain hapart
    rw [hostAfter, List.foldl_cons, ← hostAfter, lastSaved?]
    cases hlater : f.lastSaved? (call.host f h) calls with
    | some text =>
      rw [hlater] at hrest
      exact Or.inl (hrest.resolve_right fun hnone => Option.some_ne_none _ hnone.1)
    | none =>
      rw [hlater, Option.elim_none] at hrest
      rw [Option.none_or]
      rcases hcall with hcall | ⟨hunsaved, hlong, hnone, hload⟩
      · rw [← hcall]
        refine hrest.imp_right fun ⟨_, hlong, hnone, hrefused⟩ => ?_
        -- a text that was saved would have been found
        cases hsaved : call.saved? f h with
        | none =>
          rw [hsaved, Option.elim_none] at hcall
          exact ⟨rfl, hlong, hcall.symm.trans hnone, hrefused⟩
        | some text =>
          rw [hsaved, Option.elim_some, hnone] at hcall
          exact absurd hcall (by simp)
      · rcases hrest with hsame | ⟨-, -, hnone', -⟩
        · exact Or.inr ⟨hunsaved, hlong, hnone, hsame.trans hload⟩
        · exact absurd (hload.symm.trans hnone') (by simp)

/-- Two saves in a directory that is not there at first, and a third one whose file is not written to
its end: the second text is loaded. -/
theorem load_after_two_saves :
    let f : StateFile := ⟨.ofText "nested/state.json"⟩
    let calls : List Call := [.load, .save "one" HostStep.unhindered, .load,
      .save "two" HostStep.unhindered, .save "three" fun _ => some (.broken 2)]
    (bare ["work"]).IsTree ∧ f.path.IsPlain ∧ f.Apart (f.prepared (bare ["work"])) ∧
      f.load (f.hostAfter (bare ["work"]) calls) = .ok (some "two") := by
  intro f calls
  have htree := isTree_bare ["work"]
  have hplain : f.path.IsPlain := by decide +kernel
  have hapart : f.Apart (f.prepared (bare ["work"])) := by decide +kernel
  have hlast : f.lastSaved? (bare ["work"]) calls = some "two" := by decide +kernel
  refine ⟨htree, hplain, hapart, ?_⟩
  rcases load_after_calls f (bare ["work"]) htree hplain hapart calls with hload | ⟨hnone, -⟩
  · rw [hload, hlast, Option.elim_some]
  · exact absurd (hlast.symm.trans hnone) (Option.some_ne_none _)

/-- The directory of a file with a long name is missing, and the file with it. A save makes the
directory and is then refused, and from then on a load is refused as well. -/
theorem refused_of_longName {name : String} (hlong : HostPath.nameLimit < name.utf8ByteSize)
    (hlength : name.utf8ByteSize < 4000) (hpoint : '.' ∉ name.toList) (hnull : '\x00' ∉ name.toList) :
    let f : StateFile := ⟨⟨false, ["nested", name], false⟩⟩
    f.path.IsPlain ∧ f.load (bare ["work"]) = .ok none ∧
      (f.save (bare ["work"]) "new").2 = some .refused ∧
      f.load (f.save (bare ["work"]) "new").1 = .error .refused := by
  intro f
  have hdots : name ≠ ".." := by
    rintro rfl
    exact absurd hlong (by decide)
  have hplain : f.path.IsPlain :=
    ⟨by simp [f, hdots.symm, show ".." ≠ "nested" by decide], rfl⟩
  have hname : f.path.fileName? = some name := by simp [f, HostPath.fileName?, hdots]
  have hnested : "nested".utf8ByteSize = 6 := by decide
  have hsizes : ".".utf8ByteSize = 1 ∧ "tmp".utf8ByteSize = 3 := by decide
  have hlegal : f.path.isLegal = true := by
    simp [HostPath.isLegal, HostPath.length, HostPath.lengthLimit, f, hnull, hnested]
    omega
  have hsuffix : temporaryName name = name ++ "." ++ "tmp" := by
    rw [temporaryName, HostPath.stem_of_not_mem hpoint]
  have hlegal' : f.temporary.isLegal = true := by
    rw [temporary_eq hname, hsuffix]
    simp [HostPath.isLegal, HostPath.length, HostPath.lengthLimit, f, hnull, hnested]
    omega
  have hlong' : HostPath.nameLimit < (temporaryName name).utf8ByteSize := by
    rw [hsuffix, String.utf8ByteSize_append, String.utf8ByteSize_append]
    omega
  have hread : (bare ["work"]).read f.path = .error .missing := by
    refine read_eq_missing_iff.2 (Or.inl ?_)
    rw [wayOf_of_fileName hname rfl hlegal]
    rfl
  have hfolder : (((bare ["work"]).put ["work", "nested"] .directory).folderWay f.path).outcome =
      .ok (["work", "nested"], linkLimit) := rfl
  have hfolder' := hfolder
  rw [← folderWay_temporary _ hname] at hfolder'
  have hmade : HostStep.runAll HostStep.unhindered (bare ["work"])
      (f.directories.map .ensureDirectory) =
        ((bare ["work"]).put ["work", "nested"] .directory, none) := rfl
  have hsave : f.save (bare ["work"]) "new" =
      ((bare ["work"]).put ["work", "nested"] .directory, some .refused) := by
    rw [save, saveSteps, directorySteps_eq, HostStep.runAll_append, hmade]
    simp only [HostStep.runAll, HostStep.unhindered, HostStep.run, write, writeBytes,
      locate_of_longName (fileName?_temporary hname) (directory_temporary hname) hlegal' hfolder'
        hlong']
    rfl
  refine ⟨hplain, load_eq_none_iff.2 hread, by rw [hsave], ?_⟩
  rw [hsave]
  refine load_eq_error_iff.2 ⟨rfl, ?_⟩
  rw [read_eq, locate_of_longName hname rfl hlegal hfolder hlong]
  rfl

/-- A save may let a long name come to light. If the temporary name is a link to the state file, a save
succeeds and leaves a link to itself, which cannot be loaded. And if the state file has the temporary
name itself, a save that is refused in the end has changed it. -/
theorem refused_after_refused_save :
    let old := (StateFile.save ⟨.ofText "state.json"⟩ (bare ["work"]) "old").1
    let linked := old.put ["work", "state.tmp"] (.link (.ofText "state.json"))
    let renamed := old.rename ["work", "state.json"] ["work", "state.tmp"]
    let unlucky : HostStep → Option Hindrance
      | .renameFile _ _ => some .refused
      | _ => none
    let long : StateFile := ⟨⟨false, ["nested", String.ofList (List.replicate 300 'x')], false⟩⟩
    let f : StateFile := ⟨.ofText "state.json"⟩
    let g : StateFile := ⟨.ofText "state.tmp"⟩
    (long.path.IsPlain ∧ long.load (bare ["work"]) = .ok none ∧
        (long.save (bare ["work"]) "new").2 = some .refused ∧
        long.load (long.save (bare ["work"]) "new").1 = .error .refused) ∧
      (f.path.IsPlain ∧ f.load linked = .ok (some "old") ∧ (f.save linked "new").2 = none ∧
        f.load (f.save linked "new").1 = .error .refused) ∧
      g.path.IsPlain ∧ g.load renamed = .ok (some "old") ∧
        (g.save renamed "new" unlucky).2 = some .refused ∧
        g.load (g.save renamed "new" unlucky).1 = .ok (some "new") := by
  intro old linked renamed unlucky long f g
  have hsize : (String.ofList (List.replicate 300 'x')).utf8ByteSize = 300 := by decide +kernel
  have hchars : ∀ c ≠ 'x', c ∉ (String.ofList (List.replicate 300 'x')).toList := by
    intro c hc hmem
    rw [String.toList_ofList] at hmem
    exact hc (List.eq_of_mem_replicate hmem)
  refine ⟨refused_of_longName (by rw [hsize]; decide) (by rw [hsize]; decide)
    (hchars '.' (by decide)) (hchars '\x00' (by decide)), ?_⟩
  decide +kernel

/-! ## Saves that are stopped -/

/-- In a host whose files form a tree, where no name and no link ties the two paths of a state file to
each other: when the host is stopped while a text is saved, a load gives what it gave before, or the
whole text. Only where it found nothing before, it may also be refused, if the path has a `..` part or a
name that is too long for the host, or give the whole text of a file that was there before, if the path
has a `..` part. -/
theorem load_of_stopped (f : StateFile) (h h' : Host) (text : String) (htree : h.IsTree)
    (hapart : f.Apart (f.prepared h)) (hstop : HostStep.Stopped h (f.saveSteps text) h') :
    f.load h' = f.load h ∨ f.load h' = .ok (some text) ∨
      f.load h = .ok none ∧
        (f.load h' = .error .refused ∧ (".." ∈ f.path.parts ∨ f.path.HasLongName) ∨
          ".." ∈ f.path.parts ∧
            ∃ p old, h.at? p = some (.file old) ∧ f.load h' = .ok (some old)) := by
  rcases stopped_cases hstop with hunfinished | hfinished
  · obtain ⟨dirs, hdirs, hsame⟩ := load_of_unfinished htree hapart hunfinished
    rw [hsame]
    exact (load_of_makeAll htree hdirs).imp_right Or.inr
  · exact Or.inr (Or.inl (load_of_finished htree hapart hfinished))

/-- The host is stopped when one byte of the new text is written: the old text is loaded. -/
theorem load_of_stopped_in_writing :
    let f : StateFile := ⟨.ofText "nested/state.json"⟩
    let h := (f.save (bare ["work"]) "old").1
    let h' := h.put ["work", "nested", "state.tmp"] (.file "n")
    h.IsTree ∧ f.Apart (f.prepared h) ∧ HostStep.Stopped h (f.saveSteps "new") h' ∧
      (f.load h' = .ok (some "old") ∨ f.load h' = .ok (some "new")) := by
  intro f h h'
  have htree : h.IsTree := isTree_save (isTree_bare ["work"])
  have hold : f.load h = .ok (some "old") := by decide +kernel
  have hapart : f.Apart (f.prepared h) := by decide +kernel
  have hstop : HostStep.Stopped h (f.saveSteps "new") h' :=
    .writing f.directorySteps f.temporary "new" (bytesOf "n") h' (by decide +kernel)
      (by decide +kernel) (by decide +kernel) (by decide +kernel)
  refine ⟨htree, hapart, hstop, ?_⟩
  rcases load_of_stopped f h h' "new" htree hapart hstop with hsame | hnew | ⟨hnone, -⟩
  · exact Or.inl (hsame.trans hold)
  · exact Or.inr hnew
  · exact absurd (hold.symm.trans hnone) (by decide)

/-- After the first step of saving, a path may lead through a new directory and back to a file that
was there. And half of the new text is in the state file if it has the name of the temporary file, or
if that name is a link to it. -/
theorem not_whole_of_stopped :
    let old := (StateFile.save ⟨.ofText "state.json"⟩ (bare ["work"]) "old").1
    let linked := old.put ["work", "state.tmp"] (.link (.ofText "state.json"))
    let renamed := old.rename ["work", "state.json"] ["work", "state.tmp"]
    let back : StateFile := ⟨.ofText "nested/../state.json"⟩
    let f : StateFile := ⟨.ofText "state.json"⟩
    let g : StateFile := ⟨.ofText "state.tmp"⟩
    (∃ h', HostStep.Stopped old (back.saveSteps "new") h' ∧ back.load old = .ok none ∧
        back.load h' = .ok (some "old")) ∧
      (∃ h', HostStep.Stopped renamed (g.saveSteps "new") h' ∧
        g.load renamed = .ok (some "old") ∧ g.load h' = .ok (some "n")) ∧
      ∃ h', HostStep.Stopped linked (f.saveSteps "new") h' ∧
        f.load linked = .ok (some "old") ∧ f.load h' = .ok (some "n") := by
  intro old linked renamed back f g
  refine ⟨⟨_, .between [.ensureDirectory (.ofText "nested")] ?_, ?_, ?_⟩,
    ⟨_, .writing [] (.ofText "state.tmp") "new" (bytesOf "n")
      (renamed.overwrite ["work", "state.tmp"] (.file "n")) ?_ rfl ?_ ?_, ?_, ?_⟩,
    ⟨_, .writing [] (.ofText "state.tmp") "new" (bytesOf "n")
      (linked.overwrite ["work", "state.json"] (.file "n")) ?_ rfl ?_ ?_, ?_, ?_⟩⟩ <;>
    decide +kernel

end StateFile

end VirtualShell
