import VirtualShell.Host.StateFile
import VirtualShell.Proofs.Host.Operations

/-!
# Making directories

Making directories one after another widens the host: directories come to stand where nothing stood
(`widenedBy_makeAll`). A path that led to a directory, or to something that could be read, leads there
still (`WidenedBy.locate_directory`, `WidenedBy.read`), and making the directories once more changes
nothing (`makeAll_twice`). Where the directories are those on the way down to a path, one after
another, nothing new is read through the path itself (`read_of_makeAll_upTo`): behind the first one
that is new there is nothing yet, not even a link.
-/

namespace VirtualShell

namespace Host

open HostPath (nameLimit Move)

variable {h h' h'' : Host} {n m : Nat} {p q : Place} {path : HostPath} {dirs dirs' : List HostPath}

/-! ## Wider hosts -/

/-- The host `h'` is like `h`, except that some of the given directories stand where nothing
stood. -/
structure WidenedBy (dirs : List HostPath) (h h' : Host) : Prop where
  here : h'.here = h.here
  at? : ∀ q, h'.at? q = h.at? q ∨
    h.at? q = none ∧ h'.at? q = some .directory ∧ ∃ d ∈ dirs, h'.locateName d = .ok q
  number? : ∀ q, h.at? q ≠ none → h'.number? q = h.number? q

namespace WidenedBy

theorem refl (h : Host) : WidenedBy dirs h h := ⟨rfl, fun _ => Or.inl rfl, fun _ _ => rfl⟩

theorem mono (hw : WidenedBy dirs h h') (hsub : ∀ d ∈ dirs, d ∈ dirs') : WidenedBy dirs' h h' where
  here := hw.here
  at? q := (hw.at? q).imp_right fun ⟨hnone, hnew, d, hd, hlocate⟩ =>
    ⟨hnone, hnew, d, hsub d hd, hlocate⟩
  number? := hw.number?

theorem at?_of_ne_none (hw : WidenedBy dirs h h') (hq : h.at? q ≠ none) : h'.at? q = h.at? q :=
  (hw.at? q).resolve_right fun hnew => hq hnew.1

theorem directories (hw : WidenedBy dirs h h') :
    ∀ r, h.at? r = some .directory → h'.at? r = some .directory := by
  intro r hr
  rw [hw.at?_of_ne_none (by simp [hr]), hr]

/-- A file that stands in the wider host stood there before. -/
theorem at?_eq_content (hw : WidenedBy dirs h h') {bytes : List UInt8}
    (hq : h'.at? q = some (.content bytes)) : h.at? q = some (.content bytes) := by
  rcases hw.at? q with hsame | ⟨-, hnew, -⟩
  · rw [← hsame, hq]
  · rw [hnew] at hq
    cases hq

/-- What was read before the directories were made is read afterwards, a refusal too. -/
theorem read (hw : WidenedBy dirs h h') (htree : h.IsTree)
    (hread : h.read path ≠ .error .missing) : h'.read path = h.read path :=
  read_of_agree htree hw.here hw.directories fun _ hr =>
    hw.at?_of_ne_none fun hnone => hread (read_of_mem_trail_of_none hr hnone)

/-- A way to something that is there leads to it still. -/
theorem way (hw : WidenedBy dirs h h') (htree : h.IsTree) {moves : List Move}
    (hp : h.at? p = some .directory) (hway : (h.way n p moves).outcome = .ok (q, m))
    (hq : h.at? q ≠ none) : h'.way n p moves = h.way n p moves := by
  refine way_congr htree hw.directories (Or.inl ((hw.directories p hp).trans hp.symm))
    fun r hr => Or.inl (hw.at?_of_ne_none fun hnone => ?_)
  rcases outcome_of_mem_names_of_none hr hnone with hlost | ⟨k, hend⟩
  · rw [hway] at hlost
    cases hlost
  · rw [hway] at hend
    cases hend
    exact hq hnone

theorem folderWay (hw : WidenedBy dirs h h') (htree : h.IsTree)
    (hway : (h.folderWay path).outcome = .ok (q, m)) : h'.folderWay path = h.folderWay path := by
  rw [Host.folderWay, Host.folderWay, hw.here]
  exact hw.way htree (at?_start h path) hway (by simp [directory_of_folderWay hway])

/-- A path that leads to a directory leads to it still. -/
theorem locate_directory (hw : WidenedBy dirs h h') (htree : h.IsTree)
    (hlocate : h.locate path = .ok p) (hp : h.at? p = some .directory) :
    h'.locate path = .ok p := by
  obtain ⟨m, hway⟩ := locate_eq_ok.1 hlocate
  obtain ⟨hnonempty, hlegal, heq⟩ := wayOf_of_ok hway
  rw [heq] at hway
  refine locate_eq_ok.2 ⟨m, ?_⟩
  rw [wayOf_of_isLegal hnonempty hlegal, hw.here, hw.way htree (at?_start h path) hway (by simp [hp]),
    hway]

/-- The place of a name whose directory is there is found still. -/
theorem locateName (hw : WidenedBy dirs h h') (htree : h.IsTree)
    (hlocate : h.locateName path = .ok p) : h'.locateName path = .ok p := by
  by_cases hnamed : path.fileName? = none ∨ path.directory = true
  · have hp := directory_of_locateName htree hnamed hlocate
    have hsame : ∀ g : Host, g.locateName path = g.locate path := by
      intro g
      unfold Host.locateName
      cases hname : path.fileName? with
      | none => rfl
      | some name =>
        dsimp only
        rw [hnamed.resolve_left (by simp [hname]), if_pos rfl]
    rw [hsame] at hlocate ⊢
    exact hw.locate_directory htree hlocate hp
  · rw [not_or, Bool.not_eq_true] at hnamed
    obtain ⟨name, hname⟩ := Option.ne_none_iff_exists'.1 hnamed.1
    obtain ⟨hlegal, dir, m, hway, hshort, rfl⟩ := (locateName_eq_ok hname hnamed.2).1 hlocate
    exact (locateName_eq_ok hname hnamed.2).2
      ⟨hlegal, dir, m, by rw [hw.folderWay htree hway, hway], hshort, rfl⟩

theorem trans (hw : WidenedBy dirs h h') (hw' : WidenedBy dirs h' h'') (htree' : h'.IsTree) :
    WidenedBy dirs h h'' where
  here := hw'.here.trans hw.here
  at? q := by
    rcases hw'.at? q with hsame | ⟨hnone, hnew, hmade⟩
    · rw [hsame]
      exact (hw.at? q).imp_right fun ⟨hnone, hnew, d, hd, hlocate⟩ =>
        ⟨hnone, hnew, d, hd, hw'.locateName htree' hlocate⟩
    · refine Or.inr ⟨?_, hnew, hmade⟩
      by_contra hsome
      rw [hw.at?_of_ne_none hsome] at hnone
      exact hsome hnone
  number? q hq := by
    rw [hw'.number? q (by rwa [hw.at?_of_ne_none hq]), hw.number? q hq]

end WidenedBy

/-! ## One directory -/

/-- A path leads to a directory. -/
def LeadsToDirectory (h : Host) (path : HostPath) : Prop :=
  ∃ p, h.locate path = .ok p ∧ h.at? p = some .directory

theorem WidenedBy.leadsToDirectory (hw : WidenedBy dirs h h') (htree : h.IsTree)
    (hd : h.LeadsToDirectory path) : h'.LeadsToDirectory path := by
  obtain ⟨p, hlocate, hp⟩ := hd
  exact ⟨p, hw.locate_directory htree hlocate hp, hw.directories p hp⟩

/-- A path leads to what its name stands for, or on through a link. -/
theorem exists_locateName (hlocate : h.locate path = .ok p) :
    ∃ q, h.locateName path = .ok q ∧ (q = p ∨ ∃ target, h.at? q = some (.link target)) := by
  cases hname : path.fileName? with
  | none => exact ⟨p, by rw [locateName, hname]; exact hlocate, Or.inl rfl⟩
  | some name =>
    cases hdir : path.directory with
    | true =>
      refine ⟨p, ?_, Or.inl rfl⟩
      rw [locateName, hname]
      dsimp only
      rw [hdir, if_pos rfl, hlocate]
    | false =>
      obtain ⟨m, hway⟩ := locate_eq_ok.1 hlocate
      obtain ⟨-, hlegal, -⟩ := wayOf_of_ok hway
      rw [wayOf_of_fileName hname hdir hlegal] at hway
      obtain ⟨dir, k, hfolder, hlast⟩ := Way.exists_of_andThen_eq_ok hway
      have hdirectory := directory_of_folderWay hfolder
      by_cases hlong : nameLimit < name.utf8ByteSize
      · rw [way_of_longName hdirectory hlong] at hlast
        cases hlast
      · refine ⟨dir ++ [name], (locateName_eq_ok hname hdir).2
          ⟨hlegal, dir, k, hfolder, hlong, rfl⟩, ?_⟩
        by_cases hlink : ∃ target, h.at? (dir ++ [name]) = some (.link target)
        · exact Or.inr hlink
        · rw [way_down hdirectory hlong fun target ht => hlink ⟨target, ht⟩, way_nil] at hlast
          cases hlast
          exact Or.inl rfl

/-- A directory that is there is not made again. -/
theorem ensureDirectory_of_leadsToDirectory (hd : h.LeadsToDirectory path) :
    h.ensureDirectory path = .ok h := by
  obtain ⟨p, hlocate, hp⟩ := hd
  obtain ⟨q, hname, hq⟩ := exists_locateName hlocate
  have hsome : ∃ e, h.at? q = some e := by
    rcases hq with rfl | ⟨target, hlink⟩
    · exact ⟨_, hp⟩
    · exact ⟨_, hlink⟩
  obtain ⟨e, he⟩ := hsome
  simp [Host.ensureDirectory, hname, he, hlocate, hp, bind, Except.bind]

/-- After a directory was made its path leads to a directory. -/
theorem ensureDirectory_widens (htree : h.IsTree) (hpath : path ∈ dirs)
    (hstep : h.ensureDirectory path = .ok h') :
    WidenedBy dirs h h' ∧ h'.LeadsToDirectory path := by
  rcases ensureDirectory_eq_ok htree hstep with ⟨rfl, hd⟩ | ⟨p, hlocate, hp, -, hputs⟩
  · exact ⟨WidenedBy.refl h', hd⟩
  · obtain ⟨name, dir, m, hname, hfile, hlegal, hway, hshort, rfl⟩ :=
      exists_of_locateName htree hlocate (by simp [hp])
    have hdirs := hputs.directories hp
    have hne : ∀ {r}, h.at? r ≠ none → r ≠ dir ++ [name] := fun hr heq => hr (heq ▸ hp)
    have hsame : ∀ r, h.at? r ≠ none → h'.at? r = h.at? r := fun r hr => by
      rw [hputs.at?, if_neg (hne hr)]
    have hfolder : h'.folderWay path = h.folderWay path := by
      have hstart := at?_start h path
      refine folderWay_congr htree hputs.here hdirs fun r hr => Or.inl (hsame r fun hnone => ?_)
      rcases outcome_of_mem_names_of_none hr hnone with hlost | ⟨k, hend⟩
      · rw [← folderWay, hway] at hlost
        cases hlost
      · rw [← folderWay, hway] at hend
        cases hend
        rw [directory_of_folderWay hway] at hnone
        cases hnone
    have hlocate' : h'.locateName path = .ok (dir ++ [name]) :=
      (locateName_eq_ok hname hfile).2 ⟨hlegal, dir, m, by rw [hfolder, hway], hshort, rfl⟩
    have hmade : h'.at? (dir ++ [name]) = some .directory := by rw [hputs.at?, if_pos rfl]
    refine ⟨⟨hputs.here, fun q => ?_, fun q hq => hputs.number? q (hne hq)⟩, dir ++ [name], ?_, hmade⟩
    · by_cases hq : q = dir ++ [name]
      · subst hq
        exact Or.inr ⟨hp, hmade, path, hpath, hlocate'⟩
      · exact Or.inl (by rw [hputs.at?, if_neg hq])
    · have hdir' : h'.at? dir = some .directory := hdirs dir (directory_of_folderWay hway)
      refine locate_eq_ok.2 ⟨m, ?_⟩
      rw [wayOf_of_folderWay hname hfile hlegal (hfolder ▸ hway),
        way_down hdir' hshort (by simp [hmade]), way_nil]
      rfl

theorem ensureDirectory_of_not_isLegal (h : Host) (hlong : ¬ path.isLegal = true) :
    ∃ e, h.ensureDirectory path = .error e := by
  obtain ⟨e, he⟩ := locateName_of_not_isLegal h hlong
  exact ⟨e, by rw [ensureDirectory, he]; rfl⟩

/-! ## Directories one after another -/

/-- Makes directories until one is refused. -/
def makeAll (h : Host) (dirs : List HostPath) : Host × Option HostError :=
  HostStep.runAll HostStep.unhindered h (dirs.map .ensureDirectory)

theorem makeAll_nil (h : Host) : h.makeAll [] = (h, none) := rfl

theorem makeAll_append (h : Host) (as bs : List HostPath) :
    h.makeAll (as ++ bs) = match h.makeAll as with
      | (h', none) => h'.makeAll bs
      | (h', some e) => (h', some e) := by
  rw [makeAll, List.map_append, HostStep.runAll_append]
  rfl

theorem makeAll_cons_of_ok {d : HostPath} (hstep : h.ensureDirectory d = .ok h')
    (dirs : List HostPath) : h.makeAll (d :: dirs) = h'.makeAll dirs := by
  rw [makeAll, List.map_cons, HostStep.runAll, HostStep.run, hstep]
  rfl

theorem makeAll_cons_of_error {d : HostPath} {e : HostError} (hstep : h.ensureDirectory d = .error e)
    (dirs : List HostPath) : h.makeAll (d :: dirs) = (h, some e) := by
  rw [makeAll, List.map_cons, HostStep.runAll, HostStep.run, hstep]
  rfl

theorem isTree_makeAll (htree : h.IsTree) (dirs : List HostPath) : (h.makeAll dirs).1.IsTree := by
  induction dirs generalizing h with
  | nil => exact htree
  | cons d dirs ih =>
    cases hstep : h.ensureDirectory d with
    | error e => rwa [makeAll_cons_of_error hstep]
    | ok h₁ =>
      rw [makeAll_cons_of_ok hstep]
      exact ih (htree.ensureDirectory hstep)

/-- Making directories one after another, until one is refused, widens the host. -/
theorem widenedBy_makeAll (htree : h.IsTree) (dirs : List HostPath) :
    WidenedBy dirs h (h.makeAll dirs).1 := by
  induction dirs generalizing h with
  | nil => exact WidenedBy.refl h
  | cons d dirs ih =>
    cases hstep : h.ensureDirectory d with
    | error e =>
      rw [makeAll_cons_of_error hstep]
      exact WidenedBy.refl h
    | ok h₁ =>
      rw [makeAll_cons_of_ok hstep]
      have htree₁ := htree.ensureDirectory hstep
      exact (ensureDirectory_widens htree List.mem_cons_self hstep).1.trans
        ((ih htree₁).mono fun _ hd => List.mem_cons_of_mem _ hd) htree₁

/-- If no directory is refused, all of the paths lead to directories. -/
theorem leadsToDirectory_of_makeAll (htree : h.IsTree) (hmade : (h.makeAll dirs).2 = none) :
    ∀ d ∈ dirs, (h.makeAll dirs).1.LeadsToDirectory d := by
  induction dirs generalizing h with
  | nil => simp
  | cons d dirs ih =>
    cases hstep : h.ensureDirectory d with
    | error e => rw [makeAll_cons_of_error hstep] at hmade; cases hmade
    | ok h₁ =>
      rw [makeAll_cons_of_ok hstep] at hmade ⊢
      have htree₁ := htree.ensureDirectory hstep
      have hd := (ensureDirectory_widens htree (List.mem_singleton_self d) hstep).2
      rw [List.forall_mem_cons]
      exact ⟨(widenedBy_makeAll htree₁ dirs).leadsToDirectory htree₁ hd, ih htree₁ hmade⟩

/-- Where all of the directories are there, nothing is made. -/
theorem makeAll_of_leadsToDirectory (hdirs : ∀ d ∈ dirs, h.LeadsToDirectory d) :
    h.makeAll dirs = (h, none) := by
  induction dirs with
  | nil => rfl
  | cons d dirs ih =>
    rw [List.forall_mem_cons] at hdirs
    rw [makeAll_cons_of_ok (ensureDirectory_of_leadsToDirectory hdirs.1), ih hdirs.2]

/-- Making directories again, and more after them, is like making all of them at first. -/
theorem makeAll_twice (htree : h.IsTree) (as bs : List HostPath) :
    (h.makeAll as).1.makeAll (as ++ bs) = h.makeAll (as ++ bs) := by
  induction as using List.reverseRecOn generalizing bs with
  | nil => rfl
  | append_singleton as d ih =>
    cases hmade : (h.makeAll as).2 with
    | some e =>
      -- the directories before `d` are refused again
      have hstop : ∀ cs, h.makeAll (as ++ cs) = ((h.makeAll as).1, some e) := by
        intro cs
        rw [makeAll_append]
        cases hrun : h.makeAll as with
        | mk h' refusal => rw [hrun] at hmade; cases hmade; rfl
      rw [hstop [d], List.append_assoc, ih, hstop]
    | none =>
      have hafter : ∀ cs, h.makeAll (as ++ cs) = (h.makeAll as).1.makeAll cs := by
        intro cs
        rw [makeAll_append]
        cases hrun : h.makeAll as with
        | mk h' refusal => rw [hrun] at hmade; cases hmade; rfl
      cases hstep : (h.makeAll as).1.ensureDirectory d with
      | error e => rw [hafter [d], makeAll_cons_of_error hstep, List.append_assoc, ih]
      | ok h₁ =>
        have hone : h.makeAll (as ++ [d]) = (h₁, none) := by
          rw [hafter, makeAll_cons_of_ok hstep, makeAll_nil]
        have hthere : ∀ c ∈ as ++ [d], (h.makeAll (as ++ [d])).1.LeadsToDirectory c :=
          leadsToDirectory_of_makeAll htree (by rw [hone])
        rw [hone] at hthere ⊢
        rw [makeAll_append, makeAll_of_leadsToDirectory hthere, makeAll_append, hone]

/-! ## The directories on the way down to a path -/

theorem map_ofPart {parts : List String} (hdown : ".." ∉ parts) :
    parts.map Move.ofPart = parts.map .down :=
  List.map_congr_left fun part hpart => if_neg fun hdots : part = ".." => hdown (hdots ▸ hpart)

/-- Where nothing stands, or only directories, a way down comes to its end or ends where something is
missing. -/
theorem way_of_free {names : List String} (hshort : ∀ name ∈ names, ¬ nameLimit < name.utf8ByteSize)
    (hp : h.at? p = some .directory) (hfree : ∀ below, below <+: names → below ≠ [] →
      h.at? (p ++ below) = none ∨ h.at? (p ++ below) = some .directory) :
    (h.way n p (names.map .down)).outcome = .error .missing ∨
      (h.way n p (names.map .down)).outcome = .ok (p ++ names, n) := by
  induction names generalizing p with
  | nil => exact Or.inr (by rw [List.map_nil, way_nil, List.append_nil])
  | cons name names ih =>
    rw [List.forall_mem_cons] at hshort
    have hname := hfree [name] (List.prefix_append [name] names) (by simp)
    have hlink : ∀ target, h.at? (p ++ [name]) ≠ some (.link target) := by
      intro target
      rcases hname with hnone | hdir
      · simp [hnone]
      · simp [hdir]
    rw [List.map_cons, way_down hp hshort.1 hlink, Way.through_outcome]
    rcases hname with hnone | hdir
    · cases names with
      | nil => exact Or.inr (by rw [List.map_nil, way_nil])
      | cons next names => exact Or.inl (by rw [List.map_cons, way_of_none hnone]; rfl)
    · have hdeeper := ih hshort.2 hdir fun below hbelow _ => by
        have := hfree (name :: below) (List.cons_prefix_cons.2 ⟨rfl, hbelow⟩) (by simp)
        rwa [List.append_cons] at this
      rwa [← List.append_cons] at hdeeper

/-- The way down to a path leads into new ground: behind some directory that was there, its next names
stand for nothing or for directories, and the latter are among the first `k` on the way. -/
def OpenTo (h : Host) (path : HostPath) (k : Nat) : Prop :=
  ∃ front names dir m, path.parts = front ++ names ∧ front.length < k ∧
    (h.way linkLimit (path.start h.here) (front.map .down)).outcome = .ok (dir, m) ∧
    h.at? dir = some .directory ∧ ∀ below, below <+: names → below ≠ [] →
      h.at? (dir ++ below) = none ∨
        h.at? (dir ++ below) = some .directory ∧ front.length + below.length ≤ k

section OnTheWay

variable (hdown : ".." ∉ path.parts)
  (hshort : ∀ part ∈ path.parts, part.utf8ByteSize ≤ nameLimit) {k : Nat}

theorem OpenTo.mono (hopen : h.OpenTo path k) {k' : Nat} (hle : k ≤ k') : h.OpenTo path k' := by
  obtain ⟨front, names, dir, m, hparts, hlt, hway, hdir, hfree⟩ := hopen
  exact ⟨front, names, dir, m, hparts, by omega, hway, hdir, fun below hbelow hne =>
    (hfree below hbelow hne).imp_right fun ⟨hdirectory, hle'⟩ => ⟨hdirectory, by omega⟩⟩

include hdown in
/-- A directory on the way down that is new stands in one that was there. -/
theorem exists_of_ensureDirectory_upTo (htree : h.IsTree) (hk : k < path.parts.length)
    (hlocate : h.locateName (path.upTo (k + 1)) = .ok p) (hp : h.at? p = none) :
    ∃ name dir m, path.parts = path.parts.take k ++ name :: path.parts.drop (k + 1) ∧
      (h.way linkLimit (path.start h.here) ((path.parts.take k).map .down)).outcome = .ok (dir, m) ∧
      h.at? dir = some .directory ∧ p = dir ++ [name] := by
  obtain ⟨name, dir, m, hname, -, -, hway, -, rfl⟩ := exists_of_locateName htree hlocate (by simp [hp])
  have htake : path.parts.take (k + 1) = path.parts.take k ++ [path.parts[k]] :=
    (List.take_append_getElem hk).symm
  have hlast : path.parts[k] = name := by
    have hlast := (Option.filter_eq_some_iff.1 hname).1
    rw [HostPath.upTo, htake, List.getLast?_concat] at hlast
    exact Option.some.inj hlast
  have hdrop : (path.upTo (k + 1)).parts.dropLast = path.parts.take k := by
    rw [HostPath.upTo, htake, List.dropLast_concat]
  refine ⟨name, dir, m, ?_, ?_, directory_of_folderWay hway, rfl⟩
  · rw [← hlast, List.getElem_cons_drop, List.take_append_drop]
  · rw [folderWay, folder_moves, hdrop,
      map_ofPart fun hmem => hdown (List.mem_of_mem_take hmem)] at hway
    exact (directory_of_stay hway).1

include hdown in
/-- The first directory that is made opens new ground. -/
theorem openTo_of_ensureDirectory (htree : h.IsTree) (hk : k < path.parts.length)
    (hstep : h.ensureDirectory (path.upTo (k + 1)) = .ok h') : h' = h ∨ h'.OpenTo path (k + 1) := by
  have hw := (ensureDirectory_widens htree (List.mem_singleton_self _) hstep).1
  rcases ensureDirectory_eq_ok htree hstep with ⟨rfl, -⟩ | ⟨p, hlocate, hp, -, hputs⟩
  · exact Or.inl rfl
  · obtain ⟨name, dir, m, hparts, hway, hdir, rfl⟩ :=
      exists_of_ensureDirectory_upTo hdown htree hk hlocate hp
    have hlength : (path.parts.take k).length = k := List.length_take_of_le (Nat.le_of_lt hk)
    refine Or.inr ⟨_, _, dir, m, hparts, by omega, ?_, hw.directories dir hdir, ?_⟩
    · rw [hw.here, hw.way htree (at?_start h path) hway (by simp [hdir]), hway]
    · intro below hbelow hne
      obtain ⟨rest, rfl⟩ : ∃ rest, below = name :: rest := by
        obtain ⟨first, rest, rfl⟩ := List.exists_cons_of_ne_nil hne
        exact ⟨rest, by rw [(List.cons_prefix_cons.1 hbelow).1]⟩
      rw [hputs.at?]
      cases rest with
      | nil => exact Or.inr ⟨if_pos rfl, by simp [hlength]⟩
      | cons next rest =>
        left
        rw [if_neg (by simp), List.append_cons]
        exact htree.at?_append_eq_none hp _

include hdown hshort in
/-- The next directory is made on the new ground. -/
theorem OpenTo.ensureDirectory (hopen : h.OpenTo path k) (htree : h.IsTree)
    (hk : k < path.parts.length) (hstep : h.ensureDirectory (path.upTo (k + 1)) = .ok h') :
    h'.OpenTo path (k + 1) := by
  have hw := (ensureDirectory_widens htree (List.mem_singleton_self _) hstep).1
  rcases ensureDirectory_eq_ok htree hstep with ⟨rfl, -⟩ | ⟨p, hlocate, hp, -, hputs⟩
  · exact hopen.mono (Nat.le_succ k)
  · obtain ⟨front, names, dir, m, hparts, hlt, hway, hdir, hfree⟩ := hopen
    obtain ⟨name, dir', m', hsplit, hway', -, rfl⟩ :=
      exists_of_ensureDirectory_upTo hdown htree hk hlocate hp
    -- the way to the new directory goes through the old one and then down
    have hfront : path.parts.take k = front ++ names.take (k - front.length) := by
      rw [hparts, List.take_append, List.take_of_length_le (Nat.le_of_lt hlt)]
    rw [hfront, List.map_append, way_append_of_ok hway] at hway'
    have hdeeper := way_of_free (n := m)
      (fun part hpart => Nat.not_lt.2 (hshort part (hparts ▸ List.mem_append_right front
        (List.mem_of_mem_take hpart)))) hdir
      fun below hbelow hne => (hfree below
        (hbelow.trans (List.take_prefix (k - front.length) names)) hne).imp_right And.left
    dsimp only at hway'
    rw [hway'] at hdeeper
    obtain ⟨rfl, -⟩ : dir' = dir ++ names.take (k - front.length) ∧ m' = m := by
      simpa using hdeeper
    refine ⟨front, names, dir, m, hparts, by omega, ?_, hw.directories dir hdir, ?_⟩
    · rw [hw.here, hw.way htree (at?_start h path) hway (by simp [hdir]), hway]
    · intro below hbelow hne
      rw [hputs.at?]
      split
      · next heq =>
        rw [List.append_assoc, List.append_cancel_left_eq] at heq
        have hlength : names.length = path.parts.length - front.length := by simp [hparts]
        refine Or.inr ⟨rfl, ?_⟩
        rw [heq, List.length_append, List.length_take, List.length_singleton]
        omega
      · exact (hfree below hbelow hne).imp_right fun ⟨hdirectory, hle⟩ => ⟨hdirectory, by omega⟩

include hshort in
/-- New ground that does not reach to the end of a path holds nothing at it. -/
theorem OpenTo.read (hopen : h.OpenTo path k) (hdown : ".." ∉ path.parts)
    (hlegal : path.isLegal = true) (hk : k < path.parts.length) :
    h.read path = .error .missing := by
  obtain ⟨front, names, dir, m, hparts, hlt, hway, hdir, hfree⟩ := hopen
  have hnonempty : path.isEmpty = false := by
    have hne : path.parts ≠ [] := List.ne_nil_of_length_pos (by omega)
    simp [HostPath.isEmpty, hne]
  have hmoves : path.moves = front.map .down ++ names.map .down ++
      if path.directory then [.stay] else [] := by
    rw [HostPath.moves, map_ofPart hdown, hparts, List.map_append]
  have hwhole : (h.wayOf path).outcome =
      ((h.way m dir (names.map .down)).andThen fun q k =>
        h.way k q (if path.directory then [.stay] else [])).outcome := by
    rw [wayOf_of_isLegal hnonempty hlegal, hmoves, List.append_assoc, way_append_of_ok hway,
      way_append]
  have hlength : names.length = path.parts.length - front.length := by simp [hparts]
  have hend : h.at? (dir ++ names) = none := by
    refine (hfree names List.prefix_rfl (List.ne_nil_of_length_pos (by omega))).resolve_right ?_
    rintro ⟨-, hle⟩
    omega
  rw [read_eq_missing_iff]
  rcases way_of_free (n := m) (fun part hpart => Nat.not_lt.2 (hshort part (hparts ▸
    List.mem_append_right front hpart))) hdir fun below hbelow hne =>
      (hfree below hbelow hne).imp_right And.left with hlost | hlast
  · exact Or.inl (by rw [hwhole, Way.andThen_of_error hlost, hlost])
  · rw [Way.andThen_of_ok hlast] at hwhole
    cases hdirectory : path.directory with
    | false =>
      rw [hdirectory, if_neg Bool.false_ne_true, way_nil] at hwhole
      exact Or.inr ⟨dir ++ names, locate_eq_ok.2 ⟨m, hwhole⟩, hend⟩
    | true =>
      rw [hdirectory, if_pos rfl, way_of_none hend] at hwhole
      exact Or.inl hwhole

include hdown hshort in
theorem makeAll_upTo (htree : h.IsTree) (hk : k ≤ path.parts.length) :
    let h' := (h.makeAll ((List.range k).map fun i => path.upTo (i + 1))).1
    h' = h ∨ h'.OpenTo path k := by
  induction k with
  | zero => exact Or.inl rfl
  | succ k ih =>
    have hbefore := ih (Nat.le_of_succ_le hk)
    rw [List.range_succ, List.map_append, makeAll_append]
    cases hrun : h.makeAll ((List.range k).map fun i => path.upTo (i + 1)) with
    | mk h₁ refusal =>
      have htree₁ : h₁.IsTree := by
        have := isTree_makeAll htree ((List.range k).map fun i => path.upTo (i + 1))
        rwa [hrun] at this
      rw [hrun] at hbefore
      have hstay : h₁ = h ∨ h₁.OpenTo path (k + 1) :=
        hbefore.imp_right fun hopen => hopen.mono (Nat.le_succ k)
      cases refusal with
      | some e => exact hstay
      | none =>
        dsimp only
        cases hstep : h₁.ensureDirectory (path.upTo (k + 1)) with
        | error e =>
          rw [List.map_singleton, makeAll_cons_of_error hstep]
          exact hstay
        | ok h₂ =>
          rw [List.map_singleton, makeAll_cons_of_ok hstep, makeAll_nil]
          rcases hbefore with rfl | hopen
          · exact openTo_of_ensureDirectory hdown htree₁ hk hstep
          · exact Or.inr (hopen.ensureDirectory hdown hshort htree₁ hk hstep)

end OnTheWay

/-- Where nothing is read, directories on the way down to a path change nothing: the path still leads
to nothing. -/
theorem read_of_makeAll_upTo (htree : h.IsTree) (hdown : ".." ∉ path.parts)
    (hshort : ∀ part ∈ path.parts, part.utf8ByteSize ≤ nameLimit) {k : Nat}
    (hk : k < path.parts.length) (hread : h.read path = .error .missing) :
    (h.makeAll ((List.range k).map fun i => path.upTo (i + 1))).1.read path = .error .missing := by
  rcases makeAll_upTo hdown hshort htree (Nat.le_of_lt hk) with hsame | hopen
  · rw [hsame, hread]
  · cases hlegal : path.isLegal with
    | true => exact hopen.read hshort hdown hlegal hk
    | false =>
      have hempty : path.isEmpty = false := by
        have hne : path.parts ≠ [] := List.ne_nil_of_length_pos (by omega)
        simp [HostPath.isEmpty, hne]
      rw [read_eq, locate, wayOf, hempty, hlegal] at hread
      cases hread

end Host

end VirtualShell
