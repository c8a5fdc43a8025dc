import VirtualShell.Proofs.Host.Saving

/-!
# The state file and the temporary file

A text is written into the temporary file, and then that file takes the place of the state file. The
first changes nothing of what is read through the path of the state file, and after the second the
text is read there (`Replaced.read`), if no name and no link ties one path to the other (`Apart`). So
it is before every later save, too (`Apart.writeBytes`, `Replaced.apart`).
-/

namespace VirtualShell

namespace StateFile

open Host
open HostPath (nameLimit)

variable {f : StateFile} {h h₁ h₂ h₃ : Host} {text name : String} {bytes : List UInt8}
  {dir written : Place} {links : Nat}

/-- The two paths of a state file have nothing to do with each other, if something can be written
through the temporary path at all: it does not lead through the name of the state file, unless that is
a directory, and the path of the state file leads neither through the name of the temporary file nor to
the file that the temporary path leads to, whatever its name. -/
structure Apart (f : StateFile) (h : Host) : Prop where
  temporary : ∀ store written, h.locateName f.path = .ok store → h.at? store ≠ some .directory →
    h.locate f.temporary = .ok written → h.at? written ≠ some .directory →
    store ∉ h.trail f.temporary
  path : ∀ temp written, h.locateName f.temporary = .ok temp →
    h.locate f.temporary = .ok written → h.at? written ≠ some .directory →
    ∀ r ∈ h.trail f.path, r ≠ temp ∧ r ≠ written ∧ ¬ h.SameFile r written

theorem apart_iff : f.Apart h ↔
    (∀ store ∈ (h.locateName f.path).toOption, h.at? store ≠ some .directory →
      ∀ written ∈ (h.locate f.temporary).toOption, h.at? written ≠ some .directory →
        store ∉ h.trail f.temporary) ∧
    ∀ temp ∈ (h.locateName f.temporary).toOption, ∀ written ∈ (h.locate f.temporary).toOption,
      h.at? written ≠ some .directory →
        ∀ r ∈ h.trail f.path, r ≠ temp ∧ r ≠ written ∧ ¬ h.SameFile r written := by
  have hok : ∀ {x : Except HostError Place} {p : Place}, p ∈ x.toOption ↔ x = .ok p := by
    intro x p
    cases x <;> simp [Except.toOption]
  simp only [hok]
  exact ⟨fun hapart => ⟨fun store hstore hdir written => hapart.temporary store written hstore hdir,
      fun temp htemp written => hapart.path temp written htemp⟩,
    fun hapart => ⟨fun store written hstore hdir => hapart.1 store hstore hdir written,
      fun temp written htemp => hapart.2 temp htemp written⟩⟩

instance (f : StateFile) (h : Host) : Decidable (f.Apart h) := decidable_of_iff' _ apart_iff

/-! ## Writing the temporary file -/

section Writing

variable (htree : h₁.IsTree) (hwrite : h₁.writeBytes f.temporary bytes = .ok h₂)
include htree hwrite

/-- Where a path leads that is of use for saving is as before. -/
theorem locate_of_writeBytes {path : HostPath} {p : Place} (hlocate : h₁.locate path = .ok p) :
    h₂.wayOf path = h₁.wayOf path := by
  obtain ⟨written, -, hleaf, hwrites⟩ := writeBytes_eq_ok htree hwrite
  obtain ⟨m, hway⟩ := locate_eq_ok.1 hlocate
  exact wayOf_congr htree hwrites.here (hwrites.directories hleaf) fun r _ =>
    hwrites.fits hleaf ⟨_, hway⟩ r

theorem leadsToDirectory_of_writeBytes {path : HostPath} (hd : h₁.LeadsToDirectory path) :
    h₂.LeadsToDirectory path := by
  obtain ⟨written, -, hleaf, hwrites⟩ := writeBytes_eq_ok htree hwrite
  obtain ⟨p, hlocate, hp⟩ := hd
  refine ⟨p, ?_, hwrites.directories hleaf p hp⟩
  rw [locate, locate_of_writeBytes htree hwrite hlocate]
  exact hlocate

/-- What stands at the names on the way to the state file is as before. -/
theorem Apart.at?_of_writeBytes (hapart : f.Apart h₁) :
    ∀ r ∈ h₁.trail f.path, h₂.at? r = h₁.at? r := by
  intro r hr
  obtain ⟨written, hlocate, hleaf, hwrites⟩ := writeBytes_eq_ok htree hwrite
  obtain ⟨temp, htemp, -⟩ := exists_locateName hlocate
  obtain ⟨-, hne, hother⟩ := hapart.path temp written htemp hlocate hleaf.1 r hr
  exact hwrites.at?_of_ne hne hother

theorem Apart.read_of_writeBytes (hapart : f.Apart h₁) : h₂.read f.path = h₁.read f.path := by
  obtain ⟨written, -, hleaf, hwrites⟩ := writeBytes_eq_ok htree hwrite
  exact read_of_agree htree hwrites.here (hwrites.directories hleaf)
    (hapart.at?_of_writeBytes htree hwrite)

theorem Apart.writeBytes (hapart : f.Apart h₁) : f.Apart h₂ := by
  obtain ⟨written, hlocate, hleaf, hwrites⟩ := writeBytes_eq_ok htree hwrite
  obtain ⟨name, hname⟩ := exists_fileName_of_writeBytes htree hwrite
  have hpath : h₂.wayOf f.path = h₁.wayOf f.path :=
    wayOf_congr htree hwrites.here (hwrites.directories hleaf) fun r hr =>
      Or.inl (hapart.at?_of_writeBytes htree hwrite r hr)
  have htemporary : h₂.wayOf f.temporary = h₁.wayOf f.temporary :=
    locate_of_writeBytes htree hwrite hlocate
  have hfolder := folderWay_of_writeBytes htree hwrite
  have hstore : h₂.locateName f.path = h₁.locateName f.path :=
    locateName_congr hfolder hpath
  have htemp : h₂.locateName f.temporary = h₁.locateName f.temporary :=
    locateName_congr (by rw [folderWay_temporary h₂ hname, folderWay_temporary h₁ hname, hfolder])
      htemporary
  constructor
  · intro store _ hstore' hfile _ _
    rw [hstore] at hstore'
    rw [trail, htemporary]
    have hfile' := fun hdir => hfile (hwrites.directories hleaf store hdir)
    exact hapart.temporary store written hstore' hfile' hlocate hleaf.1
  · intro temp written' htemp' hlocate' _ r hr
    rw [htemp] at htemp'
    rw [locate, htemporary] at hlocate'
    cases hlocate.symm.trans hlocate'
    rw [trail, hpath] at hr
    obtain ⟨hne, hne', hother⟩ := hapart.path temp written htemp' hlocate hleaf.1 r hr
    exact ⟨hne, hne', fun hsame => hother ((hwrites.sameFile r hne').1 hsame)⟩

end Writing

/-! ## The temporary file takes the place of the state file -/

namespace Replaced

variable (hr : f.Replaced text name dir written links h₁ h₂ h₃)
include hr

theorem store_before : h₁.at? (dir ++ [name]) ≠ some .directory :=
  fun hdir => hr.store_file (hr.writes.directories hr.leaf _ hdir)

theorem store_mem_trail : dir ++ [name] ∈ h₁.trail f.path :=
  mem_trail_of_locateName hr.fileName hr.directory hr.locateName_path

section Apart

variable (hapart : f.Apart h₁)
include hapart

theorem ne_of_apart : dir ++ [name] ≠ dir ++ [temporaryName name] ∧ dir ++ [name] ≠ written ∧
    ¬ h₁.SameFile (dir ++ [name]) written :=
  hapart.path _ _ hr.locateName_temporary hr.locate hr.leaf.1 _ hr.store_mem_trail

/-- If the name of the state file were another name of a link that has the temporary name, the path of
the state file would lead to the file that is written. -/
theorem not_sameFile_of_apart (htree : h₁.IsTree) :
    ¬ h₁.SameFile (dir ++ [temporaryName name]) (dir ++ [name]) := by
  intro hsame
  rcases hr.written_cases with ⟨rfl, -⟩ | ⟨target, hlink, -⟩
  · exact (hr.ne_of_apart hapart).2.2 hsame.symm
  · have hlink' : h₁.at? (dir ++ [name]) = some (.link target) := by rw [← hsame.at?_eq, hlink]
    obtain ⟨m, hend⟩ := locate_eq_ok.1 hr.locate
    rw [hr.wayOf_temporary] at hend
    have hlocate : h₁.locate f.path = .ok written := by
      refine locate_eq_ok.2 ⟨m, ?_⟩
      rw [wayOf_of_folderWay hr.fileName hr.directory hr.legal hr.folder]
      rw [outcome_of_sameLink hr.directory_dir hr.short hr.short_temporary hlink' hlink, hend]
    rcases end_of_wayOf htree hlocate with hmem | hdir
    · exact (hapart.path _ _ hr.locateName_temporary hr.locate hr.leaf.1 _ hmem).2.1 rfl
    · exact hr.leaf.1 hdir

theorem renames (htree : h₁.IsTree) :
    Renames h₂ h₃ (dir ++ [temporaryName name]) (dir ++ [name]) := by
  rcases hr.renamed with ⟨hsame, -⟩ | ⟨-, -, hrenames⟩
  · exact absurd ((hr.sameFile_iff (hr.ne_of_apart hapart).1.symm).1 hsame)
      (hr.not_sameFile_of_apart hapart htree)
  · exact hrenames

omit hapart in
/-- Other names than the two are as good for a way as they were. -/
theorem fits {w : Way} (hw : ∃ e, w.outcome = .ok e) {r : Place}
    (htemp : r ≠ dir ++ [temporaryName name]) (hstore : r ≠ dir ++ [name]) : h₁.Fits h₃ w r := by
  have hsame := hr.at?_of_ne htemp hstore
  have hfits := hr.writes.fits hr.leaf hw r
  rwa [Host.Fits, IsLeaf, IsLeaf, ← hsame] at hfits

theorem ne_of_mem_folderWay {r : Place} (hmem : r ∈ (h₁.folderWay f.path).names) :
    r ≠ dir ++ [temporaryName name] ∧ r ≠ dir ++ [name] := by
  constructor
  · exact (hapart.path _ _ hr.locateName_temporary hr.locate hr.leaf.1 r
      (mem_trail_of_mem_folderWay hr.fileName hr.directory hr.legal hmem)).1
  · rintro rfl
    refine hapart.temporary _ _ hr.locateName_path hr.store_before hr.locate hr.leaf.1 ?_
    exact mem_trail_of_mem_folderWay (fileName?_temporary hr.fileName)
      (directory_temporary hr.fileName) hr.legal_temporary
      (by rwa [folderWay_temporary h₁ hr.fileName])

theorem folderWay_after (htree : h₁.IsTree) : h₃.folderWay f.path = h₁.folderWay f.path :=
  folderWay_congr htree hr.here hr.directories fun _ hmem =>
    hr.fits ⟨_, hr.folder⟩ (hr.ne_of_mem_folderWay hapart hmem).1
      (hr.ne_of_mem_folderWay hapart hmem).2

/-- If the temporary name is a link, the way behind it does not come back to it, and it is the same when
the name of the state file is that link. -/
theorem behind_link (htree : h₁.IsTree) {target : HostPath}
    (hlink : h₁.at? (dir ++ [temporaryName name]) = some (.link target)) : ∃ left m,
      links = left + 1 ∧ (h₁.way left (target.start dir) target.moves).outcome = .ok (written, m) ∧
      dir ++ [temporaryName name] ∉ (h₁.way left (target.start dir) target.moves).names ∧
      h₃.way left (target.start dir) target.moves = h₁.way left (target.start dir) target.moves := by
  obtain ⟨m, hend⟩ := locate_eq_ok.1 hr.locate
  have hnames : ∀ r ∈ (h₁.way links dir [.down (temporaryName name)]).names, r ≠ dir ++ [name] := by
    rintro r hmem rfl
    refine hapart.temporary _ _ hr.locateName_path hr.store_before hr.locate hr.leaf.1 ?_
    rw [trail, hr.wayOf_temporary]
    exact List.mem_append_right _ hmem
  rw [hr.wayOf_temporary] at hend
  cases links with
  | zero =>
    rw [way_spent hr.directory_dir hr.short_temporary hlink] at hend
    cases hend
  | succ left =>
    rw [way_link hr.directory_dir hr.short_temporary hlink, List.append_nil] at hend hnames
    have hbehind := not_mem_names_of_link hr.directory_dir hlink hend
    have hstart := at?_target_start hr.directory_dir target
    refine ⟨left, m, rfl, hend, hbehind, ?_⟩
    refine way_congr htree hr.directories (Or.inl ((hr.directories _ hstart).trans hstart.symm))
      fun r hmem => hr.fits ⟨_, hend⟩ ?_ (hnames r (List.mem_cons_of_mem _ hmem))
    rintro rfl
    exact hbehind hmem

/-- The path of the state file leads to the text, and not through the temporary name. -/
theorem wayOf_after (htree : h₁.IsTree) : ∃ last m,
    h₃.locate f.path = .ok last ∧ (h₃.wayOf f.path).outcome = .ok (last, m) ∧
      dir ++ [temporaryName name] ∉ h₃.trail f.path ∧ h₃.at? last = some (.file text) := by
  have hfolder : (h₃.folderWay f.path).outcome = .ok (dir, links) := by
    rw [hr.folderWay_after hapart htree, hr.folder]
  have hway := wayOf_of_folderWay hr.fileName hr.directory hr.legal hfolder
  have hdir : h₃.at? dir = some .directory := directory_of_folderWay hfolder
  have hne := (hr.ne_of_apart hapart).1
  have hfront : dir ++ [temporaryName name] ∉ (h₃.folderWay f.path).names := by
    rw [hr.folderWay_after hapart htree]
    exact fun hmem => (hr.ne_of_mem_folderWay hapart hmem).1 rfl
  rcases hr.written_cases with ⟨rfl, -⟩ | ⟨target, hlink, hlink₂⟩
  · have hstore : h₃.at? (dir ++ [name]) = some (.file text) := by
      rw [hr.at?_store, hr.writes.at?_self]
      rfl
    rw [way_down hdir hr.short (by simp [hstore, HostEntry.file]), way_nil] at hway
    have hend : (h₃.wayOf f.path).outcome = .ok (dir ++ [name], links) := by rw [hway]; rfl
    refine ⟨_, links, locate_eq_ok.2 ⟨links, hend⟩, hend, ?_, hstore⟩
    rw [trail, hway]
    simpa [hfront] using hne.symm
  · -- the name of the state file is the link now that had the temporary name
    have hstore : h₃.at? (dir ++ [name]) = some (.link target) := by rw [hr.at?_store, hlink₂]
    obtain ⟨left, m, rfl, hend, hbehind, hsame⟩ := hr.behind_link hapart htree hlink
    rw [way_link hdir hr.short hstore, List.append_nil, hsame] at hway
    have hend₃ : (h₃.wayOf f.path).outcome = .ok (written, m) := by
      rw [hway]
      exact hend
    refine ⟨written, m, locate_eq_ok.2 ⟨m, hend₃⟩, hend₃, ?_, ?_⟩
    · rw [trail, hway]
      simpa [hfront, hbehind] using hne.symm
    · have htemp : written ≠ dir ++ [temporaryName name] := by
        rintro rfl
        exact hr.leaf.2 target hlink
      rw [hr.at?_of_ne htemp (hr.ne_of_apart hapart).2.1.symm, hr.writes.at?_self]
      rfl

theorem read (htree : h₁.IsTree) : h₃.read f.path = .ok text := by
  obtain ⟨last, m, hlocate, -, -, htext⟩ := hr.wayOf_after hapart htree
  exact read_eq_ok.2 ⟨last, hlocate, htext⟩

/-- The directories on the way are still there. -/
theorem leadsToDirectory (htree : h₁.IsTree) {d : HostPath} (hd : d ∈ f.directories)
    (hthere : h₁.LeadsToDirectory d) : h₃.LeadsToDirectory d := by
  obtain ⟨p, hlocate, hp⟩ := hthere
  obtain ⟨m, hway⟩ := locate_eq_ok.1 hlocate
  have hancestry : d ∈ f.path.parent.ancestry := by
    unfold StateFile.directories at hd
    split at hd
    · exact hd
    · next hlong =>
      rw [List.mem_singleton.1 hd] at hway
      exact absurd (wayOf_of_ok hway).2.1 hlong
  have hsame : h₃.wayOf d = h₁.wayOf d :=
    wayOf_congr htree hr.here hr.directories fun r hmem =>
      have hne := hr.ne_of_mem_folderWay hapart (trail_subset_folderWay hancestry hlocate hmem)
      hr.fits ⟨_, hway⟩ hne.1 hne.2
  exact ⟨p, locate_eq_ok.2 ⟨m, by rw [hsame, hway]⟩, hr.directories p hp⟩

theorem apart (htree : h₁.IsTree) : f.Apart h₃ := by
  have hfolder : (h₃.folderWay f.path).outcome = .ok (dir, links) := by
    rw [hr.folderWay_after hapart htree, hr.folder]
  have hfolder' : (h₃.folderWay f.temporary).outcome = .ok (dir, links) := by
    rw [folderWay_temporary h₃ hr.fileName, hfolder]
  have hdir : h₃.at? dir = some .directory := directory_of_folderWay hfolder
  have hrenames := hr.renames hapart htree
  have hne := (hr.ne_of_apart hapart).1
  have hgone : h₃.at? (dir ++ [temporaryName name]) = none := by
    rw [hrenames.at?, if_neg hne.symm, if_pos rfl]
  have htemporary : h₃.wayOf f.temporary = ⟨(h₁.folderWay f.path).names ++
      [dir ++ [temporaryName name]], .ok (dir ++ [temporaryName name], links)⟩ := by
    rw [wayOf_of_folderWay (fileName?_temporary hr.fileName) (directory_temporary hr.fileName)
      hr.legal_temporary hfolder', way_down hdir hr.short_temporary (by simp [hgone]), way_nil,
      folderWay_temporary h₃ hr.fileName, hr.folderWay_after hapart htree]
    rfl
  constructor
  · intro store _ hstore _ _ _
    obtain ⟨-, dir', links', hfolder'', -, rfl⟩ :=
      (locateName_eq_ok hr.fileName hr.directory).1 hstore
    cases hfolder.symm.trans hfolder''
    rw [trail, htemporary, List.mem_append, List.mem_singleton, not_or]
    exact ⟨fun hmem => (hr.ne_of_mem_folderWay hapart hmem).2 rfl, hne⟩
  · intro temp written' htemp hlocate _ r hmem
    obtain ⟨-, dir', links', hfolder'', -, rfl⟩ :=
      (locateName_eq_ok (fileName?_temporary hr.fileName) (directory_temporary hr.fileName)).1 htemp
    cases hfolder'.symm.trans hfolder''
    cases hlocate.symm.trans (locate_eq_ok.2 ⟨links, by rw [htemporary]⟩)
    obtain ⟨-, -, -, -, hnot, -⟩ := hr.wayOf_after hapart htree
    have hr' : r ≠ dir ++ [temporaryName name] := by
      rintro rfl
      exact hnot hmem
    refine ⟨hr', hr', fun hsame => ?_⟩
    have hnumber : h₃.number? (dir ++ [temporaryName name]) = none := by
      rw [hrenames.number?, if_neg hne.symm, if_pos rfl]
    exact hsame.1 (hsame.2.trans hnumber)

end Apart

end Replaced

end StateFile

end VirtualShell
