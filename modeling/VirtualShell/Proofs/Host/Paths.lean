import VirtualShell.Proofs.Host.Ways

/-!
# Paths of the host

Where the path of a file leads is settled in two parts: the directory that the name is in
(`folderWay`), and the name in it, which may be a link (`wayOf_of_fileName`). A path that ends in no
name leads to a directory (`directory_of_locateName`). What a path leads to, and what is read there,
depends only on the names that are looked up (`read_of_agree`).
-/

namespace VirtualShell

namespace Host

open HostPath (nameLimit Move)

variable {h h' : Host} {m : Nat} {p dir : Place} {path : HostPath} {name : String}

theorem exists_of_bind_eq_ok {α β : Type} {x : Except HostError α} {f : α → Except HostError β}
    {b : β} (hbind : x >>= f = .ok b) : ∃ a, x = .ok a ∧ f a = .ok b := by
  cases x with
  | error e => cases hbind
  | ok a => exact ⟨a, rfl, hbind⟩

/-- The names that are looked up to follow a path. -/
def trail (h : Host) (path : HostPath) : List Place := (h.wayOf path).names

theorem wayOf_of_isLegal (hnonempty : path.isEmpty = false) (hlegal : path.isLegal = true) :
    h.wayOf path = h.way linkLimit (path.start h.here) path.moves := by
  rw [wayOf, hnonempty, if_neg Bool.false_ne_true, if_pos hlegal]

/-- Where a path leads is the end of its way. -/
theorem locate_eq_ok : h.locate path = .ok p ↔ ∃ m, (h.wayOf path).outcome = .ok (p, m) := by
  unfold locate
  cases (h.wayOf path).outcome with
  | error e => simp [Except.map]
  | ok r => cases r; simp [Except.map]

theorem wayOf_of_ok {r : Place × Nat} (hway : (h.wayOf path).outcome = .ok r) :
    path.isEmpty = false ∧ path.isLegal = true ∧
      h.wayOf path = h.way linkLimit (path.start h.here) path.moves := by
  unfold wayOf at hway
  split at hway
  · cases hway
  · next hnonempty =>
    have hnonempty' : path.isEmpty = false := by simpa using hnonempty
    split at hway
    · next hlegal => exact ⟨hnonempty', hlegal, wayOf_of_isLegal hnonempty' hlegal⟩
    · cases hway

theorem end_of_wayOf (htree : h.IsTree) (hlocate : h.locate path = .ok p) :
    p ∈ h.trail path ∨ h.at? p = some .directory := by
  obtain ⟨m, hway⟩ := locate_eq_ok.1 hlocate
  obtain ⟨-, -, heq⟩ := wayOf_of_ok hway
  rw [trail, heq]
  rw [heq] at hway
  rcases end_cases htree hway with hmem | rfl | hdir
  · exact Or.inl hmem
  · exact Or.inr (at?_start h path)
  · exact Or.inr hdir

/-- Where a path leads anywhere, the host takes all of its names. -/
theorem short_of_locate (hlocate : h.locate path = .ok p) :
    ∀ part ∈ path.parts, ¬ nameLimit < part.utf8ByteSize := by
  intro part hpart hlong
  obtain ⟨m, hway⟩ := locate_eq_ok.1 hlocate
  obtain ⟨-, -, heq⟩ := wayOf_of_ok hway
  obtain ⟨front, back, hparts⟩ := List.append_of_mem hpart
  rw [heq, HostPath.moves, hparts, List.map_append, List.map_cons, List.append_assoc,
    List.cons_append] at hway
  obtain ⟨q, k, -, hway⟩ := exists_of_way_append hway
  have hmove : Move.ofPart part = .down part := by
    refine if_neg ?_
    rintro rfl
    exact absurd hlong (by decide)
  rw [hmove] at hway
  cases hq : h.at? q with
  | none => rw [way_of_none hq] at hway; cases hway
  | some e =>
    by_cases he : e = .directory
    · subst he
      rw [way_of_longName hq hlong] at hway
      cases hway
    · rw [way_of_ne hq he] at hway
      cases hway

/-- A path that the host does not look at leads nowhere. -/
theorem wayOf_of_not_isLegal (h : Host) (hlong : ¬ path.isLegal = true) :
    ∃ e, h.wayOf path = .broken e := by
  unfold wayOf
  split
  · exact ⟨_, rfl⟩
  · exact ⟨.refused, rfl⟩

theorem locateName_of_not_isLegal (h : Host) (hlong : ¬ path.isLegal = true) :
    ∃ e, h.locateName path = .error e := by
  have hlocate : ∃ e, h.locate path = .error e := by
    obtain ⟨e, he⟩ := wayOf_of_not_isLegal h hlong
    exact ⟨e, by rw [locate, he]; rfl⟩
  unfold locateName
  split
  · exact hlocate
  · split
    · exact hlocate
    · exact ⟨.refused, rfl⟩

/-! ## The directory of a name -/

/-- The way to the directory that the last part of a path is a name in. -/
def folderWay (h : Host) (path : HostPath) : Way :=
  h.way linkLimit (path.start h.here) path.folder.moves

theorem folder_moves (path : HostPath) :
    path.folder.moves = path.parts.dropLast.map .ofPart ++ [.stay] := rfl

theorem directory_of_stay {n : Nat} {moves : List Move}
    (hway : (h.way n p (moves ++ [.stay])).outcome = .ok (dir, m)) :
    (h.way n p moves).outcome = .ok (dir, m) ∧ h.at? dir = some .directory := by
  obtain ⟨q, k, hfirst, hstay⟩ := exists_of_way_append hway
  cases hq : h.at? q with
  | none => rw [way_of_none hq] at hstay; cases hstay
  | some e =>
    by_cases he : e = .directory
    · subst he
      rw [way_stay hq, way_nil] at hstay
      cases hstay
      exact ⟨hfirst, hq⟩
    · rw [way_of_ne hq he] at hstay
      cases hstay

theorem directory_of_folderWay (hway : (h.folderWay path).outcome = .ok (dir, m)) :
    h.at? dir = some .directory :=
  (directory_of_stay hway).2

/-- The way to a directory on the way looks up no other names. -/
theorem trail_subset_folderWay {d : HostPath} (hd : d ∈ path.parent.ancestry)
    (hlocate : h.locate d = .ok p) : h.trail d ⊆ (h.folderWay path).names := by
  obtain ⟨m, hway⟩ := locate_eq_ok.1 hlocate
  obtain ⟨-, -, heq⟩ := wayOf_of_ok hway
  obtain ⟨k, hk, rfl⟩ := List.mem_map.1 hd
  have hlt : k < path.parts.length - 1 := by simpa [HostPath.parent, HostPath.upTo] using hk
  have hparts : (path.parent.upTo (k + 1)).parts = path.parts.dropLast.take (k + 1) := by
    rw [List.dropLast_eq_take]
    rfl
  have hmoves : (path.parent.upTo (k + 1)).moves =
      (path.parts.dropLast.take (k + 1)).map .ofPart := by
    rw [HostPath.moves, hparts]
    simp [HostPath.upTo]
  rw [trail, heq, hmoves, folderWay, folder_moves,
    ← List.take_append_drop (k + 1) path.parts.dropLast, List.map_append, List.append_assoc,
    List.take_append_drop]
  exact names_subset_append h _ _ _ _

/-- The last move of a path that ends in a name. -/
theorem moves_of_fileName (hname : path.fileName? = some name) (hfile : path.directory = false) :
    path.moves = path.parts.dropLast.map .ofPart ++ [.down name] := by
  obtain ⟨hlast, hdots⟩ := Option.filter_eq_some_iff.1 hname
  obtain ⟨front, hparts⟩ := List.getLast?_eq_some_iff.1 hlast
  have hmove : Move.ofPart name = .down name := if_neg (by simpa using hdots)
  rw [HostPath.moves, hfile, hparts, List.dropLast_concat]
  simp [hmove]

theorem isEmpty_of_fileName (hname : path.fileName? = some name) : path.isEmpty = false := by
  have hlast := (Option.filter_eq_some_iff.1 hname).1
  cases hparts : path.parts with
  | nil => rw [hparts] at hlast; cases hlast
  | cons part parts => simp [HostPath.isEmpty, hparts]

/-- A path that ends in a name leads to the directory of the name and then to the name. -/
theorem wayOf_of_fileName (hname : path.fileName? = some name) (hfile : path.directory = false)
    (hlegal : path.isLegal = true) :
    h.wayOf path = (h.folderWay path).andThen fun dir m => h.way m dir [.down name] := by
  rw [wayOf_of_isLegal (isEmpty_of_fileName hname) hlegal, moves_of_fileName hname hfile, folderWay,
    folder_moves, way_append, way_append]
  cases hfront : (h.way linkLimit (path.start h.here) (path.parts.dropLast.map .ofPart)).outcome with
  | error e => rw [Way.andThen_of_error hfront, Way.andThen_of_error hfront,
      Way.andThen_of_error hfront]
  | ok r =>
    rw [Way.andThen_of_ok hfront, Way.andThen_of_ok hfront]
    cases hr : h.at? r.1 with
    | none =>
      rw [way_of_none hr, way_of_none hr, Way.andThen_of_error rfl]
    | some e =>
      by_cases he : e = .directory
      · subst he
        rw [way_stay hr, way_nil, Way.andThen_of_ok rfl, List.append_nil]
      · rw [way_of_ne hr he, way_of_ne hr he, Way.andThen_of_error rfl]

/-- The way of a path that ends in a name whose directory is there. -/
theorem wayOf_of_folderWay (hname : path.fileName? = some name) (hfile : path.directory = false)
    (hlegal : path.isLegal = true) (hway : (h.folderWay path).outcome = .ok (dir, m)) :
    h.wayOf path = ⟨(h.folderWay path).names ++ (h.way m dir [.down name]).names,
      (h.way m dir [.down name]).outcome⟩ := by
  rw [wayOf_of_fileName hname hfile hlegal, Way.andThen_of_ok hway]

theorem locate_of_longName (hname : path.fileName? = some name) (hfile : path.directory = false)
    (hlegal : path.isLegal = true) (hway : (h.folderWay path).outcome = .ok (dir, m))
    (hlong : nameLimit < name.utf8ByteSize) : h.locate path = .error .refused := by
  rw [locate, wayOf_of_folderWay hname hfile hlegal hway,
    way_of_longName (directory_of_folderWay hway) hlong]
  rfl

theorem mem_trail_of_mem_folderWay (hname : path.fileName? = some name)
    (hfile : path.directory = false) (hlegal : path.isLegal = true)
    (hp : p ∈ (h.folderWay path).names) : p ∈ h.trail path := by
  rw [trail, wayOf_of_fileName hname hfile hlegal]
  cases hway : (h.folderWay path).outcome with
  | error e => rwa [Way.andThen_of_error hway]
  | ok r =>
    rw [Way.andThen_of_ok hway]
    exact List.mem_append_left _ hp

/-- The place of a name is in the directory that its path leads to. -/
theorem locateName_eq_ok (hname : path.fileName? = some name) (hfile : path.directory = false) :
    h.locateName path = .ok p ↔ path.isLegal = true ∧ ∃ dir m,
      (h.folderWay path).outcome = .ok (dir, m) ∧ ¬ nameLimit < name.utf8ByteSize ∧
        p = dir ++ [name] := by
  unfold locateName
  rw [hname]
  dsimp only
  rw [hfile, if_neg Bool.false_ne_true]
  cases hlegal : path.isLegal with
  | false => simp
  | true =>
    rw [if_pos rfl, ← folderWay]
    cases hway : (h.folderWay path).outcome with
    | error e => simp [bind, Except.bind]
    | ok r =>
      obtain ⟨dir, m⟩ := r
      by_cases hlong : nameLimit < name.utf8ByteSize
      · simp [bind, Except.bind, hlong]
      · simp [bind, Except.bind, hlong, eq_comm]

/-- The place of a name that a path ends in is looked up on its way. -/
theorem mem_trail_of_locateName (hname : path.fileName? = some name) (hfile : path.directory = false)
    (hlocate : h.locateName path = .ok p) : p ∈ h.trail path := by
  obtain ⟨hlegal, dir, m, hway, hshort, rfl⟩ := (locateName_eq_ok hname hfile).1 hlocate
  rw [trail, wayOf_of_folderWay hname hfile hlegal hway]
  exact List.mem_append_right _ (mem_names_of_down (directory_of_folderWay hway) hshort)

/-- The place of a name depends on the way to its directory, and on the whole way where the path asks
for a directory. -/
theorem locateName_congr (hfolder : h'.folderWay path = h.folderWay path)
    (hway : h'.wayOf path = h.wayOf path) : h'.locateName path = h.locateName path := by
  unfold folderWay at hfolder
  unfold locateName locate
  rw [hfolder, hway]

/-- A path that ends in no name leads to a directory. -/
theorem directory_of_locateName (htree : h.IsTree)
    (hnone : path.fileName? = none ∨ path.directory = true) (hlocate : h.locateName path = .ok p) :
    h.at? p = some .directory := by
  have hlocate' : h.locate path = .ok p := by
    unfold locateName at hlocate
    cases hname : path.fileName? with
    | none => rwa [hname] at hlocate
    | some name =>
      rw [hname] at hlocate hnone
      rwa [hnone.resolve_left (Option.some_ne_none name)] at hlocate
  obtain ⟨m, hway⟩ := locate_eq_ok.1 hlocate'
  obtain ⟨-, -, heq⟩ := wayOf_of_ok hway
  rw [heq] at hway
  cases hdir : path.directory with
  | true =>
    rw [HostPath.moves, hdir, if_pos rfl] at hway
    exact (directory_of_stay hway).2
  | false =>
    have hlast : path.fileName? = none := hnone.resolve_right (by simp [hdir])
    rw [HostPath.moves, hdir, if_neg Bool.false_ne_true, List.append_nil] at hway
    cases hparts : path.parts using List.reverseRecOn with
    | nil =>
      rw [hparts, List.map_nil, way_nil] at hway
      cases hway
      exact at?_start h path
    | append_singleton front part =>
      have hdots : part = ".." := by simpa [HostPath.fileName?, hparts] using hlast
      rw [hparts, List.map_append, List.map_singleton, hdots] at hway
      obtain ⟨q, k, -, hup⟩ := exists_of_way_append hway
      change (h.way k q [.up]).outcome = _ at hup
      cases hq : h.at? q with
      | none => rw [way_of_none hq] at hup; cases hup
      | some e =>
        by_cases he : e = .directory
        · subst he
          rw [way_up hq, way_nil] at hup
          cases hup
          exact htree.directory_of_dropLast (by simp [hq])
        · rw [way_of_ne hq he] at hup
          cases hup

/-! ## Reading -/

/-- The text of a file at a place. -/
def textAt (h : Host) (p : Place) : Except HostError String :=
  match h.at? p with
  | none => .error .missing
  | some (.content bytes) =>
    match textOf? bytes with
    | none => .error .refused
    | some text => .ok text
  | some _ => .error .refused

theorem read_eq (h : Host) (path : HostPath) : h.read path = h.locate path >>= h.textAt := rfl

theorem textAt_eq_missing_iff : h.textAt p = .error .missing ↔ h.at? p = none := by
  unfold textAt
  cases h.at? p with
  | none => simp
  | some e =>
    cases e with
    | directory | link target => simp
    | content bytes => cases htext : textOf? bytes <;> simp [htext]

/-- A text is read from the file that the path leads to. -/
theorem read_eq_ok {text : String} :
    h.read path = .ok text ↔ ∃ p, h.locate path = .ok p ∧ h.at? p = some (.file text) := by
  rw [read_eq]
  constructor
  · intro hread
    obtain ⟨p, hlocate, htext⟩ := exists_of_bind_eq_ok hread
    refine ⟨p, hlocate, ?_⟩
    unfold textAt at htext
    split at htext
    · cases htext
    · next bytes hp =>
      split at htext
      · cases htext
      · next text' hbytes =>
        cases htext
        rw [hp, HostEntry.file, textOf?_eq_some.1 hbytes]
    · cases htext
  · rintro ⟨p, hlocate, hp⟩
    rw [hlocate]
    change h.textAt p = .ok text
    rw [textAt, hp]
    simp only [HostEntry.file, textOf?_eq_some.2 rfl]

/-- Reading finds nothing where the way is broken off because something is missing, or nothing stands
at its end. -/
theorem read_eq_missing_iff : h.read path = .error .missing ↔
    (h.wayOf path).outcome = .error .missing ∨ ∃ p, h.locate path = .ok p ∧ h.at? p = none := by
  rw [read_eq, locate]
  cases hway : (h.wayOf path).outcome with
  | error e => simp [Except.map, bind, Except.bind]
  | ok r => simp [Except.map, bind, Except.bind, textAt_eq_missing_iff]

/-- Where nothing stands at a name that is looked up, reading finds nothing. -/
theorem read_of_mem_trail_of_none {r : Place} (hr : r ∈ h.trail path) (hnone : h.at? r = none) :
    h.read path = .error .missing := by
  have hway : (h.wayOf path).outcome = .error .missing ∨
      ∃ m, (h.wayOf path).outcome = .ok (r, m) := by
    unfold trail at hr
    unfold wayOf at hr ⊢
    split at hr
    · cases hr
    · split at hr
      · next hnonempty hlegal =>
        rw [if_neg hnonempty, if_pos hlegal]
        exact outcome_of_mem_names_of_none hr hnone
      · cases hr
  exact read_eq_missing_iff.2 (hway.imp_right fun ⟨m, hok⟩ => ⟨r, locate_eq_ok.2 ⟨m, hok⟩, hnone⟩)

/-! ## Two hosts -/

/-- The way of a path depends only on what stands at the names that it looks up. -/
theorem wayOf_congr (htree : h.IsTree) (hhere : h'.here = h.here)
    (hdirs : ∀ r, h.at? r = some .directory → h'.at? r = some .directory)
    (hnames : ∀ r ∈ h.trail path, h.Fits h' (h.wayOf path) r) : h'.wayOf path = h.wayOf path := by
  unfold trail at hnames
  unfold wayOf at hnames ⊢
  rw [hhere]
  split
  · rfl
  · next hnonempty =>
    rw [if_neg hnonempty] at hnames
    split
    · next hlegal =>
      rw [if_pos hlegal] at hnames
      have hstart := at?_start h path
      exact way_congr htree hdirs (Or.inl ((hdirs _ hstart).trans hstart.symm)) hnames
    · rfl

theorem folderWay_congr (htree : h.IsTree) (hhere : h'.here = h.here)
    (hdirs : ∀ r, h.at? r = some .directory → h'.at? r = some .directory)
    (hnames : ∀ r ∈ (h.folderWay path).names, h.Fits h' (h.folderWay path) r) :
    h'.folderWay path = h.folderWay path := by
  have hstart := at?_start h path
  rw [folderWay, folderWay, hhere]
  exact way_congr htree hdirs (Or.inl ((hdirs _ hstart).trans hstart.symm)) hnames

/-- What is read depends only on what stands at the names that are looked up. -/
theorem read_of_agree (htree : h.IsTree) (hhere : h'.here = h.here)
    (hdirs : ∀ r, h.at? r = some .directory → h'.at? r = some .directory)
    (hnames : ∀ r ∈ h.trail path, h'.at? r = h.at? r) : h'.read path = h.read path := by
  have hway : h'.wayOf path = h.wayOf path :=
    wayOf_congr htree hhere hdirs fun r hr => Or.inl (hnames r hr)
  have hlocate : h'.locate path = h.locate path := by rw [locate, locate, hway]
  rw [read_eq, read_eq, hlocate]
  cases hp : h.locate path with
  | error e => rfl
  | ok p =>
    have hsame : h'.at? p = h.at? p := by
      rcases end_of_wayOf htree hp with hmem | hdir
      · exact hnames p hmem
      · rw [hdirs p hdir, hdir]
    change h'.textAt p = h.textAt p
    rw [textAt, textAt, hsame]

end Host

end VirtualShell
