import VirtualShell.Proofs.Tree.Mutation

/-!
# Creating a whole path

`createPath` creates several directories, one beneath the other. The first of them is missing in
the tree, and each of the others is put beneath a directory that is new and so has no children;
this is why none of the single creations can be refused (`createAll_of_stopsAt`). Hence the only
refusal comes before anything is created, from a file that stands in the way
(`createPath_spec`).
-/

namespace VirtualShell

namespace FileTree

variable {t : FileTree} {s : Supply}

/-- The way down stops at a directory beneath which nothing of the rest exists. -/
structure StopsAt (t : FileTree) (path : String) (rest : List String) : Prop where
  directory : ∃ d, t.lookup? path = some d ∧ d.isDirectory = true
  missing : ∀ name, rest.head? = some name → t.lookup? (Path.join path name) = none
  names : ∀ name ∈ rest, validName name = true

/-- The missing directories are a chain beneath the last one that exists, unless a file stands in
the way. -/
theorem missingBelow_spec {names : List String} (hnames : ∀ name ∈ names, validName name = true)
    {current : String} (hdir : ∃ d, t.lookup? current = some d ∧ d.isDirectory = true) :
    (∃ before rest, names = before ++ rest ∧
      t.missingBelow current names =
        .ok (missingBelow.chain (before.foldl Path.join current) rest) ∧
      t.StopsAt (before.foldl Path.join current) rest) ∨
    ∃ before n, before <+: names ∧ t.lookup? (before.foldl Path.join current) = some n ∧
      n.isFile = true ∧
      t.missingBelow current names = .error (.notADirectory (before.foldl Path.join current)) := by
  induction names generalizing current with
  | nil => exact Or.inl ⟨[], [], rfl, rfl, hdir, by simp, by simp⟩
  | cons name names ih =>
    rw [missingBelow]
    cases hl : t.lookup? (Path.join current name) with
    | none =>
      refine Or.inl ⟨[], name :: names, rfl, rfl, hdir, ?_, hnames⟩
      intro m hm
      rw [List.head?_cons, Option.some.injEq] at hm
      rw [← hm]
      exact hl
    | some n =>
      dsimp only
      split
      · next hn =>
        rcases ih (fun m hm => hnames m (List.mem_cons_of_mem _ hm)) ⟨n, hl, hn⟩ with
          ⟨before, rest, hsplit, hok, hstop⟩ | ⟨before, m, hbefore, hm, hfile, herr⟩
        · exact Or.inl ⟨name :: before, rest, by rw [hsplit, List.cons_append], hok, hstop⟩
        · exact Or.inr ⟨name :: before, m, List.cons_prefix_cons.2 ⟨rfl, hbefore⟩, hm, hfile, herr⟩
      · next hn =>
        exact Or.inr ⟨[name], n, by simp, hl, by simpa [Node.isFile] using hn, rfl⟩

theorem createAll_cons (s : Supply) (i : Nat) (t : FileTree) (m : String × String)
    (missing : List (String × String)) : t.createAll s i (m :: missing) =
      ((·.1) <$> t.createDirectory (s.turn i) m.2 m.1) >>= (createAll s (i + 1) · missing) := by
  rw [createAll]
  cases t.createDirectory (s.turn i) m.2 m.1 <;> rfl

theorem createAll_cons_eq_ok {i : Nat} {m : String × String} {missing : List (String × String)}
    {t' : FileTree} (hc : t.createAll s i (m :: missing) = .ok t') :
    ∃ r, t.createDirectory (s.turn i) m.2 m.1 = .ok r ∧
      r.1.createAll s (i + 1) missing = .ok t' := by
  rw [createAll] at hc
  cases hm : t.createDirectory (s.turn i) m.2 m.1 with
  | error e =>
    rw [hm] at hc
    cases hc
  | ok r =>
    rw [hm] at hc
    exact ⟨r, rfl, hc⟩

/-- What each creation keeps, from its turn to the next one, holds when all directories were created. -/
theorem createAll_induction {P : Nat → FileTree → Prop} {missing : List (String × String)} {i : Nat}
    {t' : FileTree} (hc : t.createAll s i missing = .ok t') (hstart : P i t)
    (hstep : ∀ i t (m : String × String) r, P i t →
      t.createDirectory (s.turn i) m.2 m.1 = .ok r → P (i + 1) r.1) : P (i + missing.length) t' := by
  induction missing generalizing t i with
  | nil =>
    cases hc
    exact hstart
  | cons m missing ih =>
    obtain ⟨r, hr, hrest⟩ := createAll_cons_eq_ok hc
    rw [List.length_cons, Nat.add_comm missing.length 1, ← Nat.add_assoc]
    exact ih hrest (hstep i t m r hstart hr)

theorem createPath_eq_ok {path : String} {t' : FileTree} (hc : t.createPath s path = .ok t') :
    ∃ missing, t.createAll s 0 missing = .ok t' := by
  unfold createPath at hc
  dsimp only at hc
  cases hmissing : t.missingBelow "/" ((Path.segments (t.resolve path)).filter (· ≠ "")) with
  | error e =>
    rw [hmissing] at hc
    cases hc
  | ok missing =>
    rw [hmissing] at hc
    exact ⟨missing, hc⟩

namespace Consistent

/-- Creating the first directory of a chain succeeds and leaves the chain beneath it. -/
theorem createDirectory_of_stopsAt (h : t.Consistent) {path name : String} {rest : List String}
    (hstop : t.StopsAt path (name :: rest)) : ∃ d, t.lookup? path = some d ∧
      t.createDirectory s name path = .ok (t.attach s d.id path name (.directory []) false) ∧
      (t.attach s d.id path name (.directory []) false).1.Consistent ∧
      (t.attach s d.id path name (.directory []) false).1.StopsAt (Path.join path name) rest := by
  obtain ⟨d, hd, hdir⟩ := hstop.directory
  have hname := hstop.names name List.mem_cons_self
  have hfree := hstop.missing name rfl
  obtain ⟨hnode, hpath⟩ := h.lookup?_eq_some.1 hd
  have hnormal : t.resolve path = path :=
    Path.resolve_of_normal (hpath ▸ h.normal_path hnode)
  have hok : t.createDirectory s name path =
      .ok (t.attach s d.id path name (.directory []) false) := by
    simp [FileTree.createDirectory, FileTree.createEntry, hnormal, hd, hfree, hname, hdir]
  have hcons := h.createDirectory hok
  refine ⟨d, hd, hok, hcons, ?_⟩
  -- the new node is found at the joined path and has no children
  have hfound := lookup?_attach h hcons (Path.join path name)
  rw [if_pos rfl] at hfound
  refine ⟨⟨_, hfound, rfl⟩, fun m hm => ?_, fun m hm => ?_⟩
  · cases hl : (t.attach s d.id path name (.directory []) false).1.lookup?
        (Path.join (Path.join path name) m) with
    | none => rfl
    | some n =>
      have hm' := hstop.names m (List.mem_cons_of_mem _ (List.mem_of_mem_head? hm))
      have hmem := (hcons.mem_children_of_lookup?_join hfound hm' hl).1
      exact absurd hmem List.not_mem_nil
  · exact hstop.names m (List.mem_cons_of_mem _ hm)

/-- The directories of a chain can all be created. -/
theorem createAll_of_stopsAt (h : t.Consistent) {path : String} {rest : List String}
    (hstop : t.StopsAt path rest) (i : Nat) :
    ∃ t', t.createAll s i (missingBelow.chain path rest) = .ok t' ∧ t'.Consistent := by
  induction rest generalizing t path i with
  | nil => exact ⟨t, rfl, h⟩
  | cons name rest ih =>
    obtain ⟨d, -, hr, hcons, hstop'⟩ := h.createDirectory_of_stopsAt (s := s.turn i) hstop
    obtain ⟨t', ht', hcons'⟩ := ih hcons hstop' (i + 1)
    refine ⟨t', ?_, hcons'⟩
    rw [missingBelow.chain, createAll, hr]
    exact ht'

/-- What is missing on the way to typed input is a chain of directories, or a file is in the way. -/
theorem missingBelow_resolve (h : t.Consistent) (path : String) :
    let names := (Path.segments (t.resolve path)).filter (· ≠ "")
    (∃ before rest, names = before ++ rest ∧
      t.missingBelow "/" names = .ok (missingBelow.chain (Path.ofSegments before) rest) ∧
      t.StopsAt (Path.ofSegments before) rest) ∨
    ∃ before n, before <+: names ∧ t.lookup? (Path.ofSegments before) = some n ∧ n.isFile = true ∧
      t.missingBelow "/" names = .error (.notADirectory (Path.ofSegments before)) := by
  obtain ⟨names, hnames, hpath⟩ := h.normal_resolve path
  obtain ⟨root, hfound, -, hdir⟩ := h.lookup?_root
  have hsegs : (Path.segments (t.resolve path)).filter (· ≠ "") = names := by
    rw [hpath, Path.filter_segments hnames]
  have hjoin : ∀ before, before <+: names → before.foldl Path.join "/" = Path.ofSegments before := by
    intro before hbefore
    have hroot : ∀ s ∈ ([] : List String), validName s = true := by simp
    exact Path.foldl_join hroot fun s hs => hnames s (hbefore.subset hs)
  rw [hsegs]
  rcases missingBelow_spec hnames ⟨root, hfound, hdir⟩ with
    ⟨before, rest, hsplit, hok, hstop⟩ | ⟨before, n, hbefore, hn, hfile, herr⟩
  · rw [hjoin before (hsplit ▸ List.prefix_append before rest)] at hok hstop
    exact Or.inl ⟨before, rest, hsplit, hok, hstop⟩
  · rw [hjoin before hbefore] at hn herr
    exact Or.inr ⟨before, n, hbefore, hn, hfile, herr⟩

/-- A path is created as a whole, or it is refused because of a file in the way. -/
theorem createPath_spec (h : t.Consistent) (s : Supply) (path : String) :
    let names := (Path.segments (t.resolve path)).filter (· ≠ "")
    (∃ before rest t', names = before ++ rest ∧ t.StopsAt (Path.ofSegments before) rest ∧
      t.createPath s path = .ok t' ∧
      t.createAll s 0 (missingBelow.chain (Path.ofSegments before) rest) = .ok t' ∧
      t'.Consistent) ∨
    ∃ before n, before <+: names ∧ t.lookup? (Path.ofSegments before) = some n ∧ n.isFile = true ∧
      t.createPath s path = .error (.notADirectory (Path.ofSegments before)) := by
  rw [FileTree.createPath]
  rcases h.missingBelow_resolve path with
    ⟨before, rest, hsplit, hmissing, hstop⟩ | ⟨before, n, hbefore, hn, hfile, herr⟩
  · obtain ⟨t', ht', hcons⟩ := h.createAll_of_stopsAt (s := s) hstop 0
    refine Or.inl ⟨before, rest, t', hsplit, hstop, ?_, ht', hcons⟩
    rw [hmissing]
    exact ht'
  · refine Or.inr ⟨before, n, hbefore, hn, hfile, ?_⟩
    rw [herr]
    rfl

theorem createPath {path : String} {t' : FileTree} (h : t.Consistent)
    (hc : t.createPath s path = .ok t') : t'.Consistent := by
  rcases h.createPath_spec s path with ⟨-, -, t'', -, -, ht'', -, hcons⟩ | ⟨before, -, -, -, -, herr⟩
  · rw [ht'', Except.ok.injEq] at hc
    rwa [← hc]
  · rw [herr] at hc
    cases hc

/-- At the end of a chain of directories that were created there is a directory. -/
theorem directory_of_stopsAt (h : t.Consistent) {t' : FileTree} {path : String}
    {names : List String} (hstop : t.StopsAt path names) {i : Nat}
    (ht' : t.createAll s i (missingBelow.chain path names) = .ok t') :
    ∃ n, t'.lookup? (names.foldl Path.join path) = some n ∧ n.isDirectory = true := by
  induction names generalizing t path i with
  | nil =>
    cases ht'
    exact hstop.directory
  | cons name names ih =>
    obtain ⟨d, -, hr, hcons, hstop'⟩ := h.createDirectory_of_stopsAt (s := s.turn i) hstop
    rw [missingBelow.chain, createAll, hr] at ht'
    exact ih hcons hstop' ht'

/-- After a path was created there is a directory at it. -/
theorem directory_of_createPath (h : t.Consistent) {path : String} {t' : FileTree}
    (hc : t.createPath s path = .ok t') :
    ∃ n, t'.lookup? (t.resolve path) = some n ∧ n.isDirectory = true := by
  obtain ⟨names, hnames, hpath⟩ := h.normal_resolve path
  have hspec := h.createPath_spec s path
  rw [hpath, Path.filter_segments hnames] at hspec
  rcases hspec with ⟨before, rest, t'', hsplit, hstop, ht'', hrun, -⟩ | ⟨before, n, -, -, -, herr⟩
  · rw [ht'', Except.ok.injEq] at hc
    subst hc
    have hdir := h.directory_of_stopsAt hstop hrun
    rw [Path.foldl_join (fun s hs => hnames s (hsplit ▸ List.mem_append_left _ hs)) hstop.names,
      ← hsplit, ← hpath] at hdir
    exact hdir
  · rw [herr] at hc
    cases hc

end Consistent

end FileTree

end VirtualShell
