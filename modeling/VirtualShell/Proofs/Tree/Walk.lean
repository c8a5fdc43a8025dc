import VirtualShell.Proofs.Tree.Acceptance
import VirtualShell.Proofs.Tree.Starter
import VirtualShell.Tree.Fresh

/-!
# Lookup as a walk

Lookup by path compares stored paths and never looks at a list of children. In a consistent tree it
finds what a walk from the root finds that goes, name by name, to the child of that name. One step of
the walk is a lookup of the joined path (`Consistent.child?_eq_lookup?`); by induction on the names
the whole walk is one (`Consistent.descend?_eq_lookup?`). A walk fails at its first name that no
child has (`descend?_eq_none_iff`).
-/

namespace VirtualShell

namespace FileTree

variable {t : FileTree}

/-! ## Where a walk fails -/

theorem child?_eq_none_iff {d : Node} {name : String} :
    t.child? d name = none ↔ ∀ c ∈ t.childNodes d, c.name ≠ name := by
  simp only [child?, childNodes, List.find?_eq_none, decide_eq_true_eq, ne_eq]

theorem childNodes_of_isFile {d : Node} (hfile : d.isFile = true) : t.childNodes d = [] := by
  cases hc : d.content with
  | file text => simp [childNodes, Node.children, hc]
  | directory ids => simp [Node.isFile, Node.isDirectory, hc] at hfile

/-- A walk fails when it comes to a name that no child of the node reached so far has. -/
theorem descend?_eq_none_iff {n : Node} {names : List String} :
    t.descend? n names = none ↔ ∃ before name after d, names = before ++ name :: after ∧
      t.descend? n before = some d ∧ t.child? d name = none := by
  induction names generalizing n with
  | nil => simp [descend?]
  | cons name names ih =>
    cases hc : t.child? n name with
    | none =>
      have hnone : t.descend? n (name :: names) = none := by simp [descend?, hc]
      exact iff_of_true hnone ⟨[], name, names, n, rfl, rfl, hc⟩
    | some c =>
      have hstep : ∀ rest, t.descend? n (name :: rest) = t.descend? c rest := by
        intro rest
        simp [descend?, hc]
      rw [hstep, ih]
      constructor
      · rintro ⟨before, name', after, d, rfl, hd, hnone⟩
        exact ⟨name :: before, name', after, d, rfl, by rw [hstep, hd], hnone⟩
      · rintro ⟨before, name', after, d, hsplit, hd, hnone⟩
        cases before with
        | nil =>
          -- the first step succeeds, so the walk does not fail there
          rw [List.nil_append, List.cons.injEq] at hsplit
          rw [descend?, Option.some.injEq] at hd
          rw [← hsplit.1, ← hd, hc] at hnone
          cases hnone
        | cons first before =>
          rw [List.cons_append, List.cons.injEq] at hsplit
          obtain ⟨rfl, hsplit⟩ := hsplit
          rw [hstep] at hd
          exact ⟨before, name', after, d, hsplit, hd, hnone⟩

/-! ## Steps and walks as lookups -/

namespace Consistent

variable (h : t.Consistent)
include h

/-- Beneath a path that no node has there is no node. -/
theorem lookup?_join_eq_none {path name : String} (hpath : path.toList ≠ [])
    (hname : validName name = true) (hnone : t.lookup? path = none) :
    t.lookup? (Path.join path name) = none := by
  cases hl : t.lookup? (Path.join path name) with
  | none => rfl
  | some n =>
    obtain ⟨hn, hnpath⟩ := h.lookup?_eq_some.1 hl
    obtain ⟨p, d, -, hd, hdpath, -⟩ := h.parent_of_path_eq_join hn hpath hname hnpath
    exact absurd hdpath (lookup?_eq_none.1 hnone p d hd)

theorem lookup?_foldl_join_eq_none {path : String} {names : List String}
    (hpath : path.toList ≠ []) (hnames : ∀ s ∈ names, validName s = true)
    (hnone : t.lookup? path = none) : t.lookup? (names.foldl Path.join path) = none := by
  induction names generalizing path with
  | nil => exact hnone
  | cons name names ih =>
    have hname := hnames name List.mem_cons_self
    refine ih ?_ (fun s hs => hnames s (List.mem_cons_of_mem _ hs))
      (h.lookup?_join_eq_none hpath hname hnone)
    rw [Path.toList_join]
    exact List.append_ne_nil_of_right_ne_nil _ (List.cons_ne_nil _ _)

/-- The children of a directory with a given name: at most one, as siblings differ in their names. -/
theorem child?_eq_some {d c : Node} {name : String} (hd : t.node? d.id = some d) :
    t.child? d name = some c ↔ t.node? c.id = some c ∧ c.parent = some d.id ∧ c.name = name := by
  constructor
  · intro hc
    obtain ⟨id, hid, hn⟩ := List.mem_filterMap.1 (List.mem_of_find?_eq_some hc)
    refine ⟨by rwa [h.key_eq_id id c hn], h.parent_eq_of_mem_children hd hid hn, ?_⟩
    simpa using List.find?_some hc
  · rintro ⟨hn, hp, hname⟩
    obtain ⟨e, he, -, hmem, -⟩ := h.parent_spec hn hp
    rw [hd, Option.some.injEq] at he
    subst he
    have hlisted : c ∈ t.childNodes d := List.mem_filterMap.2 ⟨c.id, hmem, hn⟩
    cases hc : t.child? d name with
    | none => exact absurd hname (child?_eq_none_iff.1 hc c hlisted)
    | some c' =>
      obtain ⟨id, hid, hn'⟩ := List.mem_filterMap.1 (List.mem_of_find?_eq_some hc)
      have hname' : c'.name = name := by simpa using List.find?_some hc
      have hp' := h.parent_eq_of_mem_children hd hid hn'
      have hsame : id = c.id := h.sibling_names id c' c.id c hn' hn (hp'.trans hp.symm)
        (by rw [hp']; simp) (hname'.trans hname.symm)
      rw [hsame, hn] at hn'
      exact hn'.symm

/-- A step to the child of a name finds what is stored at the joined path. -/
theorem child?_eq_lookup? {d : Node} {name : String} (hd : t.node? d.id = some d)
    (hname : validName name = true) : t.child? d name = t.lookup? (Path.join d.path name) := by
  refine Option.ext fun c => ?_
  rw [h.child?_eq_some hd]
  constructor
  · rintro ⟨hn, hp, hcname⟩
    exact h.lookup?_eq_some.2 ⟨hn, by rw [h.path_ok c.id c hn d.id d hp hd, hcname]⟩
  · intro hl
    have hdl : t.lookup? d.path = some d := h.lookup?_eq_some.2 ⟨hd, rfl⟩
    obtain ⟨hmem, hcname⟩ := h.mem_children_of_lookup?_join hdl hname hl
    obtain ⟨hn, -⟩ := h.lookup?_eq_some.1 hl
    exact ⟨hn, h.parent_eq_of_mem_children hd hmem hn, hcname⟩

/-- A walk finds what is stored at the path to which its names join. The induction is on the names;
after a step that fails nothing can be stored further down. -/
theorem descend?_eq_lookup? {d : Node} {names : List String} (hd : t.node? d.id = some d)
    (hnames : ∀ s ∈ names, validName s = true) :
    t.descend? d names = t.lookup? (names.foldl Path.join d.path) := by
  induction names generalizing d with
  | nil =>
    rw [descend?, List.foldl_nil]
    exact (h.lookup?_eq_some.2 ⟨hd, rfl⟩).symm
  | cons name names ih =>
    have hname := hnames name List.mem_cons_self
    have hrest : ∀ s ∈ names, validName s = true := fun s hs => hnames s (List.mem_cons_of_mem _ hs)
    have hstep := h.child?_eq_lookup? hd hname
    rw [descend?, hstep, List.foldl_cons]
    cases hl : t.lookup? (Path.join d.path name) with
    | none =>
      have hne : (Path.join d.path name).toList ≠ [] := by
        rw [Path.toList_join]
        exact List.append_ne_nil_of_right_ne_nil _ (List.cons_ne_nil _ _)
      exact (h.lookup?_foldl_join_eq_none hne hrest hl).symm
    | some c =>
      obtain ⟨hc, hcpath⟩ := h.lookup?_eq_some.1 hl
      rw [← hcpath]
      exact ih hc hrest

/-- Lookup of a path in normal form is the walk along its names. -/
theorem lookup?_eq_walk? {path : String} (hpath : Path.Normal path) :
    t.lookup? path = t.walk? path := by
  obtain ⟨names, hnames, rfl⟩ := hpath
  obtain ⟨root, hroot, -, hrootPath, -⟩ := h.root_ok
  have hid : t.node? root.id = some root := by rw [h.key_eq_id _ _ hroot, hroot]
  have hjoin : names.foldl Path.join "/" = Path.ofSegments names := by
    have hroot : ∀ s ∈ ([] : List String), validName s = true := by simp
    exact Path.foldl_join hroot hnames
  rw [walk?, Path.filter_segments hnames, hroot]
  change _ = t.descend? root names
  rw [h.descend?_eq_lookup? hid hnames, hrootPath, hjoin]

/-- A stored path is found again, at its own node. -/
theorem find?_path {id : NodeId} {n : Node} (hn : t.node? id = some n) :
    t.find? n.path = some n := by
  rw [find?_of_normal (h.normal_path hn)]
  exact h.lookup?_eq_some.2 ⟨by rwa [h.key_eq_id id n hn], rfl⟩

end Consistent

/-- In an accepted tree typed input names what a walk from the root finds along the segments of the
resolved path, and nothing exactly when a step of that walk fails. Every node is named by its own
path, and no input names two nodes. -/
theorem find?_eq_walk? (h : t.defect? = none) (input : String) :
    t.find? input = t.walk? (t.resolve input) ∧
    (t.find? input = none ↔ ∃ root before name after d, t.node? t.root = some root ∧
      (Path.segments (t.resolve input)).filter (· ≠ "") = before ++ name :: after ∧
      t.descend? root before = some d ∧
      (d.isFile = true ∨ ∀ c ∈ t.childNodes d, c.name ≠ name)) ∧
    (∀ id n, t.node? id = some n → t.find? n.path = some n) ∧
    ∀ a b m n, t.node? a = some m → t.node? b = some n → m.path = t.resolve input →
      n.path = t.resolve input → a = b := by
  have hcons : t.Consistent := defect?_eq_none_iff.1 h
  obtain ⟨root, hroot, -⟩ := hcons.root_ok
  have hwalk : t.find? input = t.walk? (t.resolve input) :=
    hcons.lookup?_eq_walk? (hcons.normal_resolve input)
  refine ⟨hwalk, ?_, fun _ _ hn => hcons.find?_path hn, ?_⟩
  · rw [hwalk, walk?, hroot]
    change t.descend? root _ = none ↔ _
    rw [descend?_eq_none_iff]
    constructor
    · rintro ⟨before, name, after, d, hsplit, hd, hnone⟩
      exact ⟨root, before, name, after, d, rfl, hsplit, hd, Or.inr (child?_eq_none_iff.1 hnone)⟩
    · rintro ⟨root', before, name, after, d, hroot', hsplit, hd, hstop⟩
      rw [Option.some.injEq] at hroot'
      subst hroot'
      refine ⟨before, name, after, d, hsplit, hd, child?_eq_none_iff.2 ?_⟩
      rcases hstop with hfile | hnone
      · rw [childNodes_of_isFile hfile]
        simp
      · exact hnone
  · intro a b m n hm hn hmpath hnpath
    exact hcons.path_inj hm hn (hmpath.trans hnpath.symm)

/-- In the starter layout, whose current directory is the home directory, a roundabout way leads to
the system log, and no way leads on from a file. -/
theorem find?_eq_walk?_from_home :
    let t := seed ⟨.still ⟨0, 0⟩, .counting⟩
    t.defect? = none ∧ t.find? "../../data//./logs/system.log" = t.walk? "/data/logs/system.log" ∧
      (t.walk? "/data/logs/system.log").isSome = true ∧ t.find? "readme.txt/more" = none := by
  intro t
  have hd : t.defect? = none := defect?_eq_none_iff.2 (consistent_seed _)
  obtain ⟨hlog, hsome, hroot, hfile, hkind, hmore⟩ :
      t.resolve "../../data//./logs/system.log" = "/data/logs/system.log" ∧
      (t.walk? "/data/logs/system.log").isSome = true ∧ (t.node? t.root).isSome = true ∧
      ((t.node? t.root).bind (t.descend? · ["home", "user", "readme.txt"])).isSome = true ∧
      ((t.node? t.root).bind (t.descend? · ["home", "user", "readme.txt"])).all
        Node.isFile = true ∧
      (Path.segments (t.resolve "readme.txt/more")).filter (· ≠ "") =
        ["home", "user", "readme.txt"] ++ "more" :: [] := by
    decide
  have hfound := (find?_eq_walk? hd "../../data//./logs/system.log").1
  rw [hlog] at hfound
  refine ⟨hd, hfound, hsome, (find?_eq_walk? hd "readme.txt/more").2.1.2 ?_⟩
  -- the walk to the file succeeds, and the next name is `more`
  obtain ⟨root, hroot⟩ := Option.isSome_iff_exists.1 hroot
  obtain ⟨file, hfile⟩ := Option.isSome_iff_exists.1 hfile
  rw [hroot, Option.bind_some] at hfile hkind
  refine ⟨root, ["home", "user", "readme.txt"], "more", [], file, hroot, hmore, hfile, Or.inl ?_⟩
  simpa [hfile] using hkind

end FileTree

end VirtualShell
