import VirtualShell.Proofs.Tree.InPlace
import VirtualShell.Proofs.Tree.Walk

/-!
# Completing a path

`createPath` goes down a path as far as there are directories and creates the rest of it, one
directory within the other. What that makes of a tree is said by `Completed`: the new directories
come after all other nodes, the first of them is put at the end of one list of children, and nothing
else changes. The chain is created step by step (`Consistent.completed_of_stopsAt`), and it consists
of just the directories that are missing on the way (`Consistent.missing_eq`). Once they are there
nothing is left to create (`completed_of_createPath`).
-/

namespace VirtualShell

namespace FileTree

variable {t t' : FileTree} {s : Supply} {c : Clock} {i : Nat} {names : List String}
  {added : List Node}

/-! ## What completing a path makes of a tree -/

/-- New directories with the given names beneath a node and its path, created in turns from the `i`-th
on. Each holds the next one alone, and the last one nothing. -/
def Chained (c : Clock) (i : Nat) (parent : NodeId) (path : String) :
    List String → List Node → Prop
  | [], [] => True
  | name :: names, n :: rest =>
    n = { id := n.id, name, path := Path.join path name, parent := some parent,
          content := .directory (rest.head?.map Node.id).toList,
          metadata := .forContent (.directory []) (c.turn i).now, readOnly := false } ∧
      Chained c (i + 1) n.id (Path.join path name) names rest
  | _, _ => False

/-- A tree before and after new directories with the given names were created in `d`, each within the
one before and in a later turn, the first in the `i`-th. -/
structure Completed (t : FileTree) (c : Clock) (i : Nat) (d : Node) (names : List String)
    (added : List Node) (t' : FileTree) : Prop where
  root_eq : t'.root = t.root
  cwd_eq : t'.cwd = t.cwd
  /-- The other nodes are as they were and in their order, but for the list of the directory. -/
  entries_eq : t'.nodes.entries =
    (t.nodes.entries.map fun e =>
      (e.1, Node.relist d.id (· ++ (added.head?.map Node.id).toList) e.1 e.2)) ++
    added.map fun n => (n.id, n)
  chained : Chained c i d.id d.path names added

namespace Chained

variable {parent : NodeId} {path : String}

theorem paths (h : Chained c i parent path names added) :
    added.map Node.path = names.inits.tail.map (·.foldl Path.join path) := by
  fun_induction Chained c i parent path names added with
  | case1 => rfl
  | case2 i parent path name names n rest ih =>
    obtain ⟨hn, hrest⟩ := h
    have hinits : names.inits = [] :: names.inits.tail := by cases names <;> simp
    rw [List.map_cons, ih hrest, List.inits_cons, List.tail_cons, hinits, hn]
    simp [Function.comp_def]
  | case3 => exact h.elim

theorem isDirectory (h : Chained c i parent path names added) :
    ∀ n ∈ added, n.isDirectory = true := by
  fun_induction Chained c i parent path names added with
  | case1 => simp
  | case2 i parent path name names n rest ih =>
    obtain ⟨hn, hrest⟩ := h
    intro m hm
    rcases List.mem_cons.1 hm with rfl | hm
    · rw [hn]
      rfl
    · exact ih hrest m hm
  | case3 => exact h.elim

end Chained

namespace Completed

variable {d : Node} (hc : t.Completed c i d names added t')
include hc

theorem node?_of_node? {id : NodeId} {n : Node} (hn : t.node? id = some n) : t'.node? id =
    some (Node.relist d.id (· ++ (added.head?.map Node.id).toList) id n) := by
  refine OrderedMap.mem_entries_iff.1 ?_
  rw [hc.entries_eq]
  exact List.mem_append_left _ (List.mem_map.2 ⟨(id, n), OrderedMap.mem_entries_iff.2 hn, rfl⟩)

theorem node?_of_mem {n : Node} (hn : n ∈ added) : t'.node? n.id = some n := by
  refine OrderedMap.mem_entries_iff.1 ?_
  rw [hc.entries_eq]
  exact List.mem_append_right _ (List.mem_map.2 ⟨n, hn, rfl⟩)

/-- What is typed is read as before. -/
theorem resolve_eq (h : t.Consistent) (path : String) : t'.resolve path = t.resolve path := by
  obtain ⟨c, hcwd, -⟩ := h.cwd_ok
  exact resolve_congr hc.cwd_eq hcwd (hc.node?_of_node? hcwd) Node.relist_path path

/-- A directory stays one, and where a new one was added there is one. -/
theorem directory_of_path (h : t.Consistent) (h' : t'.Consistent) {path : String}
    (hpath : (∃ n, t.lookup? path = some n ∧ n.isDirectory = true) ∨ path ∈ added.map Node.path) :
    ∃ n, t'.lookup? path = some n ∧ n.isDirectory = true := by
  rcases hpath with ⟨n, hn, hdir⟩ | hpath
  · obtain ⟨hnode, rfl⟩ := h.lookup?_eq_some.1 hn
    have hnode' := hc.node?_of_node? hnode
    generalize hm : Node.relist d.id (· ++ (added.head?.map Node.id).toList) n.id n = m at hnode'
    have hid : m.id = n.id := by rw [← hm, Node.relist_id]
    refine ⟨m, h'.lookup?_eq_some.2 ⟨by rw [hid, hnode'], ?_⟩, ?_⟩
    · rw [← hm, Node.relist_path]
    · rw [← hm, Node.relist_isDirectory, hdir]
  · obtain ⟨n, hn, rfl⟩ := List.mem_map.1 hpath
    exact ⟨n, h'.lookup?_eq_some.2 ⟨hc.node?_of_mem hn, rfl⟩, hc.chained.isDirectory n hn⟩

end Completed

namespace Consistent

/-- A chain of directories is created beneath the one at which the way stops. The induction is on
the names; every directory but the first is put in one that was new in the step before. -/
theorem completed_of_stopsAt (h : t.Consistent) {path : String} {d : Node}
    (hstop : t.StopsAt path names) (hd : t.lookup? path = some d)
    (ht' : t.createAll s i (missingBelow.chain path names) = .ok t') :
    ∃ added, t.Completed s.clock i d names added t' := by
  induction names generalizing t path d i with
  | nil =>
    cases ht'
    refine ⟨[], rfl, rfl, ?_, trivial⟩
    simp [Node.relist_same]
  | cons name names ih =>
    obtain ⟨d', hd', hr, hcons, hstop'⟩ := h.createDirectory_of_stopsAt (s := s.turn i) hstop
    rw [hd, Option.some.injEq] at hd'
    subst hd'
    rw [missingBelow.chain, createAll, hr] at ht'
    have hfound := lookup?_attach h hcons (Path.join path name)
    rw [if_pos rfl] at hfound
    obtain ⟨added, hadded⟩ := ih hcons hstop' hfound ht'
    obtain ⟨hnode, hpath⟩ := h.lookup?_eq_some.1 hd
    refine ⟨{ (t.attach (s.turn i) d.id path name (.directory []) false).2 with
      content := .directory (added.head?.map Node.id).toList } :: added, ?_⟩
    refine ⟨hadded.root_eq, hadded.cwd_eq, ?entries, ?chained⟩
    case entries =>
      rw [hadded.entries_eq, entries_attach, List.map_append, List.map_map, List.append_assoc]
      refine congrArg₂ (· ++ ·) (List.map_congr_left fun e he => ?_) ?_
      · -- the nodes from before are not the one that is new
        have hne : e.1 ≠ s.ids.pick t.ids := ne_pick_of_node? (OrderedMap.mem_entries_iff.1 he)
        exact congrArg (e.1, ·) (Node.relist_of_ne hne)
      · rw [List.map_singleton, List.map_cons]
        exact congrArg (fun n => (s.ids.pick t.ids, n) :: added.map fun n => (n.id, n))
          Node.relist_self
    case chained =>
      rw [hpath]
      exact ⟨rfl, hadded.chained⟩

/-! ## What is missing on the way -/

variable (h : t.Consistent) {before rest : List String}
include h

/-- Whatever stands above a directory is a directory. -/
theorem directory_above {path : String} {n : Node} (hpath : Path.Normal path)
    (hnames : ∀ s ∈ names, validName s = true)
    (hn : t.lookup? (names.foldl Path.join path) = some n) (hdir : n.isDirectory = true) :
    ∃ d, t.lookup? path = some d ∧ d.isDirectory = true := by
  induction names generalizing path with
  | nil => exact ⟨n, hn, hdir⟩
  | cons name names ih =>
    have hname := hnames name List.mem_cons_self
    obtain ⟨m, hm, -⟩ := ih (hpath.join hname) (fun s hs => hnames s (List.mem_cons_of_mem _ hs)) hn
    obtain ⟨hnode, hmpath⟩ := h.lookup?_eq_some.1 hm
    obtain ⟨_, hcons⟩ := hpath.exists_cons
    obtain ⟨p, d, hp, hd, hdpath, -⟩ :=
      h.parent_of_path_eq_join hnode (by simp [hcons]) hname hmpath
    obtain ⟨d', hd', hddir, -⟩ := h.parent_spec hnode hp
    rw [hd, Option.some.injEq] at hd'
    subst hd'
    exact ⟨d, h.lookup?_eq_some.2 ⟨by rw [h.key_eq_id p d hd, hd], hdpath⟩, hddir⟩

/-- The way goes through directories as far as it goes. -/
theorem directory_before (hbefore : ∀ s ∈ before, validName s = true)
    (hstop : t.StopsAt (Path.ofSegments before) rest) {front : List String}
    (hfront : front <+: before) :
    ∃ d, t.lookup? (Path.ofSegments front) = some d ∧ d.isDirectory = true := by
  obtain ⟨between, rfl⟩ := hfront
  obtain ⟨n, hn, hdir⟩ := hstop.directory
  have hnames : ∀ s ∈ front, validName s = true := fun s hs => hbefore s (List.mem_append_left _ hs)
  have hbetween : ∀ s ∈ between, validName s = true :=
    fun s hs => hbefore s (List.mem_append_right _ hs)
  rw [← Path.foldl_join hnames hbetween] at hn
  exact h.directory_above ⟨front, hnames, rfl⟩ hbetween hn hdir

/-- Where the way stops nothing is found further down. -/
theorem lookup?_after (hbefore : ∀ s ∈ before, validName s = true)
    (hstop : t.StopsAt (Path.ofSegments before) rest) {front : List String} (hne : front ≠ [])
    (hfront : front <+: rest) : t.lookup? (Path.ofSegments (before ++ front)) = none := by
  obtain ⟨name, front, rfl⟩ := List.exists_cons_of_ne_nil hne
  have hnames : ∀ s ∈ name :: front, validName s = true :=
    fun s hs => hstop.names s (hfront.subset hs)
  have hhead : rest.head? = some name := by
    obtain ⟨_, rfl⟩ := hfront
    rfl
  rw [← Path.foldl_join hbefore hnames, List.foldl_cons]
  refine h.lookup?_foldl_join_eq_none ?_ (fun s hs => hnames s (List.mem_cons_of_mem _ hs))
    (hstop.missing name hhead)
  rw [Path.toList_join]
  exact List.append_ne_nil_of_right_ne_nil _ (List.cons_ne_nil _ _)

/-- On the way there are directories, and then there is nothing. -/
theorem directory_or_missing (hbefore : ∀ s ∈ before, validName s = true)
    (hstop : t.StopsAt (Path.ofSegments before) rest) {front : List String}
    (hfront : front <+: before ++ rest) :
    (∃ d, t.lookup? (Path.ofSegments front) = some d ∧ d.isDirectory = true) ∨
      t.lookup? (Path.ofSegments front) = none := by
  rcases List.prefix_or_prefix_of_prefix hfront (List.prefix_append before rest) with
    hbetween | ⟨beyond, rfl⟩
  · exact Or.inl (h.directory_before hbefore hstop hbetween)
  · by_cases hne : beyond = []
    · exact Or.inl (h.directory_before hbefore hstop (by simp [hne]))
    · exact Or.inr (h.lookup?_after hbefore hstop hne ((List.prefix_append_right_inj before).1 hfront))

/-- What is missing on the way is what comes after the place where it stops. -/
theorem missing_eq (hbefore : ∀ s ∈ before, validName s = true)
    (hstop : t.StopsAt (Path.ofSegments before) rest) :
    ((before ++ rest).inits.map Path.ofSegments).filter (fun p => (t.lookup? p).isNone) =
      rest.inits.tail.map (·.foldl Path.join (Path.ofSegments before)) := by
  have hfirst : (before.inits.map Path.ofSegments).filter (fun p => (t.lookup? p).isNone) = [] := by
    refine List.filter_eq_nil_iff.2 fun p hp => ?_
    obtain ⟨front, hfront, rfl⟩ := List.mem_map.1 hp
    obtain ⟨d, hd, -⟩ := h.directory_before hbefore hstop ((List.mem_inits _ _).1 hfront)
    simp [hd]
  have htail : ∀ front ∈ rest.inits.tail, front ≠ [] ∧ front <+: rest := by
    intro front hfront
    refine ⟨?_, (List.mem_inits _ _).1 (List.mem_of_mem_tail hfront)⟩
    cases rest with
    | nil => simp at hfront
    | cons name rest =>
      rw [List.inits_cons, List.tail_cons] at hfront
      obtain ⟨_, -, rfl⟩ := List.mem_map.1 hfront
      exact List.cons_ne_nil _ _
  rw [List.inits_append, List.map_append, List.filter_append, hfirst, List.nil_append, List.map_map,
    List.filter_eq_self.2]
  · refine List.map_congr_left fun front hfront => (Path.foldl_join hbefore fun s hs => ?_).symm
    exact hstop.names s ((htail front hfront).2.subset hs)
  · intro p hp
    obtain ⟨front, hfront, rfl⟩ := List.mem_map.1 hp
    rw [Function.comp_apply, h.lookup?_after hbefore hstop (htail front hfront).1
      (htail front hfront).2]
    rfl

end Consistent

/-! ## Creating a path -/

namespace Consistent

variable (h : t.Consistent)
include h

/-- The names on the way to typed input can stand in a path. -/
theorem validName_of_mem_resolve (path : String) :
    ∀ s ∈ (Path.segments (t.resolve path)).filter (· ≠ ""), validName s = true := by
  obtain ⟨names, hnames, hpath⟩ := h.normal_resolve path
  rwa [hpath, Path.filter_segments hnames]

/-- A path all of which is there needs no creation. -/
theorem createPath_of_directories {path : String}
    (hdirs : ∀ front, front <+: (Path.segments (t.resolve path)).filter (· ≠ "") →
      ∃ n, t.lookup? (Path.ofSegments front) = some n ∧ n.isDirectory = true) :
    t.createPath s path = .ok t := by
  rcases h.createPath_spec s path with
    ⟨before, rest, t', hsplit, hstop, ht', hrun, -⟩ | ⟨before, n, hbefore, hn, hfile, -⟩
  · cases rest with
    | nil =>
      rw [ht']
      exact hrun.symm
    | cons name rest =>
      -- the first name that is missing leads to a directory after all
      have hvalid := h.validName_of_mem_resolve path
      rw [hsplit] at hdirs hvalid
      obtain ⟨n, hn, -⟩ := hdirs (before ++ [name])
        ((List.prefix_append_right_inj before).2 (by simp))
      rw [h.lookup?_after (fun s hs => hvalid s (List.mem_append_left _ hs)) hstop (by simp)
        (by simp)] at hn
      cases hn
  · obtain ⟨m, hm, hdir⟩ := hdirs before hbefore
    rw [hn, Option.some.injEq] at hm
    exact absurd (hm ▸ hdir) (Node.not_isDirectory_of_isFile hfile)

end Consistent

/-- Creating a path fails just when a file stands on the way, and then leaves the tree as it was.
Otherwise the directories that were missing are added, and to do it again changes nothing. -/
theorem completed_of_createPath (h : t.Consistent) (s : Supply) (path : String) :
    let names := (Path.segments (t.resolve path)).filter (· ≠ "")
    ((∃ e, t.createPath s path = .error e) ↔ ∃ front n, front <+: names ∧
      t.lookup? (Path.ofSegments front) = some n ∧ n.isFile = true) ∧
    (∀ e, t.createPath s path = .error e → (Work.createPath s path).run t = .error e t) ∧
    ∀ t', t.createPath s path = .ok t' →
      (∀ front, front <+: names →
        ∃ n, t'.lookup? (Path.ofSegments front) = some n ∧ n.isDirectory = true) ∧
      (∃ d rest added, t.node? d.id = some d ∧ d.isDirectory = true ∧
        t.Completed s.clock 0 d rest added t' ∧ added.map Node.path =
          (names.inits.map Path.ofSegments).filter fun p => (t.lookup? p).isNone) ∧
      ∀ s', t'.createPath s' path = .ok t' := by
  intro names
  have hvalid : ∀ s ∈ names, validName s = true := h.validName_of_mem_resolve path
  have hunchanged : ∀ e, t.createPath s path = .error e →
      (Work.createPath s path).run t = .error e t := by
    intro e he
    rw [Work.run_createPath h, he, settle]
  rcases h.createPath_spec s path with
    ⟨before, rest, t₁, hsplit, hstop, ht₁, hrun, hcons⟩ | ⟨front, n, hfront, hn, hfile, herr⟩
  · change names = before ++ rest at hsplit
    have hbefore : ∀ s ∈ before, validName s = true :=
      fun s hs => hvalid s (hsplit ▸ List.mem_append_left _ hs)
    have hway : ∀ front, front <+: names →
        (∃ d, t.lookup? (Path.ofSegments front) = some d ∧ d.isDirectory = true) ∨
          t.lookup? (Path.ofSegments front) = none :=
      fun front hfront => h.directory_or_missing hbefore hstop (hsplit ▸ hfront)
    refine ⟨iff_of_false ?_ ?_, hunchanged, fun t' ht' => ?_⟩
    · rintro ⟨e, he⟩
      rw [ht₁] at he
      cases he
    · rintro ⟨front, n, hfront, hn, hfile⟩
      rcases hway front hfront with ⟨d, hd, hdir⟩ | hnone
      · rw [hn, Option.some.injEq] at hd
        exact Node.not_isDirectory_of_isFile hfile (hd ▸ hdir)
      · rw [hn] at hnone
        cases hnone
    · rw [ht₁, Except.ok.injEq] at ht'
      subst ht'
      obtain ⟨d, hd, hdir⟩ := hstop.directory
      obtain ⟨hnode, hdpath⟩ := h.lookup?_eq_some.1 hd
      obtain ⟨added, hadded⟩ := h.completed_of_stopsAt hstop hd hrun
      have hmissing : added.map Node.path =
          (names.inits.map Path.ofSegments).filter fun p => (t.lookup? p).isNone := by
        rw [hadded.chained.paths, hdpath, ← h.missing_eq hbefore hstop, ← hsplit]
      have hdirs : ∀ front, front <+: names →
          ∃ n, t₁.lookup? (Path.ofSegments front) = some n ∧ n.isDirectory = true := by
        intro front hfront
        refine hadded.directory_of_path h hcons ((hway front hfront).imp_right fun hnone => ?_)
        rw [hmissing, List.mem_filter, hnone]
        exact ⟨List.mem_map.2 ⟨front, (List.mem_inits _ _).2 hfront, rfl⟩, rfl⟩
      refine ⟨hdirs, ⟨d, rest, added, hnode, hdir, hadded, hmissing⟩, fun s' => ?_⟩
      refine hcons.createPath_of_directories ?_
      rwa [hadded.resolve_eq h]
  · refine ⟨iff_of_true ⟨_, herr⟩ ⟨front, n, hfront, hn, hfile⟩, hunchanged, fun t' ht' => ?_⟩
    rw [herr] at ht'
    cases ht'

/-- In the starter layout two directories are missing on the way to `/tmp/a/b`. -/
theorem completed_of_createPath_in_tmp :
    let s : Supply := ⟨.still ⟨0, 0⟩, .counting⟩
    let t := seed s
    t.Consistent ∧ ∃ t' d rest added, t.createPath s "/tmp/a/b" = .ok t' ∧
      t.Completed s.clock 0 d rest added t' ∧ added.map Node.path = ["/tmp/a", "/tmp/a/b"] ∧
      t'.createPath s "/tmp/a/b" = .ok t' := by
  intro s t
  have h : t.Consistent := consistent_seed _
  have hnames : (Path.segments (t.resolve "/tmp/a/b")).filter (· ≠ "") = ["tmp", "a", "b"] := by
    decide
  have hmissing : ((["tmp", "a", "b"].inits.map Path.ofSegments).filter
      fun p => (t.lookup? p).isNone) = ["/tmp/a", "/tmp/a/b"] := by
    decide
  have hok : (t.createPath s "/tmp/a/b").toBool = true := by decide
  cases ht' : t.createPath s "/tmp/a/b" with
  | error e =>
    rw [ht'] at hok
    cases hok
  | ok t' =>
    obtain ⟨-, ⟨d, rest, added, -, -, hadded, hpaths⟩, hagain⟩ :=
      (completed_of_createPath h s "/tmp/a/b").2.2 t' ht'
    rw [hnames, hmissing] at hpaths
    exact ⟨h, t', d, rest, added, rfl, hadded, hpaths, hagain s⟩

/-- Not all new directories are empty: on the way to `/tmp/a/b` the first holds the second. -/
theorem not_empty_of_createPath :
    ¬ ∀ (t : FileTree) (s : Supply) (path : String) (t' : FileTree), t.Consistent →
      t.createPath s path = .ok t' → ∀ id n, t.node? id = none → t'.node? id = some n →
        n.children = [] := by
  intro hall
  let s : Supply := ⟨.still ⟨0, 0⟩, .counting⟩
  have hnested : (((seed s).createPath s "/tmp/a/b").toOption.bind fun t' =>
      (t'.lookup? "/tmp/a").map fun n =>
        (((seed s).node? n.id).isNone, t'.node? n.id == some n, n.children.isEmpty)) =
      some (true, true, false) := by
    decide
  cases ht' : (seed s).createPath s "/tmp/a/b" with
  | error e =>
    rw [ht'] at hnested
    cases hnested
  | ok t' =>
    rw [ht'] at hnested
    obtain ⟨n, hn, hfacts⟩ := Option.map_eq_some_iff.1 hnested
    simp only [Prod.mk.injEq, Option.isNone_iff_eq_none, beq_iff_eq] at hfacts
    have hempty := hall (seed s) s "/tmp/a/b" t' (consistent_seed s) ht' n.id n hfacts.1 hfacts.2.1
    rw [hempty] at hfacts
    cases hfacts.2.2

end FileTree

end VirtualShell
