import VirtualShell.Proofs.Tree.Effects
import VirtualShell.Proofs.Tree.Starter
import VirtualShell.Tree.Fresh

/-!
# Placing a node at a path

To create a node at a path, the path is split into its directory and its last name, and the directory
is read as typed input again. This loses nothing: the node is created if nothing has the path and its
directory is one (`Consistent.createEntry_eq_ok_iff`), and afterwards the input that was resolved to
the path finds it (`created_at_path`). The new node comes after all others, also among the children of
its directory (`Created`); a text that is replaced changes one node in its place (`Rewritten`).
-/

namespace VirtualShell

open Calendar

namespace FileTree

variable {t t' : FileTree} {s : Supply} {now : Instant}

/-! ## What stays as it is read -/

/-- What is typed is read as before when nothing went, nothing was moved and the current directory is
the same. -/
theorem Within.resolve_eq {kinds : List Change.Kind} (hw : Within kinds t t') (h : t.Consistent)
    (hgo : .go ∉ kinds) (hremove : .remove ∉ kinds) (hrelocate : .relocate ∉ kinds)
    (path : String) : t'.resolve path = t.resolve path := by
  obtain ⟨c, hc, -⟩ := h.cwd_ok
  obtain ⟨c', hc'⟩ := Option.isSome_iff_exists.1 (hw.stays hremove t.cwd (by rw [hc]; rfl))
  exact resolve_congr (hw.cwd_eq hgo hremove) hc hc' (hw.path_eq hrelocate _ _ _ hc hc') path

/-- What typed input finds is found as before when nothing went, was moved or was written. -/
theorem Within.exists_find? {kinds : List Change.Kind} (hw : Within kinds t t') (h : t.Consistent)
    (h' : t'.Consistent) (hgo : .go ∉ kinds) (hremove : .remove ∉ kinds)
    (hrelocate : .relocate ∉ kinds) (hwrite : .write ∉ kinds) {input : String} {n : Node}
    (hn : t.find? input = some n) :
    ∃ m, t'.find? input = some m ∧ m.isDirectory = n.isDirectory := by
  obtain ⟨hnode, hpath⟩ := h.lookup?_eq_some.1 hn
  obtain ⟨m, hm⟩ := Option.isSome_iff_exists.1 (hw.stays hremove n.id (by rw [hnode]; rfl))
  have hmpath := hw.path_eq hrelocate _ _ _ hnode hm
  have htext := hw.text?_eq hwrite _ _ _ hnode hm
  have hid := h'.key_eq_id _ _ hm
  refine ⟨m, ?_, by rw [Node.isDirectory_eq, htext, ← Node.isDirectory_eq]⟩
  rw [find?, hw.resolve_eq h hgo hremove hrelocate, h'.lookup?_eq_some]
  exact ⟨hid ▸ hm, hmpath.trans hpath⟩

/-! ## New nodes -/

/-- A tree before and after the node `n` was created at a path, in the directory `d`. -/
structure Created (t : FileTree) (now : Instant) (path : String) (d : Node) (content : Content)
    (n : Node) (t' : FileTree) : Prop where
  node_eq : n = { id := n.id, name := Path.basename path, path, parent := some d.id, content,
                  metadata := .forContent content now, readOnly := false }
  root_eq : t'.root = t.root
  cwd_eq : t'.cwd = t.cwd
  /-- The other nodes are as they were and in their order, but for the list of the directory. -/
  entries_eq : t'.nodes.entries =
    (t.nodes.entries.map fun e => (e.1,
      if e.1 = d.id then { e.2 with content := .directory (d.children ++ [n.id]) } else e.2)) ++
    [(n.id, n)]

/-- A creation at the path of typed input succeeds if nothing has the path and its directory is one,
and then the input finds the new node. -/
def CreatesAt (t : FileTree) (now : Instant) (input : String) (content : Content)
    (result : Except TreeError (FileTree × Node)) : Prop :=
  let path := t.resolve input
  ((∃ r, result = .ok r) ↔
    t.find? path = none ∧ ∃ d, t.find? (Path.dirname path) = some d ∧ d.isDirectory = true) ∧
  ∀ t' n, result = .ok (t', n) → t'.find? input = some n ∧
    ∃ d, t.find? (Path.dirname path) = some d ∧ t.Created now path d content n t'

namespace Consistent

variable (h : t.Consistent)
include h

/-- The root is no new node: a path at which there is nothing can be split. -/
theorem join_dirname_basename {path : String} (hpath : Path.Normal path)
    (hfree : t.lookup? path = none) : validName (Path.basename path) = true ∧
      Path.join (Path.dirname path) (Path.basename path) = path := by
  refine hpath.join_dirname_basename ?_
  rintro rfl
  obtain ⟨root, hroot, -⟩ := h.lookup?_root
  rw [hroot] at hfree
  cases hfree

theorem createEntry_eq_ok_iff {path : String} (hpath : Path.Normal path) (content : Content) :
    (∃ r, t.createEntry s (Path.basename path) (Path.dirname path) content = .ok r) ↔
      t.lookup? path = none ∧
        ∃ d, t.lookup? (Path.dirname path) = some d ∧ d.isDirectory = true := by
  have hdirname : t.resolve (Path.dirname path) = Path.dirname path :=
    Path.resolve_of_normal (Path.normal_dirname path)
  constructor
  · rintro ⟨r, hr⟩
    obtain ⟨d, hname, hd, hdir, hfree, -⟩ := createEntry_eq_ok hr
    have hroot : path ≠ "/" := by
      rintro rfl
      exact absurd hname (by decide)
    rw [hdirname] at hd hfree
    rw [(hpath.join_dirname_basename hroot).2] at hfree
    exact ⟨hfree, d, hd, hdir⟩
  · rintro ⟨hfree, d, hd, hdir⟩
    obtain ⟨hname, hjoin⟩ := h.join_dirname_basename hpath hfree
    refine ⟨t.attach s d.id (Path.dirname path) (Path.basename path) content false, ?_⟩
    simp [FileTree.createEntry, hdirname, hname, hjoin, hfree, hd, hdir]

theorem created_of_createEntry {path : String} (hpath : Path.Normal path) {content : Content}
    {r : FileTree × Node}
    (hr : t.createEntry s (Path.basename path) (Path.dirname path) content = .ok r) :
    ∃ d, t.lookup? (Path.dirname path) = some d ∧ t.Created s.now path d content r.2 r.1 := by
  have hfree := ((h.createEntry_eq_ok_iff hpath content).1 ⟨r, hr⟩).1
  obtain ⟨-, hjoin⟩ := h.join_dirname_basename hpath hfree
  obtain ⟨d, -, hd, hdir, -, rfl⟩ := createEntry_eq_ok hr
  rw [show t.resolve (Path.dirname path) = Path.dirname path from
    Path.resolve_of_normal (Path.normal_dirname path)] at hd ⊢
  refine ⟨d, hd, ?node, rfl, rfl, ?entries⟩
  case node =>
    rw [attach, hjoin]
  case entries =>
    have hdnode := (h.lookup?_eq_some.1 hd).1
    rw [entries_attach]
    refine congrArg (· ++ _) (List.map_congr_left fun e he => ?_)
    by_cases heq : e.1 = d.id
    · have hnode := OrderedMap.mem_entries_iff.1 (show (e.1, e.2) ∈ t.nodes.entries from he)
      rw [heq, ← node?, hdnode, Option.some.injEq] at hnode
      rw [heq, if_pos rfl, Node.relist_self, ← hnode, Node.mapChildren_of_isDirectory hdir]
      rfl
    · rw [if_neg heq, Node.relist_of_ne heq]

theorem createsAt_createEntry (s : Supply) (input : String) {content : Content}
    (hempty : content = .directory [] ∨ ∃ text, content = .file text) :
    t.CreatesAt s.now input content (t.createEntry s (Path.basename (t.resolve input))
      (Path.dirname (t.resolve input)) content) := by
  have hpath := h.normal_resolve input
  rw [CreatesAt, find?_of_normal hpath, find?_of_normal (Path.normal_dirname _)]
  refine ⟨h.createEntry_eq_ok_iff hpath content, fun t' n hr => ?_⟩
  obtain ⟨d, hd, hcreated⟩ := h.created_of_createEntry hpath hr
  refine ⟨?_, d, hd, hcreated⟩
  have hresolve := (Change.within_createEntry hr).resolve_eq h (by decide) (by decide) (by decide)
  have hnode : t'.node? n.id = some n := by
    refine OrderedMap.mem_entries_iff.1 ?_
    rw [hcreated.entries_eq]
    exact List.mem_append_right _ List.mem_cons_self
  rw [find?, hresolve, (h.createEntry hempty hr).lookup?_eq_some]
  exact ⟨hnode, congrArg Node.path hcreated.node_eq⟩

end Consistent

/-- A file or a directory is created at the path of typed input by creating its last name in its
directory. -/
theorem created_at_path (h : t.Consistent) (s : Supply) (input : String) :
    let name := Path.basename (t.resolve input)
    let dir := Path.dirname (t.resolve input)
    (∀ text, t.CreatesAt s.now input (.file text) (t.createFile s name dir text)) ∧
      t.CreatesAt s.now input (.directory []) (t.createDirectory s name dir) :=
  ⟨fun text => h.createsAt_createEntry s input (Or.inr ⟨text, rfl⟩),
    h.createsAt_createEntry s input (Or.inl rfl)⟩

/-- From the home directory the input leads up to the root and down again. -/
theorem created_at_path_in_tmp :
    let s : Supply := ⟨.still ⟨0, 0⟩, .counting⟩
    let t := seed s
    let input := "../..//tmp/./notes/"
    t.Consistent ∧ ∃ t' n d, t.createFile s "notes" "/tmp" "text" = .ok (t', n) ∧
      t'.find? input = some n ∧ t.find? "/tmp" = some d ∧
      t.Created s.now "/tmp/notes" d (.file "text") n t' := by
  intro s t input
  have h : t.Consistent := consistent_seed _
  have hpath : t.resolve input = "/tmp/notes" := by decide
  have hname : Path.basename "/tmp/notes" = "notes" := by decide
  have hdir : Path.dirname "/tmp/notes" = "/tmp" := by decide
  have hfree : t.find? "/tmp/notes" = none := by decide
  have htmp : (t.find? "/tmp").map Node.isDirectory = some true := by decide
  obtain ⟨hok, hcreates⟩ := (created_at_path h s input).1 "text"
  rw [hpath, hname, hdir] at hok hcreates
  obtain ⟨⟨t', n⟩, hr⟩ := hok.2 ⟨hfree, Option.map_eq_some_iff.1 htmp⟩
  obtain ⟨hfound, d, hd, hcreated⟩ := hcreates t' n hr
  exact ⟨h, t', n, d, hr, hfound, hd, hcreated⟩

/-! ## Texts in place of others -/

/-- A tree before and after the text of the file `n` was replaced. -/
structure Rewritten (t : FileTree) (now : Instant) (n : Node) (text : String) (t' : FileTree) :
    Prop where
  root_eq : t'.root = t.root
  cwd_eq : t'.cwd = t.cwd
  /-- The other nodes are as they were, and all are in their order. -/
  entries_eq : t'.nodes.entries = t.nodes.entries.map fun e => (e.1,
    if e.1 = n.id then { e.2 with
      content := .file text,
      metadata := { e.2.metadata with size := text.utf8ByteSize, modified := now } } else e.2)

/-- A text was put where typed input leads: in place of the text of the file there, or in a new file. -/
inductive Placed (t : FileTree) (now : Instant) (input text : String) (t' : FileTree) : Prop
  | rewritten (n : Node) (hn : t.find? input = some n) (hfile : n.isFile = true)
    (htree : t.Rewritten now n text t')
  | created (d n : Node) (hfree : t.find? input = none)
    (hd : t.find? (Path.dirname (t.resolve input)) = some d)
    (htree : t.Created now (t.resolve input) d (.file text) n t')

theorem read_of_find? {path text : String} {n : Node} (hn : t.find? path = some n)
    (htext : n.content = .file text) : t.read path = .ok text := by
  simp only [read, hn, htext]

namespace Consistent

variable (h : t.Consistent)
include h

/-- A text that was written at the path of typed input is read there. -/
theorem placed_of_write {input text : String} (hc : t.write s (t.resolve input) text = .ok t') :
    t'.read input = .ok text ∧ t.Placed s.now input text t' := by
  have hwithin : Within [.write] t t' :=
    Change.within_of_run (c := .write (t.resolve input) text) hc
  have hresolve := hwithin.resolve_eq h (by decide) (by decide) (by decide)
  have h' := h.write hc
  obtain ⟨n, hn, hfile, -, rfl⟩ := write_eq_ok hc
  rw [h.resolve_resolve] at hn
  obtain ⟨hnode, hpath⟩ := h.lookup?_eq_some.1 hn
  refine ⟨?_, .rewritten n hn hfile ⟨rfl, rfl, rfl⟩⟩
  refine read_of_find? (n := { n with
    content := .file text,
    metadata := { n.metadata with size := text.utf8ByteSize, modified := s.now } }) ?_ rfl
  rw [find?, hresolve, h'.lookup?_eq_some, node?_modifyNode, if_pos rfl, hnode]
  exact ⟨rfl, hpath⟩

/-- A text in a file that was created at the path of typed input is read there. -/
theorem placed_of_createFile {input text : String} {r : FileTree × Node}
    (hc : t.createFile s (Path.basename (t.resolve input)) (Path.dirname (t.resolve input)) text =
      .ok r) : r.1.read input = .ok text ∧ t.Placed s.now input text r.1 := by
  obtain ⟨hiff, hcreates⟩ := h.createsAt_createEntry s input (Or.inr ⟨text, rfl⟩)
  have hfree := (hiff.1 ⟨r, hc⟩).1
  rw [h.find?_resolve] at hfree
  obtain ⟨hfound, d, hd, hcreated⟩ := hcreates r.1 r.2 hc
  exact ⟨read_of_find? hfound (congrArg Node.content hcreated.node_eq),
    .created d r.2 hfree hd hcreated⟩

end Consistent

end FileTree

end VirtualShell
