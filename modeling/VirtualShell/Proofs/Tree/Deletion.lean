import VirtualShell.Proofs.Tree.Mutation
import VirtualShell.Proofs.Tree.Region
import VirtualShell.Proofs.Tree.Starter
import VirtualShell.Tree.Fresh

/-!
# Removing a subtree

`delete` collects what it removes along the lists of children. Told by paths, it removes the nodes
whose paths extend the path that is given (`Consistent.subtree_perm`), each once, and it is refused
if one of them is read-only. All other nodes stay in their order; only the directory that held the
removed node has one child less, and it becomes the current directory if that one is gone
(`removed_of_delete`).
-/

namespace VirtualShell

namespace FileTree

variable {t t' : FileTree}

/-- What is left when the child `top` of the directory `d` is gone with all beneath it. -/
structure Removed (t : FileTree) (top d : Node) (t' : FileTree) : Prop where
  /-- The other nodes are as they were and in their order, but for the list of the directory. -/
  entries_eq : t'.nodes.entries =
    (t.nodes.entries.filter fun e => ¬ Path.Extends e.2.path top.path).map fun e => (e.1,
      if e.1 = d.id then { e.2 with content := .directory (d.children.erase top.id) } else e.2)
  listed_once : d.children.count top.id = 1
  root_eq : t'.root = t.root
  cwd_eq : t'.cwd = if t.cwd ∈ t'.ids then t.cwd else d.id

theorem entries_detach (t : FileTree) (parent id : NodeId) : (t.detach parent id).nodes.entries =
    (t.nodes.entries.filter fun e => !(t.subtree id).contains e.1).map
      fun e => (e.1, Node.relist parent (·.filter (· ≠ id)) e.1 e.2) := rfl

theorem mem_ids_detach {parent id x : NodeId} :
    x ∈ (t.detach parent id).ids ↔ x ∉ t.subtree id ∧ x ∈ t.ids := by
  rw [mem_ids, mem_ids]
  constructor
  · rintro ⟨m, hm⟩
    obtain ⟨hx, n, hn, -⟩ := node_of_detach hm
    exact ⟨hx, n, hn⟩
  · rintro ⟨hx, n, hn⟩
    exact ⟨_, node?_detach_of_not_mem hn hx⟩

namespace Consistent

variable (h : t.Consistent)
include h

/-! ## The nodes that go -/

/-- The ids of a subtree are those of the nodes whose paths extend the path of its top. -/
theorem subtree_perm {id : NodeId} {top : Node} (hn : t.node? id = some top) (hne : id ≠ t.root) :
    (t.subtree id).Perm
      ((t.nodes.entries.filter fun e => Path.Extends e.2.path top.path).map Prod.fst) := by
  have hnodup : ((t.nodes.entries.filter fun e => Path.Extends e.2.path top.path).map
      Prod.fst).Nodup := (List.filter_sublist.map Prod.fst).nodup t.nodes.nodup_keys
  refine (List.perm_ext_iff_of_nodup (nodup_subtree h hn) hnodup).2 fun x => ?_
  simp only [List.mem_map, List.mem_filter, mem_entries, decide_eq_true_eq]
  constructor
  · intro hx
    obtain ⟨m, hm⟩ := h.node_of_reaches ((mem_subtree h hn).1 hx) hn
    exact ⟨(x, m), ⟨hm, (h.mem_subtree_iff_extends hn hne hm).1 hx⟩, rfl⟩
  · rintro ⟨e, ⟨he, hext⟩, rfl⟩
    exact (h.mem_subtree_iff_extends hn hne he).2 hext

theorem length_subtree {id : NodeId} {top : Node} (hn : t.node? id = some top)
    (hne : id ≠ t.root) :
    (t.subtree id).length = t.allNodes.countP fun m => Path.Extends m.path top.path := by
  rw [(h.subtree_perm hn hne).length_eq, List.length_map, allNodes, OrderedMap.values,
    List.countP_map, List.countP_eq_length_filter]
  rfl

/-- No node of a subtree is read-only if no node is whose path extends the path of its top. -/
theorem find?_readOnly_eq_none_iff {id : NodeId} {top : Node} (hn : t.node? id = some top)
    (hne : id ≠ t.root) : ((t.subtree id).filterMap t.node?).find? (·.readOnly) = none ↔
      ∀ m ∈ t.allNodes, Path.Extends m.path top.path → m.readOnly = false := by
  simp only [List.find?_eq_none, List.mem_filterMap, mem_allNodes, Bool.not_eq_true]
  constructor
  · rintro hfree m ⟨x, hm⟩ hext
    exact hfree m ⟨x, (h.mem_subtree_iff_extends hn hne hm).2 hext, hm⟩
  · rintro hfree m ⟨x, hx, hm⟩
    exact hfree m ⟨x, hm⟩ ((h.mem_subtree_iff_extends hn hne hm).1 hx)

/-! ## What is left -/

theorem removed_detach {top d : Node} (hn : t.node? top.id = some top)
    (hd : t.node? d.id = some d) (hp : top.parent = some d.id) :
    t.Removed top d (t.detach d.id top.id) := by
  have hne := h.root_ne_of_parent hn hp
  obtain ⟨d', hd', hdir, hmem, -⟩ := h.parent_spec hn hp
  rw [hd, Option.some.injEq] at hd'
  subst hd'
  have hnodup := h.children_nodup _ _ hd
  refine ⟨?entries, List.count_eq_one_of_mem hnodup hmem, rfl, ?cwd⟩
  case entries =>
    have hkept : ∀ e ∈ t.nodes.entries, (!(t.subtree top.id).contains e.1) =
        decide (¬ Path.Extends e.2.path top.path) := by
      intro e he
      have hin := h.mem_subtree_iff_extends hn hne (mem_entries.1 he)
      simp [← hin]
    rw [entries_detach, List.filter_congr hkept]
    refine List.map_congr_left fun e he => ?_
    have hnode := mem_entries.1 (List.mem_of_mem_filter he)
    by_cases heq : e.1 = d.id
    · rw [heq, hd, Option.some.injEq] at hnode
      rw [heq, Node.relist_self, if_pos rfl, ← hnode, Node.mapChildren_of_isDirectory hdir,
        hnodup.erase_eq_filter]
      simp [bne, beq_eq_decide]
    · rw [Node.relist_of_ne heq, if_neg heq]
  case cwd =>
    obtain ⟨c, hc, -⟩ := h.cwd_ok
    by_cases hcwd : t.cwd ∈ t.subtree top.id
    · have hgone : t.cwd ∉ (t.detach d.id top.id).ids := by simp [mem_ids_detach, hcwd]
      rw [if_neg hgone]
      simp [detach, hcwd]
    · have hstays : t.cwd ∈ (t.detach d.id top.id).ids :=
        mem_ids_detach.2 ⟨hcwd, mem_ids.2 ⟨c, hc⟩⟩
      rw [if_pos hstays]
      simp [detach, hcwd]

theorem delete_eq_ok_iff {path : String} : (∃ r, t.delete path = .ok r) ↔
    ∃ top, t.lookup? (t.resolve path) = some top ∧ top.id ≠ t.root ∧
      ∀ m ∈ t.allNodes, Path.Extends m.path (t.resolve path) → m.readOnly = false := by
  constructor
  · rintro ⟨r, hr⟩
    obtain ⟨top, parent, htop, hp, hfree, -⟩ := delete_eq_ok hr
    obtain ⟨hn, hpath⟩ := h.lookup?_eq_some.1 htop
    have hne := h.root_ne_of_parent hn hp
    refine ⟨top, htop, hne, fun m hm hext => ?_⟩
    obtain ⟨x, hx⟩ := mem_allNodes.1 hm
    exact hfree x ((h.mem_subtree_iff_extends hn hne hx).2 (hpath ▸ hext)) m hx
  · rintro ⟨top, htop, hne, hfree⟩
    obtain ⟨hn, hpath⟩ := h.lookup?_eq_some.1 htop
    obtain ⟨parent, hp⟩ := h.parent_of_ne_root hn hne
    rw [← hpath] at hfree
    have hnone := (h.find?_readOnly_eq_none_iff hn hne).2 hfree
    refine ⟨(t.detach parent top.id, (t.subtree top.id).length), ?_⟩
    simp only [FileTree.delete, find?, htop, hp, hnone]

end Consistent

/-- A removal succeeds if the path is that of a node below the root and no read-only node has a path
that extends it. Then the nodes with such paths are gone and counted. -/
theorem removed_of_delete (h : t.Consistent) (path : String) :
    ((∃ r, t.delete path = .ok r) ↔ ∃ top, t.lookup? (t.resolve path) = some top ∧
      top.id ≠ t.root ∧
      ∀ m ∈ t.allNodes, Path.Extends m.path (t.resolve path) → m.readOnly = false) ∧
    ∀ t' count, t.delete path = .ok (t', count) →
      (∃ top d, t.lookup? (t.resolve path) = some top ∧ t.node? d.id = some d ∧
        top.parent = some d.id ∧ t.Removed top d t') ∧
      count = t.allNodes.countP fun m => Path.Extends m.path (t.resolve path) := by
  refine ⟨h.delete_eq_ok_iff, fun t' count hr => ?_⟩
  obtain ⟨top, parent, htop, hp, -, hresult⟩ := delete_eq_ok hr
  obtain ⟨rfl, rfl⟩ := Prod.mk.inj hresult
  obtain ⟨hn, hpath⟩ := h.lookup?_eq_some.1 htop
  obtain ⟨d, hd, -⟩ := h.parent_spec hn hp
  have hid := h.key_eq_id _ _ hd
  subst hid
  refine ⟨⟨top, d, htop, hd, hp, h.removed_detach hn hd hp⟩, ?_⟩
  rw [h.length_subtree hn (h.root_ne_of_parent hn hp), hpath]

/-- In the starter layout the directory above the current one goes with the current one. -/
theorem removed_of_delete_above_cwd :
    let t := seed ⟨.still ⟨0, 0⟩, .counting⟩
    t.Consistent ∧ ∃ t' top d, t.delete ".." = .ok (t', 4) ∧ t.lookup? "/home" = some top ∧
      t.Removed top d t' ∧ t'.cwd = t.root := by
  intro t
  have h : t.Consistent := consistent_seed _
  have hpath : t.resolve ".." = "/home" := by decide
  have hcwd : (t.delete "..").toOption.map (fun r => (r.1.cwd, r.2)) = some (t.root, 4) := by decide
  cases hr : t.delete ".." with
  | error e =>
    rw [hr] at hcwd
    cases hcwd
  | ok r =>
    rw [hr] at hcwd
    obtain ⟨hroot, hcount⟩ := Prod.mk.inj (Option.some.inj hcwd)
    obtain ⟨top, d, htop, -, -, hremoved⟩ := ((removed_of_delete h "..").2 r.1 r.2 hr).1
    refine ⟨h, r.1, top, d, by rw [← hcount], hpath ▸ htop, hremoved, hroot⟩

end FileTree

end VirtualShell
