import VirtualShell.Proofs.Path.Normal
import VirtualShell.Tree.Consistent

/-!
# Parents, children and paths of a consistent tree

What the fields of `FileTree.Consistent` say together. A node below the root is listed by its
parent, whose path is shorter (`Consistent.length_lt`), so that every walk along parents ends at
the root; this is why reachability need not be checked when the other fields hold
(`Reaches.of_parents`). Paths are absolute and tell nodes apart (`Consistent.path_inj`), and what
is reached from a node lies within its path (`Consistent.within_of_reaches`).
-/

namespace VirtualShell

namespace Node

theorem isDirectory_of_mem_children {n : Node} {c : NodeId} (h : c ∈ n.children) :
    n.isDirectory = true := by
  cases hc : n.content with
  | file text => simp [children, hc] at h
  | directory children => simp [isDirectory, hc]

end Node

namespace FileTree

variable {t : FileTree}

/-! ## Reading nodes -/

theorem mem_allNodes {n : Node} : n ∈ t.allNodes ↔ ∃ id, t.node? id = some n :=
  OrderedMap.mem_values_iff

theorem mem_ids {id : NodeId} : id ∈ t.ids ↔ ∃ n, t.node? id = some n :=
  OrderedMap.mem_keys_iff

theorem lookup?_eq_none {path : String} :
    t.lookup? path = none ↔ ∀ id n, t.node? id = some n → n.path ≠ path := by
  simp only [lookup?, List.find?_eq_none, mem_allNodes, decide_eq_true_eq, ne_eq]
  constructor
  · intro h id n hn
    exact h n ⟨id, hn⟩
  · rintro h n ⟨id, hn⟩
    exact h id n hn

theorem node_of_lookup?_eq_some {path : String} {n : Node} (h : t.lookup? path = some n) :
    (∃ id, t.node? id = some n) ∧ n.path = path :=
  ⟨mem_allNodes.1 (List.mem_of_find?_eq_some h), by simpa using List.find?_some h⟩

/-- A path in normal form finds the node that has it. -/
theorem find?_of_normal {path : String} (hpath : Path.Normal path) :
    t.find? path = t.lookup? path := by
  rw [find?, resolve, Path.resolve_of_normal hpath]

/-- What is typed is read alike where the current directory is the same node at the same path. -/
theorem resolve_congr {t' : FileTree} {c c' : Node} (hcwd : t'.cwd = t.cwd)
    (hc : t.node? t.cwd = some c) (hc' : t'.node? t.cwd = some c') (hpath : c'.path = c.path)
    (input : String) : t'.resolve input = t.resolve input := by
  have hdir : t'.currentDirectory = t.currentDirectory := by
    rw [currentDirectory, currentDirectory, hcwd, hc, hc']
    exact hpath
  rw [resolve, resolve, hdir]

/-! ## Walking -/

namespace Reaches

theorem trans {a b c : NodeId} (hab : t.Reaches a b) (hbc : t.Reaches b c) : t.Reaches a c := by
  induction hbc with
  | refl => exact hab
  | step _ hn hc ih => exact step ih hn hc

theorem of_child {a b : NodeId} {n : Node} (hn : t.node? a = some n) (hb : b ∈ n.children) :
    t.Reaches a b := step (refl a) hn hb

/-- A walk of at least one step begins with a step to a child. -/
theorem cases_head {a b : NodeId} (h : t.Reaches a b) :
    a = b ∨ ∃ n c, t.node? a = some n ∧ c ∈ n.children ∧ t.Reaches c b := by
  induction h with
  | refl => exact Or.inl rfl
  | @step b c n _ hn hc ih =>
    rcases ih with rfl | ⟨m, d, hm, hd, hdb⟩
    · exact Or.inr ⟨n, c, hn, hc, refl c⟩
    · exact Or.inr ⟨m, d, hm, hd, step hdb hn hc⟩

/-- Every node is reached from the root as soon as every other node is listed by its parent and
has the longer path. The induction is on the length of the path. -/
theorem of_parents
    (hparent : ∀ id n, t.node? id = some n → id ≠ t.root → ∃ p d, t.node? p = some d ∧
      id ∈ d.children ∧ d.path.toList.length < n.path.toList.length)
    {id : NodeId} {n : Node} (hn : t.node? id = some n) : t.Reaches t.root id := by
  induction hlen : n.path.toList.length using Nat.strongRecOn generalizing id n with
  | ind len ih =>
    by_cases hroot : id = t.root
    · rw [hroot]
      exact refl _
    · obtain ⟨p, d, hd, hmem, hlt⟩ := hparent id n hn hroot
      exact step (ih _ (hlen ▸ hlt) hd rfl) hd hmem

end Reaches

/-! ## Consistent trees -/

/-- A tree is consistent as soon as all but reachability holds of it. -/
theorem consistent_of_links (hkey : ∀ id n, t.node? id = some n → n.id = id)
    (hroot : ∃ n, t.node? t.root = some n ∧ n.parent = none ∧ n.path = "/" ∧
      n.isDirectory = true)
    (hbelow : ∀ id n, t.node? id = some n → id ≠ t.root → ∃ p d, n.parent = some p ∧
      t.node? p = some d ∧ d.isDirectory = true ∧ validName n.name = true ∧
      n.path = Path.join d.path n.name)
    (hnodup : ∀ id n, t.node? id = some n → n.children.Nodup)
    (hchild : ∀ id n, t.node? id = some n → n.isDirectory = true →
      ∀ c, c ∈ n.children ↔ ∃ m, t.node? c = some m ∧ m.parent = some id)
    (hnames : ∀ a m b m', t.node? a = some m → t.node? b = some m' → m.parent = m'.parent →
      m.parent ≠ none → m.name = m'.name → a = b)
    (hcwd : ∃ n, t.node? t.cwd = some n ∧ n.isDirectory = true) : t.Consistent where
  key_eq_id := hkey
  root_ok := hroot
  parent_ok := by
    intro id n hn hne
    obtain ⟨p, d, hp, hd, hdir, -⟩ := hbelow id n hn hne
    exact ⟨p, d, hp, hd, hdir⟩
  children_nodup := hnodup
  child_iff_parent := hchild
  name_ok := by
    intro id n hn hne
    obtain ⟨-, -, -, -, -, hname, -⟩ := hbelow id n hn hne
    exact hname
  sibling_names := hnames
  path_ok := by
    intro id n hn p d hp hd
    have hne : id ≠ t.root := by
      rintro rfl
      obtain ⟨r, hr, hnone, -⟩ := hroot
      rw [hr, Option.some.injEq] at hn
      rw [← hn, hnone] at hp
      cases hp
    obtain ⟨p', d', hp', hd', -, -, hpath⟩ := hbelow id n hn hne
    rw [hp, Option.some.injEq] at hp'
    subst hp'
    rw [hd, Option.some.injEq] at hd'
    rw [hd', hpath]
  reachable := by
    intro id n hn
    refine Reaches.of_parents (fun id n hn hne => ?_) hn
    obtain ⟨p, d, hp, hd, hdir, hname, hpath⟩ := hbelow id n hn hne
    refine ⟨p, d, hd, (hchild p d hd hdir id).2 ⟨n, hn, hp⟩, ?_⟩
    rw [hpath]
    exact Path.length_lt_length_join (toList_ne_nil_of_validName hname)
  cwd_ok := hcwd

namespace Consistent

variable (h : t.Consistent)
include h

theorem parent_of_mem_children {id c : NodeId} {n : Node} (hn : t.node? id = some n)
    (hc : c ∈ n.children) : ∃ m, t.node? c = some m ∧ m.parent = some id :=
  (h.child_iff_parent id n hn (Node.isDirectory_of_mem_children hc) c).1 hc

theorem parent_eq_of_mem_children {id c : NodeId} {n m : Node} (hn : t.node? id = some n)
    (hc : c ∈ n.children) (hm : t.node? c = some m) : m.parent = some id := by
  obtain ⟨m', hm', hp⟩ := h.parent_of_mem_children hn hc
  rw [hm, Option.some.injEq] at hm'
  rw [hm', hp]

theorem root_ne_of_parent {id p : NodeId} {n : Node} (hn : t.node? id = some n)
    (hp : n.parent = some p) : id ≠ t.root := by
  rintro rfl
  obtain ⟨r, hr, hnone, -⟩ := h.root_ok
  rw [hr, Option.some.injEq] at hn
  rw [← hn, hnone] at hp
  cases hp

/-- A node with a parent is listed by it, and its path is the joined one. -/
theorem parent_spec {id p : NodeId} {n : Node} (hn : t.node? id = some n)
    (hp : n.parent = some p) : ∃ d, t.node? p = some d ∧ d.isDirectory = true ∧
      id ∈ d.children ∧ n.path = Path.join d.path n.name ∧ validName n.name = true := by
  have hne := h.root_ne_of_parent hn hp
  obtain ⟨p', d, hp', hd, hdir⟩ := h.parent_ok id n hn hne
  rw [hp, Option.some.injEq] at hp'
  subst hp'
  exact ⟨d, hd, hdir, (h.child_iff_parent p d hd hdir id).2 ⟨n, hn, hp⟩,
    h.path_ok id n hn p d hp hd, h.name_ok id n hn hne⟩

theorem parent_of_ne_root {id : NodeId} {n : Node} (hn : t.node? id = some n)
    (hne : id ≠ t.root) : ∃ p, n.parent = some p := by
  obtain ⟨p, -, hp, -⟩ := h.parent_ok id n hn hne
  exact ⟨p, hp⟩

/-- A name is free in a directory if no node has the joined path. -/
theorem name_ne_of_free {p x : NodeId} {d n : Node} {name : String} (hd : t.node? p = some d)
    (hfree : t.lookup? (Path.join d.path name) = none) (hn : t.node? x = some n)
    (hp : n.parent = some p) : n.name ≠ name := by
  rintro rfl
  exact lookup?_eq_none.1 hfree x n hn (h.path_ok x n hn p d hp hd)

theorem eq_root_of_parent_eq_none {id : NodeId} {n : Node} (hn : t.node? id = some n)
    (hp : n.parent = none) : id = t.root := by
  by_contra hne
  obtain ⟨p, hp'⟩ := h.parent_of_ne_root hn hne
  rw [hp] at hp'
  cases hp'

/-- What holds of the root and passes from a directory to its children holds of every node. -/
theorem induction {P : NodeId → Node → Prop}
    (hroot : ∀ n, t.node? t.root = some n → P t.root n)
    (hchild : ∀ p d id n, t.node? p = some d → P p d → t.node? id = some n →
      n.parent = some p → n.path = Path.join d.path n.name → validName n.name = true → P id n)
    {id : NodeId} {n : Node} (hn : t.node? id = some n) : P id n := by
  have hreach := h.reachable id n hn
  induction hreach generalizing n with
  | refl => exact hroot n hn
  | @step b c m _ hm hc ih =>
    have hp := h.parent_eq_of_mem_children hm hc hn
    exact hchild b m c n hm (ih hm) hn hp (h.path_ok c n hn b m hp hm)
      (h.name_ok c n hn (h.root_ne_of_parent hn hp))

/-- Stored paths are in normal form. -/
theorem normal_path {id : NodeId} {n : Node} (hn : t.node? id = some n) : Path.Normal n.path := by
  refine h.induction (P := fun _ n => Path.Normal n.path) ?_ ?_ hn
  · intro n hn
    obtain ⟨r, hr, -, hpath, -⟩ := h.root_ok
    rw [hr, Option.some.injEq] at hn
    rw [← hn, hpath]
    exact Path.normal_root
  · intro p d id n _ hd _ _ hpath hname
    rw [hpath]
    exact hd.join hname

/-- Every path is absolute. -/
theorem head?_path {id : NodeId} {n : Node} (hn : t.node? id = some n) :
    n.path.toList.head? = some '/' := by
  obtain ⟨rest, hrest⟩ := (h.normal_path hn).exists_cons
  rw [hrest, List.head?_cons]

theorem path_ne_nil {id : NodeId} {n : Node} (hn : t.node? id = some n) : n.path.toList ≠ [] := by
  intro hnil
  have := h.head?_path hn
  rw [hnil] at this
  cases this

theorem length_lt {id p : NodeId} {n d : Node} (hn : t.node? id = some n)
    (hp : n.parent = some p) (hd : t.node? p = some d) :
    d.path.toList.length < n.path.toList.length := by
  have hname := h.name_ok id n hn (h.root_ne_of_parent hn hp)
  rw [h.path_ok id n hn p d hp hd]
  exact Path.length_lt_length_join (toList_ne_nil_of_validName hname)

theorem path_eq_root_iff {id : NodeId} {n : Node} (hn : t.node? id = some n) :
    n.path = "/" ↔ id = t.root := by
  constructor
  · intro hpath
    by_contra hne
    obtain ⟨p, hp⟩ := h.parent_of_ne_root hn hne
    obtain ⟨d, -, -, -, hjoin, hname⟩ := h.parent_spec hn hp
    exact Path.join_ne_root (toList_ne_nil_of_validName hname) (hjoin.symm.trans hpath)
  · rintro rfl
    obtain ⟨r, hr, -, hpath, -⟩ := h.root_ok
    rw [hr, Option.some.injEq] at hn
    rw [← hn, hpath]

/-- Different nodes have different paths. The induction is from the root to the first of them:
equal joined paths have equal directories and names. -/
theorem path_inj {a b : NodeId} {m n : Node} (hm : t.node? a = some m) (hn : t.node? b = some n)
    (hpath : m.path = n.path) : a = b := by
  revert b n
  refine h.induction (P := fun a m => ∀ {b n}, t.node? b = some n → m.path = n.path → a = b)
    ?_ ?_ hm
  · intro r hr b n hn hpath
    have hroot := (h.path_eq_root_iff hr).2 rfl
    exact ((h.path_eq_root_iff hn).1 (hpath.symm.trans hroot)).symm
  · intro p d a m hd ih hm hp hjoin hname b n hn hpath
    have hb : b ≠ t.root := by
      intro hb
      have := (h.path_eq_root_iff hn).2 hb
      exact Path.join_ne_root (toList_ne_nil_of_validName hname)
        (hjoin.symm.trans (hpath.trans this))
    obtain ⟨q, hq⟩ := h.parent_of_ne_root hn hb
    obtain ⟨e, he, -, -, hjoin', hname'⟩ := h.parent_spec hn hq
    obtain ⟨hdirs, hnames⟩ := Path.join_inj (h.path_ne_nil hd) (h.path_ne_nil he)
      (validName_iff.1 hname).2.2.2 (validName_iff.1 hname').2.2.2
      (hjoin.symm.trans (hpath.trans hjoin'))
    have hpq : p = q := ih he hdirs
    exact h.sibling_names a m b n hm hn (by rw [hp, hq, hpq]) (by rw [hp]; simp) hnames

/-- Lookup finds the node whose path is the given one. -/
theorem lookup?_eq_some {path : String} {n : Node} :
    t.lookup? path = some n ↔ t.node? n.id = some n ∧ n.path = path := by
  constructor
  · intro hl
    obtain ⟨⟨id, hid⟩, hpath⟩ := node_of_lookup?_eq_some hl
    rw [h.key_eq_id id n hid]
    exact ⟨hid, hpath⟩
  · rintro ⟨hn, hpath⟩
    cases hl : t.lookup? path with
    | none => exact absurd hpath (lookup?_eq_none.1 hl _ n hn)
    | some m =>
      obtain ⟨⟨id, hid⟩, hpath'⟩ := node_of_lookup?_eq_some hl
      have := h.path_inj hid hn (hpath'.trans hpath.symm)
      rw [this, hn] at hid
      exact hid.symm

theorem lookup?_root : ∃ r, t.lookup? "/" = some r ∧ r.id = t.root ∧ r.isDirectory = true := by
  obtain ⟨r, hr, -, hpath, hdir⟩ := h.root_ok
  have hid := h.key_eq_id _ _ hr
  exact ⟨r, h.lookup?_eq_some.2 ⟨hid ▸ hr, hpath⟩, hid, hdir⟩

/-- What has the path of a name beneath another path has that name, and its parent has the other
path. -/
theorem parent_of_path_join {id : NodeId} {n : Node} {path name : String}
    (hn : t.node? id = some n) (hpath : path.toList ≠ []) (hne : name.toList ≠ [])
    (hslash : '/' ∉ name.toList) (hjoin : n.path = Path.join path name) :
    ∃ p d, n.parent = some p ∧ t.node? p = some d ∧ d.path = path ∧ n.name = name := by
  have hroot : id ≠ t.root := by
    intro hroot
    have := (h.path_eq_root_iff hn).2 hroot
    exact Path.join_ne_root hne (hjoin.symm.trans this)
  obtain ⟨p, hp⟩ := h.parent_of_ne_root hn hroot
  obtain ⟨d, hd, -, -, hjoin', hname'⟩ := h.parent_spec hn hp
  obtain ⟨hdirs, hnames⟩ := Path.join_inj (h.path_ne_nil hd) hpath
    (validName_iff.1 hname').2.2.2 hslash (hjoin'.symm.trans hjoin)
  exact ⟨p, d, hp, hd, hdirs, hnames⟩

theorem parent_of_path_eq_join {id : NodeId} {n : Node} {path name : String}
    (hn : t.node? id = some n) (hpath : path.toList ≠ []) (hname : validName name = true)
    (hjoin : n.path = Path.join path name) :
    ∃ p d, n.parent = some p ∧ t.node? p = some d ∧ d.path = path ∧ n.name = name :=
  h.parent_of_path_join hn hpath (toList_ne_nil_of_validName hname) (validName_iff.1 hname).2.2.2
    hjoin

/-- What has the path of a name beneath a directory is a child of the directory. -/
theorem mem_children_of_lookup?_join {path name : String} {d n : Node}
    (hd : t.lookup? path = some d) (hname : validName name = true)
    (hn : t.lookup? (Path.join path name) = some n) : n.id ∈ d.children ∧ n.name = name := by
  obtain ⟨hdnode, rfl⟩ := h.lookup?_eq_some.1 hd
  obtain ⟨hnode, hpath⟩ := h.lookup?_eq_some.1 hn
  obtain ⟨q, e, hq, he, hdirs, hnames⟩ :=
    h.parent_of_path_eq_join hnode (h.path_ne_nil hdnode) hname hpath
  have hqd : q = d.id := h.path_inj he hdnode hdirs
  obtain ⟨d', hd', -, hmem, -⟩ := h.parent_spec hnode hq
  rw [hqd, hdnode, Option.some.injEq] at hd'
  rw [hd']
  exact ⟨hmem, hnames⟩

theorem normal_currentDirectory : Path.Normal t.currentDirectory := by
  obtain ⟨n, hn, -⟩ := h.cwd_ok
  rw [currentDirectory, hn]
  exact h.normal_path hn

theorem normal_resolve (input : String) : Path.Normal (t.resolve input) :=
  Path.normal_resolve h.normal_currentDirectory

theorem resolve_resolve (input : String) : t.resolve (t.resolve input) = t.resolve input :=
  Path.resolve_of_normal (h.normal_resolve input)

theorem find?_resolve (input : String) : t.find? (t.resolve input) = t.find? input := by
  rw [find?, h.resolve_resolve, ← find?]

/-- What is reached from an existing node exists. -/
theorem node_of_reaches {a b : NodeId} {n : Node} (hr : t.Reaches a b)
    (hn : t.node? a = some n) : ∃ m, t.node? b = some m := by
  cases hr with
  | refl => exact ⟨n, hn⟩
  | step _ hm hc =>
    obtain ⟨m, hm, -⟩ := h.parent_of_mem_children hm hc
    exact ⟨m, hm⟩

/-- A node below another one is reached through its parent. -/
theorem reaches_parent {a b p : NodeId} {m : Node} (hr : t.Reaches a b)
    (hm : t.node? b = some m) (hp : m.parent = some p) : b = a ∨ t.Reaches a p := by
  cases hr with
  | refl => exact Or.inl rfl
  | step hab hn hc =>
    have hp' := h.parent_eq_of_mem_children hn hc hm
    rw [hp, Option.some.injEq] at hp'
    rw [hp']
    exact Or.inr hab

/-- What is reached from a node begins with the stem of its path and a slash, or is the node. -/
theorem within_of_reaches {a b : NodeId} {n m : Node} (hr : t.Reaches a b)
    (hn : t.node? a = some n) (hm : t.node? b = some m) :
    a = b ∨ ∃ rest, m.path.toList = Path.stem n.path ++ '/' :: rest := by
  induction hr generalizing m with
  | refl => exact Or.inl rfl
  | @step b c e hab he hc ih =>
    refine Or.inr ?_
    have hp := h.parent_eq_of_mem_children he hc hm
    have hpath := h.path_ok c m hm b e hp he
    rcases ih he with rfl | ⟨rest, hrest⟩
    · rw [hn, Option.some.injEq] at he
      subst he
      exact ⟨m.name.toList, by rw [hpath, Path.toList_join]⟩
    · by_cases hroot : e.path = "/"
      · have hstem : Path.stem n.path = [] := by
          rw [hroot] at hrest
          have hlen := congrArg List.length hrest
          simp only [List.length_append, List.length_cons] at hlen
          have hone : "/".toList.length = 1 := rfl
          exact List.eq_nil_of_length_eq_zero (by omega)
        exact ⟨m.name.toList, by rw [hpath, Path.toList_join, hroot, hstem, Path.stem_root]⟩
      · refine ⟨rest ++ '/' :: m.name.toList, ?_⟩
        rw [hpath, Path.toList_join, Path.stem_of_ne_root hroot, hrest]
        simp

theorem isWithin_of_reaches {a b : NodeId} {n m : Node} (hr : t.Reaches a b)
    (hn : t.node? a = some n) (hm : t.node? b = some m) : Path.isWithin m.path n.path = true := by
  rw [Path.isWithin_iff (h.head?_path hm)]
  refine (h.within_of_reaches hr hn hm).imp_left fun heq => ?_
  rw [heq, hm, Option.some.injEq] at hn
  rw [hn]

end Consistent

end FileTree

end VirtualShell
