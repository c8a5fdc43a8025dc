import VirtualShell.Proofs.Tree.Subtree
import VirtualShell.Tree.Edit

/-!
# Changes that keep a tree consistent

How single changes act on the nodes, and that they keep a consistent tree consistent: a change in
place that leaves the shape of the tree alone (`Consistent.modifyNode`), a new node at the end of
a directory (`consistent_attach`), and the removal of a subtree (`consistent_detach`).
-/

namespace VirtualShell

open Calendar

/-! ## Lists of children -/

namespace Node

variable (f : List NodeId → List NodeId) (n : Node)

@[simp] theorem mapChildren_id : (n.mapChildren f).id = n.id := by
  unfold mapChildren; split <;> rfl

@[simp] theorem mapChildren_name : (n.mapChildren f).name = n.name := by
  unfold mapChildren; split <;> rfl

@[simp] theorem mapChildren_path : (n.mapChildren f).path = n.path := by
  unfold mapChildren; split <;> rfl

@[simp] theorem mapChildren_parent : (n.mapChildren f).parent = n.parent := by
  unfold mapChildren; split <;> rfl

@[simp] theorem mapChildren_metadata : (n.mapChildren f).metadata = n.metadata := by
  unfold mapChildren; split <;> rfl

@[simp] theorem mapChildren_readOnly : (n.mapChildren f).readOnly = n.readOnly := by
  unfold mapChildren; split <;> rfl

@[simp] theorem mapChildren_isDirectory : (n.mapChildren f).isDirectory = n.isDirectory := by
  unfold mapChildren
  split
  · next h => simp [isDirectory, h]
  · rfl

theorem children_of_not_isDirectory (h : n.isDirectory = false) : n.children = [] := by
  cases hc : n.content with
  | file text => simp [children, hc]
  | directory ids => simp [isDirectory, hc] at h

variable {f n}

theorem not_isDirectory_of_isFile (h : n.isFile = true) : ¬ n.isDirectory = true := by
  simpa [isFile] using h

theorem mapChildren_children (h : n.isDirectory = true) :
    (n.mapChildren f).children = f n.children := by
  cases hc : n.content with
  | file text => simp [isDirectory, hc] at h
  | directory ids => simp [mapChildren, children, hc]

theorem mapChildren_of_isDirectory (h : n.isDirectory = true) :
    n.mapChildren f = { n with content := .directory (f n.children) } := by
  cases hc : n.content with
  | file text => simp [isDirectory, hc] at h
  | directory ids => simp [mapChildren, children, hc]

/-- Changes the list of children if the node is a given one. -/
def relist (p : NodeId) (f : List NodeId → List NodeId) (x : NodeId) (n : Node) : Node :=
  if x = p then n.mapChildren f else n

variable {p x : NodeId}

@[simp] theorem relist_id : (relist p f x n).id = n.id := by unfold relist; split <;> simp

@[simp] theorem relist_name : (relist p f x n).name = n.name := by unfold relist; split <;> simp

@[simp] theorem relist_path : (relist p f x n).path = n.path := by unfold relist; split <;> simp

@[simp] theorem relist_parent : (relist p f x n).parent = n.parent := by
  unfold relist; split <;> simp

@[simp] theorem relist_isDirectory : (relist p f x n).isDirectory = n.isDirectory := by
  unfold relist; split <;> simp

@[simp] theorem relist_metadata : (relist p f x n).metadata = n.metadata := by
  unfold relist; split <;> simp

@[simp] theorem relist_readOnly : (relist p f x n).readOnly = n.readOnly := by
  unfold relist; split <;> simp

theorem relist_self : relist p f p n = n.mapChildren f := if_pos rfl

theorem relist_of_ne (h : x ≠ p) : relist p f x n = n := if_neg h

theorem relist_same : relist p (fun ids => ids) x n = n := by
  unfold relist mapChildren
  split
  · split
    · next ids hc => rw [← hc]
    · rfl
  · rfl

theorem relist_of_isFile {text : String} (h : n.content = .file text) : relist p f x n = n := by
  simp [relist, mapChildren, h]

variable {c id : NodeId}

theorem mem_relist_append (hdir : n.isDirectory = true) :
    c ∈ (relist p (· ++ [id]) x n).children ↔ (c = id ∧ x = p) ∨ c ∈ n.children := by
  by_cases hx : x = p
  · rw [hx, relist_self, mapChildren_children hdir, List.mem_append, List.mem_singleton]
    simp only [and_true]
    exact or_comm
  · simp only [relist_of_ne hx, hx, and_false, false_or]

theorem mem_relist_filter (hdir : n.isDirectory = true) :
    c ∈ (relist p (·.filter (· ≠ id)) x n).children ↔ c ∈ n.children ∧ (x = p → c ≠ id) := by
  by_cases hx : x = p
  · rw [hx, relist_self, mapChildren_children hdir, List.mem_filter]
    simp
  · simp only [relist_of_ne hx, hx, false_imp_iff, and_true]

theorem nodup_relist_append (h : n.children.Nodup) (hid : x = p → id ∉ n.children) :
    (relist p (· ++ [id]) x n).children.Nodup := by
  by_cases hx : x = p
  · cases hdir : n.isDirectory with
    | false =>
      rw [children_of_not_isDirectory _ (by rw [relist_isDirectory, hdir])]
      exact List.nodup_nil
    | true =>
      rw [hx, relist_self, mapChildren_children hdir]
      refine List.nodup_append.2 ⟨h, List.nodup_singleton id, ?_⟩
      rintro c hc c' hc' rfl
      exact hid hx (List.mem_singleton.1 hc' ▸ hc)
  · rwa [relist_of_ne hx]

theorem nodup_relist_filter (h : n.children.Nodup) :
    (relist p (·.filter (· ≠ id)) x n).children.Nodup := by
  by_cases hx : x = p
  · cases hdir : n.isDirectory with
    | false =>
      rw [children_of_not_isDirectory _ (by rw [relist_isDirectory, hdir])]
      exact List.nodup_nil
    | true =>
      rw [hx, relist_self, mapChildren_children hdir]
      exact h.filter _
  · rwa [relist_of_ne hx]

end Node

namespace FileTree

variable {t : FileTree}

theorem node?_modifyNode (t : FileTree) (id x : NodeId) (f : Node → Node) :
    (t.modifyNode id f).node? x = if x = id then (t.node? x).map f else t.node? x :=
  OrderedMap.get?_modify t.nodes id x f

theorem node?_modifyNode_mapChildren (t : FileTree) (p x : NodeId)
    (f : List NodeId → List NodeId) :
    (t.modifyNode p (·.mapChildren f)).node? x = (t.node? x).map (Node.relist p f x) := by
  rw [node?_modifyNode]
  unfold Node.relist
  by_cases hx : x = p
  · simp only [if_pos hx]
  · simp [if_neg hx]

@[simp] theorem ids_modifyNode (t : FileTree) (id : NodeId) (f : Node → Node) :
    (t.modifyNode id f).ids = t.ids := OrderedMap.keys_mapValues _ _

/-! ## Changes in place -/

/-- Two nodes of one shape: they differ in a file's text, the metadata and the flag at most. -/
structure SameShape (n m : Node) : Prop where
  id : m.id = n.id
  name : m.name = n.name
  path : m.path = n.path
  parent : m.parent = n.parent
  isDirectory : m.isDirectory = n.isDirectory
  children : m.children = n.children

theorem SameShape.refl (n : Node) : SameShape n n := ⟨rfl, rfl, rfl, rfl, rfl, rfl⟩

/-- A change of one node that keeps its shape keeps a tree consistent. -/
theorem Consistent.modifyNode (h : t.Consistent) {id : NodeId} {f : Node → Node}
    (hf : ∀ n, t.node? id = some n → SameShape n (f n)) : (t.modifyNode id f).Consistent := by
  have hold : ∀ x m, (t.modifyNode id f).node? x = some m →
      ∃ n, t.node? x = some n ∧ SameShape n m := by
    intro x m hm
    rw [node?_modifyNode] at hm
    split at hm
    · next hx =>
      subst hx
      obtain ⟨n, hn, rfl⟩ := Option.map_eq_some_iff.1 hm
      exact ⟨n, hn, hf n hn⟩
    · exact ⟨m, hm, .refl m⟩
  have hnew : ∀ x n, t.node? x = some n →
      ∃ m, (t.modifyNode id f).node? x = some m ∧ SameShape n m := by
    intro x n hn
    rw [node?_modifyNode]
    split
    · next hx => exact ⟨f n, by rw [hn]; rfl, hf n (hx ▸ hn)⟩
    · exact ⟨n, hn, .refl n⟩
  refine consistent_of_links ?key ?root ?below ?nodup ?child ?names ?cwd
  case key =>
    intro x m hm
    obtain ⟨n, hn, hs⟩ := hold x m hm
    rw [hs.id, h.key_eq_id x n hn]
  case root =>
    obtain ⟨r, hr, hp, hpath, hdir⟩ := h.root_ok
    obtain ⟨m, hm, hs⟩ := hnew _ r hr
    exact ⟨m, hm, by rw [hs.parent, hp], by rw [hs.path, hpath], by rw [hs.isDirectory, hdir]⟩
  case below =>
    intro x m hm hne
    obtain ⟨n, hn, hs⟩ := hold x m hm
    obtain ⟨p, hp⟩ := h.parent_of_ne_root hn hne
    obtain ⟨d, hd, hdir, -, hpath, hname⟩ := h.parent_spec hn hp
    obtain ⟨d', hd', hs'⟩ := hnew p d hd
    exact ⟨p, d', by rw [hs.parent, hp], hd', by rw [hs'.isDirectory, hdir],
      by rw [hs.name, hname], by rw [hs.path, hs.name, hs'.path, hpath]⟩
  case nodup =>
    intro x m hm
    obtain ⟨n, hn, hs⟩ := hold x m hm
    rw [hs.children]
    exact h.children_nodup x n hn
  case child =>
    intro x m hm hdir c
    obtain ⟨n, hn, hs⟩ := hold x m hm
    rw [hs.children, h.child_iff_parent x n hn (by rw [← hs.isDirectory, hdir])]
    constructor
    · rintro ⟨k, hk, hp⟩
      obtain ⟨k', hk', hs'⟩ := hnew c k hk
      exact ⟨k', hk', by rw [hs'.parent, hp]⟩
    · rintro ⟨k', hk', hp⟩
      obtain ⟨k, hk, hs'⟩ := hold c k' hk'
      exact ⟨k, hk, by rw [← hs'.parent, hp]⟩
  case names =>
    intro a m b m' hm hm' hpp hp hname
    obtain ⟨n, hn, hs⟩ := hold a m hm
    obtain ⟨n', hn', hs'⟩ := hold b m' hm'
    rw [hs.parent, hs'.parent] at hpp
    rw [hs.parent] at hp
    rw [hs.name, hs'.name] at hname
    exact h.sibling_names a n b n' hn hn' hpp hp hname
  case cwd =>
    obtain ⟨n, hn, hdir⟩ := h.cwd_ok
    obtain ⟨m, hm, hs⟩ := hnew _ n hn
    exact ⟨m, hm, by rw [hs.isDirectory, hdir]⟩

/-- Another directory may become the current one. -/
theorem Consistent.setCwd (h : t.Consistent) {id : NodeId} {n : Node} (hn : t.node? id = some n)
    (hdir : n.isDirectory = true) : ({ t with cwd := id } : FileTree).Consistent where
  key_eq_id := h.key_eq_id
  root_ok := h.root_ok
  parent_ok := h.parent_ok
  children_nodup := h.children_nodup
  child_iff_parent := h.child_iff_parent
  name_ok := h.name_ok
  sibling_names := h.sibling_names
  path_ok := h.path_ok
  reachable := by
    intro x m hm
    have hreach := h.reachable x m hm
    clear hm
    induction hreach with
    | refl => exact Reaches.refl _
    | step _ hb hc ih => exact Reaches.step ih hb hc
  cwd_ok := ⟨n, hn, hdir⟩

/-! ## New nodes -/

/-- The id of a new node is unknown also to a tree in which a list of children has changed. -/
theorem pick_not_mem_modifyNode (t : FileTree) (s : Supply) (id : NodeId) (f : Node → Node) :
    s.ids.pick t.ids ∉ (t.modifyNode id f).nodes.keys := by
  have hkeys := ids_modifyNode t id f
  rw [ids] at hkeys
  rw [hkeys]
  exact s.ids.pick_fresh t.ids

/-- The entries after a new node was put beneath a directory: the new node comes last. -/
theorem entries_attach (t : FileTree) (s : Supply) (parent : NodeId) (parentPath name : String)
    (content : Content) (readOnly : Bool) :
    (t.attach s parent parentPath name content readOnly).1.nodes.entries =
      (t.nodes.entries.map fun e =>
        (e.1, Node.relist parent (· ++ [s.ids.pick t.ids]) e.1 e.2)) ++
      [(s.ids.pick t.ids, (t.attach s parent parentPath name content readOnly).2)] := by
  have hfresh := pick_not_mem_modifyNode t s parent (·.mapChildren (· ++ [s.ids.pick t.ids]))
  rw [OrderedMap.keys] at hfresh
  simp only [attach, OrderedMap.insertNew]
  rw [dif_neg hfresh]
  rfl

/-- The nodes after a new one was put beneath a directory. -/
theorem node?_attach (t : FileTree) (s : Supply) (parent : NodeId) (parentPath name : String)
    (content : Content) (readOnly : Bool) (x : NodeId) :
    (t.attach s parent parentPath name content readOnly).1.node? x =
      if x = s.ids.pick t.ids then some (t.attach s parent parentPath name content readOnly).2
      else (t.node? x).map (Node.relist parent (· ++ [s.ids.pick t.ids]) x) := by
  have hfresh := pick_not_mem_modifyNode t s parent (·.mapChildren (· ++ [s.ids.pick t.ids]))
  rw [node?, attach, OrderedMap.get?_insertNew, ← node?_modifyNode_mapChildren]
  simp only [hfresh, not_false_eq_true, and_true]
  rfl

section Attach

variable {s : Supply} {parent : NodeId} {parentPath name : String} {content : Content}
  {readOnly : Bool} {x c : NodeId}

theorem node?_pick (t : FileTree) (s : Supply) : t.node? (s.ids.pick t.ids) = none := by
  cases hn : t.node? (s.ids.pick t.ids) with
  | none => rfl
  | some n => exact absurd (mem_ids.2 ⟨n, hn⟩) (s.ids.pick_fresh t.ids)

theorem ne_pick_of_node? {n : Node} (hn : t.node? x = some n) : x ≠ s.ids.pick t.ids := by
  rintro rfl
  rw [node?_pick] at hn
  cases hn

theorem node?_attach_of_node? {n : Node} (hn : t.node? x = some n) :
    (t.attach s parent parentPath name content readOnly).1.node? x =
      some (Node.relist parent (· ++ [s.ids.pick t.ids]) x n) := by
  rw [node?_attach, if_neg (ne_pick_of_node? hn), hn, Option.map_some]

/-- A node after a new one was put beneath a directory is the new one or one from before. -/
theorem eq_or_node_of_attach {m : Node}
    (hm : (t.attach s parent parentPath name content readOnly).1.node? x = some m) :
    (x = s.ids.pick t.ids ∧ m = (t.attach s parent parentPath name content readOnly).2) ∨
      ∃ n, t.node? x = some n ∧ m = Node.relist parent (· ++ [s.ids.pick t.ids]) x n := by
  rw [node?_attach] at hm
  split at hm
  · next hx => exact Or.inl ⟨hx, (Option.some.inj hm).symm⟩
  · obtain ⟨n, hn, rfl⟩ := Option.map_eq_some_iff.1 hm
    exact Or.inr ⟨n, hn, rfl⟩

/-- The nodes with a given parent after a new one was put beneath a directory. -/
theorem exists_parent_attach :
    (∃ k, (t.attach s parent parentPath name content readOnly).1.node? c = some k ∧
      k.parent = some x) ↔
      (c = s.ids.pick t.ids ∧ x = parent) ∨ ∃ k, t.node? c = some k ∧ k.parent = some x := by
  constructor
  · rintro ⟨k, hk, hp⟩
    rcases eq_or_node_of_attach hk with ⟨rfl, rfl⟩ | ⟨k, hk', rfl⟩
    · exact Or.inl ⟨rfl, (Option.some.inj hp).symm⟩
    · rw [Node.relist_parent] at hp
      exact Or.inr ⟨k, hk', hp⟩
  · rintro (⟨rfl, rfl⟩ | ⟨k, hk, hp⟩)
    · exact ⟨_, by rw [node?_attach, if_pos rfl], rfl⟩
    · exact ⟨_, node?_attach_of_node? hk, by rw [Node.relist_parent, hp]⟩

end Attach

/-- A new node without children, beneath a directory in which its name is free, keeps a tree
consistent. -/
theorem consistent_attach (h : t.Consistent) (s : Supply) {parent : NodeId} {d : Node}
    (hd : t.node? parent = some d) (hdir : d.isDirectory = true) {name : String}
    (hname : validName name = true) (hfree : t.lookup? (Path.join d.path name) = none)
    {content : Content} (hempty : content = .directory [] ∨ ∃ text, content = .file text)
    (readOnly : Bool) : (t.attach s parent d.path name content readOnly).1.Consistent := by
  have hchildren : (t.attach s parent d.path name content readOnly).2.children = [] := by
    rcases hempty with rfl | ⟨text, rfl⟩ <;> rfl
  -- no node that was there before names the new one as its parent
  have hchildless : ∀ x n, t.node? x = some n → n.parent ≠ some (s.ids.pick t.ids) := by
    intro x n hn hp
    obtain ⟨e, he, -⟩ := h.parent_spec hn hp
    exact ne_pick_of_node? he rfl
  refine consistent_of_links ?key ?root ?below ?nodup ?child ?names ?cwd
  case key =>
    intro x m hm
    rcases eq_or_node_of_attach hm with ⟨rfl, rfl⟩ | ⟨n, hn, rfl⟩
    · rfl
    · rw [Node.relist_id, h.key_eq_id x n hn]
  case root =>
    obtain ⟨r, hr, hp, hpath, hrdir⟩ := h.root_ok
    exact ⟨_, node?_attach_of_node? hr, by simpa using hp, by simpa using hpath,
      by simpa using hrdir⟩
  case below =>
    intro x m hm hx
    rcases eq_or_node_of_attach hm with ⟨rfl, rfl⟩ | ⟨n, hn, rfl⟩
    · exact ⟨parent, _, rfl, node?_attach_of_node? hd, by simpa using hdir, hname,
        by rw [Node.relist_path]; rfl⟩
    · obtain ⟨p, hp⟩ := h.parent_of_ne_root hn hx
      obtain ⟨e, he, hedir, -, hpath, hvalid⟩ := h.parent_spec hn hp
      exact ⟨p, _, by simpa using hp, node?_attach_of_node? he, by simpa using hedir,
        by simpa using hvalid, by simpa using hpath⟩
  case nodup =>
    intro x m hm
    rcases eq_or_node_of_attach hm with ⟨rfl, rfl⟩ | ⟨n, hn, rfl⟩
    · rw [hchildren]
      exact List.nodup_nil
    · refine Node.nodup_relist_append (h.children_nodup x n hn) fun _ hmem => ?_
      obtain ⟨k, hk, -⟩ := h.parent_of_mem_children hn hmem
      exact ne_pick_of_node? hk rfl
  case child =>
    intro x m hm hmdir c
    rw [exists_parent_attach]
    rcases eq_or_node_of_attach hm with ⟨rfl, rfl⟩ | ⟨n, hn, rfl⟩
    · rw [hchildren]
      refine iff_of_false List.not_mem_nil ?_
      rintro (⟨-, hp⟩ | ⟨k, hk, hp⟩)
      · exact ne_pick_of_node? hd hp.symm
      · exact hchildless c k hk hp
    · rw [Node.relist_isDirectory] at hmdir
      rw [Node.mem_relist_append hmdir, h.child_iff_parent x n hn hmdir c]
  case names =>
    intro a m b m' hm hm' hpp hp hnames
    rcases eq_or_node_of_attach hm with ⟨rfl, rfl⟩ | ⟨n, hn, rfl⟩ <;>
      rcases eq_or_node_of_attach hm' with ⟨rfl, rfl⟩ | ⟨n', hn', rfl⟩
    · rfl
    · rw [Node.relist_parent] at hpp
      rw [Node.relist_name] at hnames
      exact absurd hnames.symm (h.name_ne_of_free hd hfree hn' hpp.symm)
    · rw [Node.relist_parent] at hpp
      rw [Node.relist_name] at hnames
      exact absurd hnames (h.name_ne_of_free hd hfree hn hpp)
    · simp only [Node.relist_parent, Node.relist_name] at hpp hp hnames
      exact h.sibling_names a n b n' hn hn' hpp hp hnames
  case cwd =>
    obtain ⟨c, hc, hcdir⟩ := h.cwd_ok
    exact ⟨_, node?_attach_of_node? hc, by simpa using hcdir⟩

/-- What is found at a path after a new node was put beneath a directory. -/
theorem lookup?_attach (h : t.Consistent) {s : Supply} {parent : NodeId}
    {parentPath name : String} {content : Content} {readOnly : Bool}
    (hcons : (t.attach s parent parentPath name content readOnly).1.Consistent) (path : String) :
    (t.attach s parent parentPath name content readOnly).1.lookup? path =
      if path = Path.join parentPath name then
        some (t.attach s parent parentPath name content readOnly).2
      else (t.lookup? path).map fun n => Node.relist parent (· ++ [s.ids.pick t.ids]) n.id n := by
  split
  · next hpath =>
    refine hcons.lookup?_eq_some.2 ⟨?_, hpath.symm⟩
    rw [node?_attach]
    exact if_pos rfl
  · next hpath =>
    cases hl : t.lookup? path with
    | some n =>
      obtain ⟨hn, hnpath⟩ := h.lookup?_eq_some.1 hl
      rw [Option.map_some, hcons.lookup?_eq_some]
      simpa using ⟨node?_attach_of_node? hn, hnpath⟩
    | none =>
      rw [Option.map_none, lookup?_eq_none]
      intro x m hm hmpath
      rcases eq_or_node_of_attach hm with ⟨rfl, rfl⟩ | ⟨n, hn, rfl⟩
      · exact hpath hmpath.symm
      · rw [Node.relist_path] at hmpath
        exact lookup?_eq_none.1 hl x n hn hmpath

/-! ## Removal -/

/-- The nodes after a subtree was taken out. -/
theorem node?_detach (t : FileTree) (parent id x : NodeId) :
    (t.detach parent id).node? x = if x ∈ t.subtree id then none
      else (t.node? x).map (Node.relist parent (·.filter (· ≠ id)) x) := by
  have hfilter : (t.nodes.filterKeys fun k => !(t.subtree id).contains k).get? x =
      if x ∈ t.subtree id then none else t.node? x := by
    rw [OrderedMap.get?_filterKeys, node?]
    by_cases hx : x ∈ t.subtree id <;> simp [hx]
  rw [node?, detach, OrderedMap.get?_modify, hfilter]
  unfold Node.relist
  by_cases hx : x ∈ t.subtree id <;> by_cases hxp : x = parent
  · simp only [if_pos hx, if_pos hxp, Option.map_none]
  · simp only [if_pos hx, if_neg hxp]
  · simp only [if_neg hx, if_pos hxp]
  · simp [if_neg hx, if_neg hxp]

theorem Consistent.root_not_mem_subtree (h : t.Consistent) {id p : NodeId} {n : Node}
    (hn : t.node? id = some n) (hp : n.parent = some p) : t.root ∉ t.subtree id := by
  rw [mem_subtree h hn]
  intro hr
  have := h.reaches_antisymm hn hr (h.reachable id n hn)
  exact h.root_ne_of_parent hn hp this

theorem Consistent.parent_not_mem_subtree (h : t.Consistent) {id p : NodeId} {n : Node}
    (hn : t.node? id = some n) (hp : n.parent = some p) : p ∉ t.subtree id := by
  rw [mem_subtree h hn]
  exact h.not_reaches_parent hn hp

/-- A node lies in a subtree if it is its top or its parent lies in it. -/
theorem Consistent.mem_subtree_iff_parent (h : t.Consistent) {id x q : NodeId} {n m : Node}
    (hn : t.node? id = some n) (hm : t.node? x = some m) (hq : m.parent = some q) :
    x ∈ t.subtree id ↔ x = id ∨ q ∈ t.subtree id := by
  rw [mem_subtree h hn, mem_subtree h hn]
  constructor
  · intro hr
    exact h.reaches_parent hr hm hq
  · rintro (rfl | hr)
    · exact Reaches.refl x
    · obtain ⟨d, hd, -, hmem, -⟩ := h.parent_spec hm hq
      exact Reaches.step hr hd hmem

section Detach

variable {id parent x c : NodeId} {n m : Node}

theorem node?_detach_of_not_mem (hn : t.node? x = some n) (hx : x ∉ t.subtree id) :
    (t.detach parent id).node? x = some (Node.relist parent (·.filter (· ≠ id)) x n) := by
  rw [node?_detach, if_neg hx, hn, Option.map_some]

/-- A node after a removal is one from before that was not removed. -/
theorem node_of_detach (hm : (t.detach parent id).node? x = some m) : x ∉ t.subtree id ∧
    ∃ n, t.node? x = some n ∧ m = Node.relist parent (·.filter (· ≠ id)) x n := by
  rw [node?_detach] at hm
  split at hm
  · cases hm
  · next hx =>
    obtain ⟨n, hn, rfl⟩ := Option.map_eq_some_iff.1 hm
    exact ⟨hx, n, hn, rfl⟩

/-- The nodes with a given parent after a removal that spared the parent. -/
theorem exists_parent_detach (h : t.Consistent) (hn : t.node? id = some n)
    (hx : x ∉ t.subtree id) :
    (∃ k, (t.detach parent id).node? c = some k ∧ k.parent = some x) ↔
      c ≠ id ∧ ∃ k, t.node? c = some k ∧ k.parent = some x := by
  constructor
  · rintro ⟨k, hk, hp⟩
    obtain ⟨hc, k, hk', rfl⟩ := node_of_detach hk
    rw [Node.relist_parent] at hp
    rw [h.mem_subtree_iff_parent hn hk' hp, not_or] at hc
    exact ⟨hc.1, k, hk', hp⟩
  · rintro ⟨hne, k, hk, hp⟩
    have hc : c ∉ t.subtree id := by
      rw [h.mem_subtree_iff_parent hn hk hp, not_or]
      exact ⟨hne, hx⟩
    exact ⟨_, node?_detach_of_not_mem hk hc, by rw [Node.relist_parent, hp]⟩

/-- The removal of a node below the root with all beneath it keeps a tree consistent. -/
theorem consistent_detach (h : t.Consistent) (hn : t.node? id = some n)
    (hp : n.parent = some parent) : (t.detach parent id).Consistent := by
  obtain ⟨e, he, hedir, -⟩ := h.parent_spec hn hp
  refine consistent_of_links ?key ?root ?below ?nodup ?child ?names ?cwd
  case key =>
    intro x m hm
    obtain ⟨-, k, hk, rfl⟩ := node_of_detach hm
    rw [Node.relist_id, h.key_eq_id x k hk]
  case root =>
    obtain ⟨r, hr, hrp, hpath, hrdir⟩ := h.root_ok
    exact ⟨_, node?_detach_of_not_mem hr (h.root_not_mem_subtree hn hp), by simpa using hrp,
      by simpa using hpath, by simpa using hrdir⟩
  case below =>
    intro x m hm hx
    obtain ⟨hout, k, hk, rfl⟩ := node_of_detach hm
    obtain ⟨q, hq⟩ := h.parent_of_ne_root hk hx
    obtain ⟨d, hd, hddir, -, hpath, hname⟩ := h.parent_spec hk hq
    rw [h.mem_subtree_iff_parent hn hk hq, not_or] at hout
    exact ⟨q, _, by simpa using hq, node?_detach_of_not_mem hd hout.2, by simpa using hddir,
      by simpa using hname, by simpa using hpath⟩
  case nodup =>
    intro x m hm
    obtain ⟨-, k, hk, rfl⟩ := node_of_detach hm
    exact Node.nodup_relist_filter (h.children_nodup x k hk)
  case child =>
    intro x m hm hmdir c
    obtain ⟨hout, k, hk, rfl⟩ := node_of_detach hm
    rw [Node.relist_isDirectory] at hmdir
    rw [exists_parent_detach h hn hout, ← h.child_iff_parent x k hk hmdir c,
      Node.mem_relist_filter hmdir, and_comm]
    -- the top of the subtree is listed by its parent only
    refine and_congr_left fun hc => ⟨?_, fun hne _ => hne⟩
    rintro hne rfl
    have hxp := h.parent_eq_of_mem_children hk hc hn
    rw [hp, Option.some.injEq] at hxp
    exact hne hxp.symm rfl
  case names =>
    intro a m b m' hm hm' hpp hmp hnames
    obtain ⟨-, k, hk, rfl⟩ := node_of_detach hm
    obtain ⟨-, k', hk', rfl⟩ := node_of_detach hm'
    simp only [Node.relist_parent, Node.relist_name] at hpp hmp hnames
    exact h.sibling_names a k b k' hk hk' hpp hmp hnames
  case cwd =>
    obtain ⟨c, hc, hcdir⟩ := h.cwd_ok
    by_cases hcwd : t.cwd ∈ t.subtree id
    · have hmoved : (t.detach parent id).cwd = parent := by simp [detach, hcwd]
      exact ⟨_, hmoved ▸ node?_detach_of_not_mem he (h.parent_not_mem_subtree hn hp),
        by simpa using hedir⟩
    · have hkept : (t.detach parent id).cwd = t.cwd := by simp [detach, hcwd]
      exact ⟨_, hkept ▸ node?_detach_of_not_mem hc hcwd, by simpa using hcdir⟩

end Detach

end FileTree

end VirtualShell
