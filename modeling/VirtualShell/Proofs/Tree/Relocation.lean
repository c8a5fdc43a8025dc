import VirtualShell.Proofs.Tree.Update

/-!
# Moving a subtree

What `relocate` does to each node: the moved node gets a new parent and name, the old and the new
directory list it anew, and every path in the subtree gets the new front in place of the old one
(`node?_relocate`). The moved subtree is the same before and after its top was listed anew
(`subtree_relistedTree`). A move of a node below the root to a free name in a directory outside of the
subtree keeps a tree consistent (`consistent_relocate`).
-/

namespace VirtualShell

open Calendar

namespace FileTree

/-! ## Paths with a new front -/

theorem toList_rebase {old new path : String} {rest : List Char}
    (h : path.toList = old.toList ++ rest) : (rebase old new path).toList = new.toList ++ rest := by
  have hstrip : Path.stripFront? old path = some (String.ofList rest) :=
    Path.stripFront?_eq_some.2 (by simpa using h)
  simp [rebase, hstrip]

theorem rebase_self (old new : String) : rebase old new old = new := by
  have h : (rebase old new old).toList = new.toList ++ [] := toList_rebase (by simp)
  exact String.toList_injective (by simpa using h)

/-- A new front passes from a directory's path to the paths beneath it. -/
theorem rebase_join {old new path name : String} {rest : List Char}
    (h : path.toList = old.toList ++ rest) (hold : path ≠ "/") (hnew : rebase old new path ≠ "/") :
    rebase old new (Path.join path name) = Path.join (rebase old new path) name := by
  apply String.toList_injective
  rw [Path.toList_join, Path.stem_of_ne_root hnew, toList_rebase h]
  have hjoin : (Path.join path name).toList = old.toList ++ (rest ++ '/' :: name.toList) := by
    rw [Path.toList_join, Path.stem_of_ne_root hold, h, List.append_assoc]
  rw [toList_rebase hjoin, List.append_assoc]

/-! ## The nodes after a move -/

/-- A node after the old and the new directory of a moved node have listed it anew. -/
def relisted (id oldParent newParent x : NodeId) (n : Node) : Node :=
  if oldParent = newParent then n
  else Node.relist newParent (· ++ [id]) x (Node.relist oldParent (·.filter (· ≠ id)) x n)

section Relisted

variable {id oldParent newParent x : NodeId} {n : Node}

@[simp] theorem relisted_id : (relisted id oldParent newParent x n).id = n.id := by
  unfold relisted; split <;> simp

@[simp] theorem relisted_name : (relisted id oldParent newParent x n).name = n.name := by
  unfold relisted; split <;> simp

@[simp] theorem relisted_path : (relisted id oldParent newParent x n).path = n.path := by
  unfold relisted; split <;> simp

@[simp] theorem relisted_parent : (relisted id oldParent newParent x n).parent = n.parent := by
  unfold relisted; split <;> simp

@[simp] theorem relisted_isDirectory :
    (relisted id oldParent newParent x n).isDirectory = n.isDirectory := by
  unfold relisted; split <;> simp

@[simp] theorem relisted_metadata : (relisted id oldParent newParent x n).metadata = n.metadata := by
  unfold relisted; split <;> simp

@[simp] theorem relisted_readOnly : (relisted id oldParent newParent x n).readOnly = n.readOnly := by
  unfold relisted; split <;> simp

theorem relisted_of_ne (ho : x ≠ oldParent) (hn : x ≠ newParent) :
    relisted id oldParent newParent x n = n := by
  unfold relisted
  rw [Node.relist_of_ne hn, Node.relist_of_ne ho, ite_self]

end Relisted

/-- The tree of a move in which only the lists of children are changed. -/
def relistedTree (t : FileTree) (id oldParent newParent : NodeId) : FileTree :=
  if oldParent = newParent then t
  else (t.modifyNode oldParent (·.mapChildren (·.filter (· ≠ id)))).modifyNode newParent
    (·.mapChildren (· ++ [id]))

theorem node?_relistedTree (t : FileTree) (id oldParent newParent x : NodeId) :
    (t.relistedTree id oldParent newParent).node? x =
      (t.node? x).map (relisted id oldParent newParent x) := by
  unfold relistedTree relisted
  split
  · simp
  · rw [node?_modifyNode_mapChildren, node?_modifyNode_mapChildren, Option.map_map]
    rfl

theorem size_relistedTree (t : FileTree) (id oldParent newParent : NodeId) :
    (t.relistedTree id oldParent newParent).nodes.size = t.nodes.size := by
  unfold relistedTree
  split <;> simp [modifyNode, OrderedMap.modify, OrderedMap.mapValues, OrderedMap.size]

/-- A node after a move: its place in the tree, its name, its path. -/
def relocated (t : FileTree) (now : Instant) (id oldParent newParent : NodeId)
    (oldPath newPath name : String) (x : NodeId) (n : Node) : Node :=
  let n := relisted id oldParent newParent x n
  let n := if x = id then
      { n with parent := some newParent, name, metadata := { n.metadata with modified := now } }
    else n
  if x ∈ (t.relistedTree id oldParent newParent).subtree id then
    { n with path := rebase oldPath newPath n.path }
  else n

theorem node?_relocate (t : FileTree) (now : Instant) (id oldParent newParent : NodeId)
    (oldPath newPath name : String) (x : NodeId) :
    (t.relocate now id oldParent newParent oldPath newPath name).node? x =
      (t.node? x).map (t.relocated now id oldParent newParent oldPath newPath name x) := by
  have hget : ∀ (u : FileTree) (f : NodeId → Node → Node),
      ({ u with nodes := u.nodes.mapValues f } : FileTree).node? x = (u.node? x).map (f x) :=
    fun u f => OrderedMap.get?_mapValues f u.nodes x
  unfold relocate
  change ({ t.relistedTree id oldParent newParent with
    nodes := (t.relistedTree id oldParent newParent).nodes.mapValues _ } : FileTree).node? x = _
  rw [hget, node?_relistedTree, Option.map_map]
  refine congrArg (fun f => Option.map f (t.node? x)) (funext fun n => ?_)
  simp only [Function.comp_apply, List.contains_iff_mem]
  rfl

@[simp] theorem root_relocate (t : FileTree) (now : Instant) (id oldParent newParent : NodeId)
    (oldPath newPath name : String) :
    (t.relocate now id oldParent newParent oldPath newPath name).root = t.root := by
  unfold relocate
  dsimp only
  split_ifs <;> rfl

@[simp] theorem cwd_relocate (t : FileTree) (now : Instant) (id oldParent newParent : NodeId)
    (oldPath newPath name : String) :
    (t.relocate now id oldParent newParent oldPath newPath name).cwd = t.cwd := by
  unfold relocate
  dsimp only
  split_ifs <;> rfl

section Relocated

variable {t : FileTree} {now : Instant} {id oldParent newParent : NodeId}
  {oldPath newPath name : String} {x : NodeId} {n : Node}

@[simp] theorem relocated_id :
    (t.relocated now id oldParent newParent oldPath newPath name x n).id = n.id := by
  unfold relocated
  dsimp only
  split_ifs <;> simp

@[simp] theorem relocated_isDirectory :
    (t.relocated now id oldParent newParent oldPath newPath name x n).isDirectory =
      n.isDirectory := by
  refine Eq.trans ?_ (relisted_isDirectory : (relisted id oldParent newParent x n).isDirectory = _)
  unfold relocated
  dsimp only
  split_ifs <;> rfl

theorem relocated_children :
    (t.relocated now id oldParent newParent oldPath newPath name x n).children =
      (relisted id oldParent newParent x n).children := by
  unfold relocated
  dsimp only
  split_ifs <;> rfl

theorem relocated_parent :
    (t.relocated now id oldParent newParent oldPath newPath name x n).parent =
      if x = id then some newParent else n.parent := by
  unfold relocated
  dsimp only
  split_ifs <;> simp

theorem relocated_name :
    (t.relocated now id oldParent newParent oldPath newPath name x n).name =
      if x = id then name else n.name := by
  unfold relocated
  dsimp only
  split_ifs <;> simp

theorem relocated_path :
    (t.relocated now id oldParent newParent oldPath newPath name x n).path =
      if x ∈ (t.relistedTree id oldParent newParent).subtree id then
        rebase oldPath newPath n.path else n.path := by
  unfold relocated
  dsimp only
  split_ifs <;> simp

theorem relocated_content :
    (t.relocated now id oldParent newParent oldPath newPath name x n).content =
      (relisted id oldParent newParent x n).content := by
  unfold relocated
  dsimp only
  split_ifs <;> rfl

theorem relocated_metadata :
    (t.relocated now id oldParent newParent oldPath newPath name x n).metadata =
      if x = id then { n.metadata with modified := now } else n.metadata := by
  unfold relocated
  dsimp only
  split_ifs <;> simp

theorem relocated_readOnly :
    (t.relocated now id oldParent newParent oldPath newPath name x n).readOnly = n.readOnly := by
  unfold relocated
  dsimp only
  split_ifs <;> simp

end Relocated

/-! ## Consistency -/

variable {t : FileTree}

/-- The moved subtree is the same after its top was listed anew: neither directory lies in it. -/
theorem subtree_relistedTree (h : t.Consistent) {id oldParent newParent : NodeId} {n : Node}
    (hn : t.node? id = some n) (hold : ¬ t.Reaches id oldParent)
    (hnew : ¬ t.Reaches id newParent) :
    (t.relistedTree id oldParent newParent).subtree id = t.subtree id := by
  rw [subtree, subtree, size_relistedTree]
  refine preorder_congr _ ?_
  intro w hw x hr
  rw [List.mem_singleton.1 hw] at hr
  rw [node?_relistedTree, Option.map_map]
  obtain ⟨m, hm⟩ := h.node_of_reaches hr hn
  rw [hm, Option.map_some, Option.map_some, Function.comp_apply, relisted_of_ne]
  · rintro rfl
    exact hold hr
  · rintro rfl
    exact hnew hr

/-- What a child of a directory is after a move. -/
theorem mem_children_relisted (h : t.Consistent) {id oldParent newParent x c : NodeId}
    {n m : Node} (hn : t.node? id = some n) (hp : n.parent = some oldParent)
    (hm : t.node? x = some m) (hdir : m.isDirectory = true) :
    c ∈ (relisted id oldParent newParent x m).children ↔
      (c = id ∧ x = newParent) ∨ (c ≠ id ∧ c ∈ m.children) := by
  have hid : id ∈ m.children ↔ x = oldParent := by
    rw [h.child_iff_parent x m hm hdir, hn]
    simp [hp, eq_comm]
  have hlisted : c ∈ (relisted id oldParent newParent x m).children ↔ if oldParent = newParent then
      c ∈ m.children else (c = id ∧ x = newParent) ∨ c ∈ m.children ∧ (x = oldParent → c ≠ id) := by
    unfold relisted
    split
    · rfl
    · rw [Node.mem_relist_append (by rwa [Node.relist_isDirectory]), Node.mem_relist_filter hdir]
  rw [hlisted]
  by_cases hc : c = id
  · subst hc
    split
    · next hpp => simp [hid, hpp]
    · simp [hid]
  · simp [hc]

theorem nodup_children_relisted (h : t.Consistent) {id oldParent newParent x : NodeId} {n m : Node}
    (hn : t.node? id = some n) (hp : n.parent = some oldParent) (hm : t.node? x = some m) :
    (relisted id oldParent newParent x m).children.Nodup := by
  have hnodup := h.children_nodup x m hm
  unfold relisted
  split
  · exact hnodup
  · next hpp =>
    refine Node.nodup_relist_append (Node.nodup_relist_filter hnodup) ?_
    rintro rfl hmem
    -- only the old directory listed the moved node
    have hne : x ≠ oldParent := fun he => hpp he.symm
    rw [Node.relist_of_ne hne] at hmem
    have hxp := h.parent_eq_of_mem_children hm hmem hn
    rw [hp, Option.some.injEq] at hxp
    exact hpp hxp

/-- The path of a node in a subtree has the path of the top in front. -/
theorem exists_front_of_mem_subtree (h : t.Consistent) {id x : NodeId} {n m : Node}
    (hn : t.node? id = some n) (hnpath : n.path ≠ "/") (hm : t.node? x = some m)
    (hx : x ∈ t.subtree id) : ∃ rest, m.path.toList = n.path.toList ++ rest := by
  rcases h.within_of_reaches ((mem_subtree h hn).1 hx) hn hm with rfl | ⟨rest, hrest⟩
  · rw [hn, Option.some.injEq] at hm
    exact ⟨[], by rw [hm, List.append_nil]⟩
  · rw [Path.stem_of_ne_root hnpath] at hrest
    exact ⟨'/' :: rest, hrest⟩

theorem rebase_join_ne_root {old path dir name : String} {rest : List Char}
    (h : path.toList = old.toList ++ rest) (hname : validName name = true) :
    rebase old (Path.join dir name) path ≠ "/" := by
  intro heq
  have hlen := congrArg (fun s => s.toList.length) heq
  have hone : "/".toList.length = 1 := rfl
  have htwo := Path.two_le_length_join (p := dir) (toList_ne_nil_of_validName hname)
  simp only [toList_rebase h, List.length_append, hone] at hlen
  omega

section Consistency

variable {now : Instant} {id oldParent newParent x c : NodeId} {n d m : Node} {name : String}

/-- The path of a node after a move, told by the subtree before it. -/
theorem relocated_path_of_consistent (h : t.Consistent) (hn : t.node? id = some n)
    (hp : n.parent = some oldParent) (hout : ¬ t.Reaches id newParent) {oldPath newPath : String} :
    (t.relocated now id oldParent newParent oldPath newPath name x m).path =
      if x ∈ t.subtree id then rebase oldPath newPath m.path else m.path := by
  rw [relocated_path, subtree_relistedTree h hn (h.not_reaches_parent hn hp) hout]

/-- The moved node has the path of its new place. -/
theorem relocated_path_self (h : t.Consistent) (hn : t.node? id = some n)
    (hp : n.parent = some oldParent) (hout : ¬ t.Reaches id newParent) {newPath : String} :
    (t.relocated now id oldParent newParent n.path newPath name id n).path = newPath := by
  rw [relocated_path_of_consistent h hn hp hout, if_pos ((mem_subtree h hn).2 (Reaches.refl id)),
    rebase_self]

/-- Every other node still has the joined path of its parent and its name. -/
theorem relocated_path_of_ne (h : t.Consistent) (hn : t.node? id = some n)
    (hp : n.parent = some oldParent) (hout : ¬ t.Reaches id newParent)
    (hname : validName name = true) (hm : t.node? x = some m) (hx : x ≠ id)
    (hq : m.parent = some c) {e : Node} (he : t.node? c = some e)
    (hpath : m.path = Path.join e.path m.name) :
    (t.relocated now id oldParent newParent n.path (Path.join d.path name) name x m).path =
      Path.join (t.relocated now id oldParent newParent n.path (Path.join d.path name) name c e).path
        m.name := by
  have hnpath : n.path ≠ "/" := fun hroot =>
    h.root_ne_of_parent hn hp ((h.path_eq_root_iff hn).1 hroot)
  have hmem : x ∈ t.subtree id ↔ c ∈ t.subtree id := by
    rw [h.mem_subtree_iff_parent hn hm hq]
    simp [hx]
  rw [relocated_path_of_consistent h hn hp hout, relocated_path_of_consistent h hn hp hout]
  by_cases hc : c ∈ t.subtree id
  · have heroot : e.path ≠ "/" := by
      intro heq
      rw [(h.path_eq_root_iff he).1 heq] at hc
      exact h.root_not_mem_subtree hn hp hc
    obtain ⟨rest, hrest⟩ := exists_front_of_mem_subtree h hn hnpath he hc
    rw [if_pos (hmem.2 hc), if_pos hc, hpath,
      rebase_join hrest heroot (rebase_join_ne_root hrest hname)]
  · rw [if_neg (fun hxin => hc (hmem.1 hxin)), if_neg hc, hpath]

/-- The nodes with a given parent after a move. -/
theorem exists_parent_relocate {oldPath newPath : String} (hn : t.node? id = some n) :
    (∃ k, (t.relocate now id oldParent newParent oldPath newPath name).node? c = some k ∧
      k.parent = some x) ↔
      (c = id ∧ x = newParent) ∨ (c ≠ id ∧ ∃ k, t.node? c = some k ∧ k.parent = some x) := by
  rw [node?_relocate]
  by_cases hc : c = id
  · subst hc
    simp [hn, relocated_parent, eq_comm]
  · simp [hc, relocated_parent]

/-- The move of a node below the root to a free name in a directory outside of its subtree keeps a
tree consistent. -/
theorem consistent_relocate (h : t.Consistent) (now : Instant) (hn : t.node? id = some n)
    (hp : n.parent = some oldParent) (hd : t.node? newParent = some d)
    (hdir : d.isDirectory = true) (hout : ¬ t.Reaches id newParent)
    (hname : validName name = true) (hfree : t.lookup? (Path.join d.path name) = none) :
    (t.relocate now id oldParent newParent n.path (Path.join d.path name) name).Consistent := by
  set g := t.relocated now id oldParent newParent n.path (Path.join d.path name) name with hg
  set t' := t.relocate now id oldParent newParent n.path (Path.join d.path name) name with ht'
  have hnew : ∀ x m, t.node? x = some m → t'.node? x = some (g x m) := by
    intro x m hm
    rw [ht', node?_relocate, hm, Option.map_some]
  have hold : ∀ x m, t'.node? x = some m → ∃ k, t.node? x = some k ∧ m = g x k := by
    intro x m hm
    rw [ht', node?_relocate] at hm
    obtain ⟨k, hk, rfl⟩ := Option.map_eq_some_iff.1 hm
    exact ⟨k, hk, rfl⟩
  have hroot : t.root ≠ id := (h.root_ne_of_parent hn hp).symm
  refine consistent_of_links ?key ?root ?below ?nodup ?child ?names ?cwd
  case key =>
    intro x m hm
    obtain ⟨k, hk, rfl⟩ := hold x m hm
    rw [hg, relocated_id, h.key_eq_id x k hk]
  case root =>
    obtain ⟨r, hr, hrp, hpath, hrdir⟩ := h.root_ok
    rw [ht', root_relocate]
    refine ⟨_, hnew _ r hr, ?_, ?_, by rw [hg, relocated_isDirectory, hrdir]⟩
    · rw [hg, relocated_parent, if_neg hroot, hrp]
    · rw [hg, relocated_path_of_consistent h hn hp hout, if_neg (h.root_not_mem_subtree hn hp),
        hpath]
  case below =>
    rw [ht', root_relocate]
    intro x m hm hx
    obtain ⟨k, hk, rfl⟩ := hold x m hm
    by_cases hxid : x = id
    · subst hxid
      rw [hn, Option.some.injEq] at hk
      subst hk
      have hdpath : (g newParent d).path = d.path := by
        rw [hg, relocated_path_of_consistent h hn hp hout, if_neg]
        rwa [mem_subtree h hn]
      refine ⟨newParent, _, by rw [hg, relocated_parent, if_pos rfl], hnew _ d hd,
        by rw [hg, relocated_isDirectory, hdir], by rw [hg, relocated_name, if_pos rfl, hname], ?_⟩
      rw [hdpath, hg, relocated_path_self h hn hp hout, relocated_name, if_pos rfl]
    · obtain ⟨q, hq⟩ := h.parent_of_ne_root hk hx
      obtain ⟨e, he, hedir, -, hpath, hvalid⟩ := h.parent_spec hk hq
      refine ⟨q, _, by rw [hg, relocated_parent, if_neg hxid, hq], hnew q e he,
        by rw [hg, relocated_isDirectory, hedir],
        by rw [hg, relocated_name, if_neg hxid, hvalid], ?_⟩
      rw [hg, relocated_path_of_ne h hn hp hout hname hk hxid hq he hpath, relocated_name,
        if_neg hxid]
  case nodup =>
    intro x m hm
    obtain ⟨k, hk, rfl⟩ := hold x m hm
    rw [hg, relocated_children]
    exact nodup_children_relisted h hn hp hk
  case child =>
    intro x m hm hmdir c
    obtain ⟨k, hk, rfl⟩ := hold x m hm
    rw [hg, relocated_isDirectory] at hmdir
    rw [ht', exists_parent_relocate hn, ← h.child_iff_parent x k hk hmdir c, hg,
      relocated_children, mem_children_relisted h hn hp hk hmdir]
  case names =>
    intro a m b m' hm hm' hpp hmp hnames
    obtain ⟨k, hk, rfl⟩ := hold a m hm
    obtain ⟨k', hk', rfl⟩ := hold b m' hm'
    rw [hg, relocated_parent, relocated_parent] at hpp
    rw [hg, relocated_parent] at hmp
    rw [hg, relocated_name, relocated_name] at hnames
    by_cases ha : a = id <;> by_cases hb : b = id
    · rw [ha, hb]
    · rw [if_pos ha, if_neg hb] at hpp hnames
      exact absurd hnames.symm (h.name_ne_of_free hd hfree hk' hpp.symm)
    · rw [if_neg ha, if_pos hb] at hpp hnames
      exact absurd hnames (h.name_ne_of_free hd hfree hk hpp)
    · rw [if_neg ha, if_neg hb] at hpp hnames
      rw [if_neg ha] at hmp
      exact h.sibling_names a k b k' hk hk' hpp hmp hnames
  case cwd =>
    obtain ⟨c, hc, hcdir⟩ := h.cwd_ok
    rw [ht', cwd_relocate]
    exact ⟨_, hnew _ c hc, by rw [hg, relocated_isDirectory, hcdir]⟩

end Consistency

end FileTree

end VirtualShell
