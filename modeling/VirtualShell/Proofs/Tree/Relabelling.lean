import Mathlib.Logic.Equiv.Basic
import VirtualShell.Proofs.Tree.Evolution

/-!
# Other ids

A tree with other ids: a permutation of all ids is applied to the keys of the nodes, to the ids in
the nodes, and to those of the root and the current directory. No operation looks into an id, so
that each does the same to the relabelled tree: it finds the relabelled nodes, is refused for the
same reason, or leaves the relabelled result (`lookup?_relabel`, `delete_relabel`, `moveAs_relabel`
and so on). The ids of new nodes come from outside; what becomes of two trees then is in the next
module.
-/

namespace VirtualShell

open Calendar

/-! ## Maps -/

namespace OrderedMap

variable {κ ν : Type}

/-- Applies a permutation to the keys and a function to the values. -/
def relabel (σ : Equiv.Perm κ) (f : ν → ν) (m : OrderedMap κ ν) : OrderedMap κ ν where
  entries := m.entries.map fun e => (σ e.1, f e.2)
  nodup_keys := by
    have h : (m.entries.map fun e => (σ e.1, f e.2)).map Prod.fst =
        (m.entries.map Prod.fst).map σ := by
      simp
    rw [h]
    exact m.nodup_keys.map σ.injective

variable (σ : Equiv.Perm κ) (f : ν → ν) (m : OrderedMap κ ν)

@[simp] theorem keys_relabel : (m.relabel σ f).keys = m.keys.map σ := by
  simp [relabel, keys]

@[simp] theorem values_relabel : (m.relabel σ f).values = m.values.map f := by
  simp [relabel, values]

@[simp] theorem size_relabel : (m.relabel σ f).size = m.size := by
  simp [relabel, size]

variable {σ f m}

theorem relabel_congr {τ : Equiv.Perm κ} {g : ν → ν}
    (h : ∀ e ∈ m.entries, σ e.1 = τ e.1 ∧ f e.2 = g e.2) : m.relabel σ f = m.relabel τ g := by
  apply eq_of_entries_eq
  apply List.map_congr_left
  intro e he
  obtain ⟨hkey, hvalue⟩ := h e he
  rw [hkey, hvalue]

theorem mapValues_relabel {g g' : κ → ν → ν} (h : ∀ k v, g' (σ k) (f v) = f (g k v)) :
    (m.relabel σ f).mapValues g' = (m.mapValues g).relabel σ f := by
  apply eq_of_entries_eq
  simp [mapValues, relabel, h]

theorem filterKeys_relabel {keep keep' : κ → Bool} (h : ∀ k, keep' (σ k) = keep k) :
    (m.relabel σ f).filterKeys keep' = (m.filterKeys keep).relabel σ f := by
  apply eq_of_entries_eq
  simp only [filterKeys, relabel, List.filter_map]
  congr 1
  apply List.filter_congr
  intro e _
  exact h e.1

variable [DecidableEq κ]

theorem get?_relabel (k : κ) : (m.relabel σ f).get? (σ k) = (m.get? k).map f := by
  simp only [get?, relabel, List.find?_map, Option.map_map]
  have hsame : ((fun e : κ × ν => decide (e.1 = σ k)) ∘ fun e : κ × ν => (σ e.1, f e.2)) =
      fun e => decide (e.1 = k) := by
    funext e
    simp
  rw [hsame]
  rfl

theorem modify_relabel {k : κ} {g g' : ν → ν} (h : ∀ v, g' (f v) = f (g v)) :
    (m.relabel σ f).modify (σ k) g' = (m.modify k g).relabel σ f := by
  apply mapValues_relabel
  intro j v
  by_cases hj : j = k
  · simp [hj, h]
  · simp [hj]

theorem insertNew_relabel (k : κ) (v : ν) :
    (m.relabel σ f).insertNew (σ k) (f v) = (m.insertNew k v).relabel σ f := by
  have hmem : σ k ∈ (m.relabel σ f).entries.map Prod.fst ↔ k ∈ m.entries.map Prod.fst := by
    have hkeys := keys_relabel σ f m
    unfold keys at hkeys
    rw [hkeys, List.mem_map_of_injective σ.injective]
  unfold insertNew
  by_cases hk : k ∈ m.entries.map Prod.fst
  · rw [dif_pos hk, dif_pos (hmem.2 hk)]
  · rw [dif_neg hk, dif_neg (fun h => hk (hmem.1 h))]
    apply eq_of_entries_eq
    simp [append, relabel]

end OrderedMap

/-! ## Nodes -/

/-- The same content with other ids of the children. -/
def Content.relabel (σ : Equiv.Perm NodeId) : Content → Content
  | .file text => .file text
  | .directory children => .directory (children.map σ)

namespace Node

/-- The same node with other ids. -/
def relabel (σ : Equiv.Perm NodeId) (n : Node) : Node :=
  { n with id := σ n.id, parent := n.parent.map σ, content := n.content.relabel σ }

section

variable (σ : Equiv.Perm NodeId) (n : Node)

@[simp] theorem relabel_id : (n.relabel σ).id = σ n.id := rfl

@[simp] theorem relabel_name : (n.relabel σ).name = n.name := rfl

@[simp] theorem relabel_path : (n.relabel σ).path = n.path := rfl

@[simp] theorem relabel_parent : (n.relabel σ).parent = n.parent.map σ := rfl

@[simp] theorem relabel_metadata : (n.relabel σ).metadata = n.metadata := rfl

@[simp] theorem relabel_readOnly : (n.relabel σ).readOnly = n.readOnly := rfl

@[simp] theorem relabel_isHidden : (n.relabel σ).isHidden = n.isHidden := rfl

@[simp] theorem relabel_isDirectory : (n.relabel σ).isDirectory = n.isDirectory := by
  unfold isDirectory
  cases h : n.content <;> simp [relabel, Content.relabel, h]

@[simp] theorem relabel_isFile : (n.relabel σ).isFile = n.isFile := by
  simp [isFile]

@[simp] theorem relabel_text? : (n.relabel σ).text? = n.text? := by
  unfold text?
  cases h : n.content <;> simp [relabel, Content.relabel, h]

@[simp] theorem relabel_children : (n.relabel σ).children = n.children.map σ := by
  unfold children
  cases h : n.content <;> simp [relabel, Content.relabel, h]

end

variable {σ τ : Equiv.Perm NodeId} {n : Node}

theorem mapChildren_relabel {f f' : List NodeId → List NodeId}
    (h : ∀ ids : List NodeId, f' (ids.map σ) = (f ids).map σ) :
    (n.relabel σ).mapChildren f' = (n.mapChildren f).relabel σ := by
  unfold mapChildren
  cases hc : n.content <;> simp [relabel, Content.relabel, hc, h]

theorem relabel_congr (hid : σ n.id = τ n.id) (hparent : ∀ p, n.parent = some p → σ p = τ p)
    (hchildren : ∀ c ∈ n.children, σ c = τ c) : n.relabel σ = n.relabel τ := by
  have hcontent : n.content.relabel σ = n.content.relabel τ := by
    cases hc : n.content with
    | file text => rfl
    | directory ids =>
      have hids : ids.map σ = ids.map τ := by
        apply List.map_congr_left
        intro c hmem
        exact hchildren c (by simpa [children, hc] using hmem)
      simp [Content.relabel, hids]
  have hmap : n.parent.map σ = n.parent.map τ := by
    cases hp : n.parent with
    | none => rfl
    | some p => simp [hparent p hp]
  unfold relabel
  rw [hid, hmap, hcontent]

end Node

/-! ## Trees -/

namespace FileTree

/-- The same tree with other ids. -/
def relabel (σ : Equiv.Perm NodeId) (t : FileTree) : FileTree where
  nodes := t.nodes.relabel σ (·.relabel σ)
  root := σ t.root
  cwd := σ t.cwd

variable (σ : Equiv.Perm NodeId) (t : FileTree)

@[simp] theorem node?_relabel (id : NodeId) :
    (t.relabel σ).node? (σ id) = (t.node? id).map (·.relabel σ) :=
  OrderedMap.get?_relabel id

@[simp] theorem ids_relabel : (t.relabel σ).ids = t.ids.map σ :=
  OrderedMap.keys_relabel σ _ t.nodes

@[simp] theorem allNodes_relabel : (t.relabel σ).allNodes = t.allNodes.map (·.relabel σ) :=
  OrderedMap.values_relabel σ _ t.nodes

/-! ### Reading -/

@[simp] theorem currentDirectory_relabel :
    (t.relabel σ).currentDirectory = t.currentDirectory := by
  have hnode : (t.relabel σ).node? (t.relabel σ).cwd = (t.node? t.cwd).map (·.relabel σ) :=
    node?_relabel σ t t.cwd
  unfold currentDirectory
  rw [hnode]
  cases t.node? t.cwd <;> rfl

@[simp] theorem resolve_relabel (input : String) :
    (t.relabel σ).resolve input = t.resolve input := by
  simp [resolve]

@[simp] theorem lookup?_relabel (path : String) :
    (t.relabel σ).lookup? path = (t.lookup? path).map (·.relabel σ) := by
  rw [lookup?, allNodes_relabel, List.find?_map]
  rfl

@[simp] theorem find?_relabel (input : String) :
    (t.relabel σ).find? input = (t.find? input).map (·.relabel σ) := by
  simp [find?]

theorem filterMap_node?_relabel (ids : List NodeId) :
    (ids.map σ).filterMap (t.relabel σ).node? = (ids.filterMap t.node?).map (·.relabel σ) := by
  rw [List.filterMap_map, List.map_filterMap]
  apply List.filterMap_congr
  intro id _
  exact node?_relabel σ t id

theorem childNodes_relabel (n : Node) :
    (t.relabel σ).childNodes (n.relabel σ) = (t.childNodes n).map (·.relabel σ) := by
  rw [childNodes, Node.relabel_children, filterMap_node?_relabel]
  rfl

theorem read_relabel (path : String) : (t.relabel σ).read path = t.read path := by
  unfold read
  rw [find?_relabel, resolve_relabel]
  cases t.find? path with
  | none => rfl
  | some n => cases hc : n.content <;> simp [Node.relabel, Content.relabel, hc]

/-- The walk beneath a node reads the links alone. -/
theorem preorder_relabel (fuel : Nat) (work : List NodeId) :
    (t.relabel σ).preorder fuel (work.map σ) = (t.preorder fuel work).map σ := by
  induction fuel generalizing work with
  | zero => rfl
  | succ fuel ih =>
    cases work with
    | nil => rfl
    | cons id work =>
      rw [List.map_cons, preorder, preorder, node?_relabel]
      cases t.node? id with
      | none => exact ih work
      | some n =>
        have hwork : (n.relabel σ).children ++ work.map σ = (n.children ++ work).map σ := by
          simp
        simp only [Option.map_some, List.map_cons]
        rw [hwork, ih]

@[simp] theorem subtree_relabel (id : NodeId) :
    (t.relabel σ).subtree (σ id) = (t.subtree id).map σ := by
  have hsize : (t.relabel σ).nodes.size = t.nodes.size := OrderedMap.size_relabel σ _ t.nodes
  rw [subtree, subtree, hsize, ← preorder_relabel]
  rfl

theorem missingBelow_relabel (current : String) (names : List String) :
    (t.relabel σ).missingBelow current names = t.missingBelow current names := by
  induction names generalizing current with
  | nil => rfl
  | cons name names ih =>
    rw [missingBelow, missingBelow, lookup?_relabel]
    cases t.lookup? (Path.join current name) with
    | none => rfl
    | some n => simp [ih]

/-! ### Changing nodes -/

variable {σ t}

theorem modifyNode_relabel {id : NodeId} {f f' : Node → Node}
    (h : ∀ n, f' (n.relabel σ) = (f n).relabel σ) :
    (t.relabel σ).modifyNode (σ id) f' = (t.modifyNode id f).relabel σ := by
  have hnodes : (t.nodes.relabel σ (·.relabel σ)).modify (σ id) f' =
      (t.nodes.modify id f).relabel σ (·.relabel σ) := OrderedMap.modify_relabel h
  unfold modifyNode relabel
  rw [hnodes]

theorem filter_ne_relabel (id : NodeId) (ids : List NodeId) :
    (ids.map σ).filter (· ≠ σ id) = (ids.filter (· ≠ id)).map σ := by
  rw [List.filter_map]
  congr 1
  apply List.filter_congr
  intro x _
  simp

theorem contains_relabel (id : NodeId) (ids : List NodeId) :
    (ids.map σ).contains (σ id) = ids.contains id := by
  simp [List.contains_eq_mem, σ.injective.eq_iff]

theorem detach_relabel (parent id : NodeId) :
    (t.relabel σ).detach (σ parent) (σ id) = (t.detach parent id).relabel σ := by
  have hfilter : (t.relabel σ).nodes.filterKeys
      (fun k => !((t.subtree id).map σ).contains k) =
        (t.nodes.filterKeys fun k => !(t.subtree id).contains k).relabel σ (·.relabel σ) := by
    apply OrderedMap.filterKeys_relabel
    intro k
    rw [contains_relabel]
  have hcwd : ((t.subtree id).map σ).contains (t.relabel σ).cwd =
      (t.subtree id).contains t.cwd := contains_relabel t.cwd _
  unfold detach
  rw [subtree_relabel]
  dsimp only
  rw [hfilter, hcwd, OrderedMap.modify_relabel]
  · unfold relabel
    dsimp only
    rw [apply_ite σ]
  · intro n
    exact Node.mapChildren_relabel (filter_ne_relabel id)

theorem relistedTree_relabel (id oldParent newParent : NodeId) :
    (t.relabel σ).relistedTree (σ id) (σ oldParent) (σ newParent) =
      (t.relistedTree id oldParent newParent).relabel σ := by
  unfold relistedTree
  by_cases hsame : oldParent = newParent
  · rw [if_pos hsame, if_pos (congrArg σ hsame)]
  · rw [if_neg hsame, if_neg (fun h => hsame (σ.injective h))]
    have hout : (t.relabel σ).modifyNode (σ oldParent) (·.mapChildren (·.filter (· ≠ σ id))) =
        (t.modifyNode oldParent (·.mapChildren (·.filter (· ≠ id)))).relabel σ :=
      modifyNode_relabel fun n => Node.mapChildren_relabel (filter_ne_relabel id)
    rw [hout]
    apply modifyNode_relabel
    intro n
    apply Node.mapChildren_relabel
    intro ids
    simp

theorem relocate_relabel {now : Instant} {id oldParent newParent : NodeId}
    {oldPath newPath name : String} :
    (t.relabel σ).relocate now (σ id) (σ oldParent) (σ newParent) oldPath newPath name =
      (t.relocate now id oldParent newParent oldPath newPath name).relabel σ := by
  have hlisted : (t.relabel σ).relistedTree (σ id) (σ oldParent) (σ newParent) =
      (t.relistedTree id oldParent newParent).relabel σ :=
    relistedTree_relabel id oldParent newParent
  unfold relistedTree at hlisted
  unfold relocate
  rw [hlisted]
  generalize (if oldParent = newParent then t
    else (t.modifyNode oldParent (·.mapChildren (·.filter (· ≠ id)))).modifyNode newParent
      (·.mapChildren (· ++ [id]))) = listed
  dsimp only
  rw [subtree_relabel]
  unfold relabel
  dsimp only
  rw [OrderedMap.mapValues_relabel]
  intro k n
  rw [contains_relabel]
  by_cases hk : k = id
  · subst hk
    cases (listed.subtree k).contains k <;> simp [Node.relabel]
  · have hk' : ¬ σ k = σ id := fun h => hk (σ.injective h)
    cases (listed.subtree id).contains k <;> simp [Node.relabel, hk, hk']

/-! ### Operations without new nodes -/

theorem changeDirectory_relabel (path : String) :
    (t.relabel σ).changeDirectory path = relabel σ <$> t.changeDirectory path := by
  unfold changeDirectory
  rw [find?_relabel, resolve_relabel]
  cases t.find? path with
  | none => rfl
  | some n =>
    rw [Option.map_some]
    dsimp only
    rw [Node.relabel_isDirectory]
    cases n.isDirectory <;> rfl

theorem delete_relabel (path : String) : (t.relabel σ).delete path =
    (fun r => (r.1.relabel σ, r.2)) <$> t.delete path := by
  unfold delete
  rw [find?_relabel, resolve_relabel]
  cases t.find? path with
  | none => rfl
  | some n =>
    rw [Option.map_some]
    dsimp only
    rw [Node.relabel_parent]
    cases n.parent with
    | none => rfl
    | some parent =>
      rw [Option.map_some]
      dsimp only
      rw [Node.relabel_id, subtree_relabel, filterMap_node?_relabel, List.find?_map,
        detach_relabel, List.length_map]
      -- whether a node is read-only does not depend on its id
      have hlocked : (Node.readOnly ∘ fun n : Node => n.relabel σ) = Node.readOnly := rfl
      rw [hlocked]
      cases ((t.subtree n.id).filterMap t.node?).find? Node.readOnly <;> rfl

variable {s s' : Supply} (hnow : s'.now = s.now)
include hnow

theorem moveAs_relabel (source dest name : String) :
    (t.relabel σ).moveAs s' source dest name = relabel σ <$> t.moveAs s source dest name := by
  unfold moveAs
  simp only [resolve_relabel, lookup?_relabel, hnow]
  cases t.lookup? (t.resolve source) with
  | none => rfl
  | some n =>
    simp only [Option.map_some, Node.relabel_parent, Node.relabel_id]
    rw [Node.relabel_readOnly]
    cases n.parent with
    | none => rfl
    | some oldParent =>
      dsimp only [Option.map_some]
      cases n.readOnly with
      | true => rfl
      | false =>
        cases validName name with
        | false => rfl
        | true =>
          cases t.lookup? (t.resolve dest) with
          | none => rfl
          | some d =>
            simp only [Option.map_some, Node.relabel_isDirectory, Node.relabel_id,
              Option.isSome_map, relocate_relabel]
            split_ifs <;> rfl

theorem move_relabel (source dest : String) :
    (t.relabel σ).move s' source dest = relabel σ <$> t.move s source dest := by
  unfold move
  simp only [resolve_relabel, lookup?_relabel]
  cases t.lookup? (t.resolve source) with
  | none => rfl
  | some n =>
    simp only [Option.map_some, Node.relabel_parent, Option.isNone_map, Node.relabel_name]
    split_ifs
    · rfl
    · exact moveAs_relabel hnow _ _ _

theorem rename_relabel (path name : String) :
    (t.relabel σ).rename s' path name = relabel σ <$> t.rename s path name := by
  unfold rename
  rw [resolve_relabel]
  exact moveAs_relabel hnow _ _ _

theorem write_relabel (path text : String) :
    (t.relabel σ).write s' path text = relabel σ <$> t.write s path text := by
  unfold write
  simp only [resolve_relabel, lookup?_relabel, hnow]
  cases t.lookup? (t.resolve path) with
  | none => rfl
  | some n =>
    simp only [Option.map_some, Node.relabel_isFile, Node.relabel_id]
    rw [Node.relabel_readOnly]
    split_ifs
    · rfl
    · rfl
    · exact congrArg Except.ok (modifyNode_relabel fun _ => rfl)

theorem touch_relabel (path : String) :
    (t.relabel σ).touch s' path = relabel σ <$> t.touch s path := by
  unfold touch
  simp only [resolve_relabel, lookup?_relabel, hnow]
  cases t.lookup? (t.resolve path) with
  | none => rfl
  | some n =>
    simp only [Option.map_some, Node.relabel_id]
    rw [Node.relabel_readOnly]
    split_ifs
    · rfl
    · exact congrArg Except.ok (modifyNode_relabel fun _ => rfl)

end FileTree

end VirtualShell
