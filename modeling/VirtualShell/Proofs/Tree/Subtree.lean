import VirtualShell.Proofs.Tree.Traversal

/-!
# The subtree of a node

`preorder` is a traversal with a bound on its turns (`Traversal.found_iterate`). In a consistent tree
the bound of `subtree` is never met, so that it lists the nodes that are reached from a node, each once
(`nodup_subtree`, `mem_subtree`) and before its children (`children_sublist_subtree`). The walk reads
nothing of a node but its children, and nothing of the nodes that it does not reach (`preorder_congr`).
-/

namespace VirtualShell

namespace FileTree

variable {t : FileTree}

/-- What a number of turns finds is what the bounded walk visits in as many steps. -/
theorem Traversal.found_iterate (k : Nat) (s : Traversal) :
    ((turn t id)^[k] s).found t = s.found t ++ t.preorder k s.pending := by
  induction k generalizing s with
  | zero => simp [preorder]
  | succ k ih =>
    obtain ⟨pending, taken⟩ := s
    rw [Function.iterate_succ_apply, ih]
    cases pending with
    | nil => cases k <;> rfl
    | cons a rest =>
      cases hn : t.node? a with
      | none => simp [turn, found, childrenOf, preorder, hn]
      | some n => simp [turn, found, childrenOf, preorder, hn]

/-- In a consistent tree the bounded walk from a node visits what as many turns take. -/
theorem preorder_eq_taken (h : t.Consistent) {a : NodeId} {n : Node} (hn : t.node? a = some n)
    (k : Nat) : t.preorder k [a] = ((Traversal.turn t id)^[k] (.start a)).taken := by
  have hu : Traversal.Underway t id a ((Traversal.turn t id)^[k] (.start a)) :=
    (Traversal.underway_start hn).iterate h List.Perm.refl k
  rw [← hu.found_eq_taken h hn, Traversal.found_iterate]
  rfl

theorem nodup_subtree (h : t.Consistent) {id : NodeId} {n : Node} (hn : t.node? id = some n) :
    (t.subtree id).Nodup := by
  rw [subtree, preorder_eq_taken h hn]
  exact ((Traversal.underway_start hn).iterate h List.Perm.refl _).nodup_taken

/-- The subtree of a node holds what is reached from it. -/
theorem mem_subtree (h : t.Consistent) {id : NodeId} {n : Node} (hn : t.node? id = some n)
    {x : NodeId} : x ∈ t.subtree id ↔ t.Reaches id x := by
  rw [subtree, preorder_eq_taken h hn]
  exact ((Traversal.underway_start hn).iterate h List.Perm.refl _).mem_taken
    (Traversal.pending_iterate_start h List.Perm.refl id)

/-- Behind a node its children follow in their order. -/
theorem children_sublist_subtree (h : t.Consistent) {a b : NodeId} {n m : Node}
    (hn : t.node? a = some n) (hb : b ∈ t.subtree a) (hm : t.node? b = some m) :
    (b :: m.children).Sublist (t.subtree a) := by
  rw [subtree, preorder_eq_taken h hn] at hb ⊢
  have hu : Traversal.Underway t id a ((Traversal.turn t id)^[t.nodes.size] (.start a)) :=
    (Traversal.underway_start hn).iterate h List.Perm.refl _
  have hfollow := hu.children_follow (Traversal.pending_iterate_start h List.Perm.refl a) hb
  rwa [childrenOf_of_node hm] at hfollow

theorem subtree_of_missing {a : NodeId} (hn : t.node? a = none) : t.subtree a = [] := by
  rw [subtree]
  cases t.nodes.size with
  | zero => rfl
  | succ k => cases k <;> simp [preorder, hn]

/-- Two trees that agree on the children of all that a work list reaches are walked alike. -/
theorem preorder_congr {t' : FileTree} (fuel : Nat) {work : List NodeId}
    (heq : ∀ w ∈ work, ∀ x, t.Reaches w x →
      (t'.node? x).map Node.children = (t.node? x).map Node.children) :
    t'.preorder fuel work = t.preorder fuel work := by
  induction fuel generalizing work with
  | zero => rfl
  | succ fuel ih =>
    cases work with
    | nil => rfl
    | cons id work =>
      have hid := heq id List.mem_cons_self id (Reaches.refl id)
      have hwork : ∀ w ∈ work, ∀ x, t.Reaches w x →
          (t'.node? x).map Node.children = (t.node? x).map Node.children :=
        fun w hw => heq w (List.mem_cons_of_mem _ hw)
      cases hn : t.node? id with
      | none =>
        rw [hn, Option.map_none, Option.map_eq_none_iff] at hid
        simp only [preorder, hn, hid]
        exact ih hwork
      | some n =>
        rw [hn, Option.map_some, Option.map_eq_some_iff] at hid
        obtain ⟨n', hn', hchildren⟩ := hid
        simp only [preorder, hn, hn', hchildren]
        refine congrArg (id :: ·) (ih ?_)
        intro w hw x hr
        rcases List.mem_append.1 hw with hw | hw
        · exact heq id List.mem_cons_self x ((Reaches.of_child hn hw).trans hr)
        · exact hwork w hw x hr

end FileTree

end VirtualShell
