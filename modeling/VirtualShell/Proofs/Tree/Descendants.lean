import VirtualShell.Proofs.Tree.Acceptance
import VirtualShell.Proofs.Tree.Region
import VirtualShell.Proofs.Tree.Starter
import VirtualShell.Tree.Fresh

/-!
# Descendants

What lies beneath a node can be told by the lists of children, by the parent links and by the paths.
In an accepted tree the three agree, and the loop over the lists of children, which keeps no record of
where it has been, ends with each descendant once and in its place (`traversed_subtree`).
-/

namespace VirtualShell

namespace FileTree

variable {t : FileTree}

/-- In an accepted tree the loop behind `subtree` ends, whatever id it starts from, and gives each id
once and every parent before its children, these in their order. From a node it gives those within
the path of that node, and these are the ones from which parent links lead to it. -/
theorem traversed_subtree (hd : t.defect? = none) (a : NodeId) :
    let s := (Traversal.turn t id)^[t.nodes.size] (.start a)
    (s.pending = [] ∧ s.found t = t.subtree a) ∧
    (t.subtree a).Nodup ∧
    (∀ b ∈ t.subtree a, ∀ m, t.node? b = some m → (b :: m.children).Sublist (t.subtree a)) ∧
    ∀ n, t.node? a = some n → ∀ b,
      (b ∈ t.subtree a ↔ ∃ m, t.node? b = some m ∧ Path.isWithin m.path n.path = true) ∧
      (b ∈ t.subtree a ↔ Relation.ReflTransGen t.ParentLink b a) := by
  have h : t.Consistent := defect?_eq_none_iff.1 hd
  have hend := Traversal.pending_iterate_start h List.Perm.refl a
  refine ⟨⟨hend, Traversal.found_iterate _ _⟩, ?_⟩
  cases hn : t.node? a with
  | none => simp [subtree_of_missing hn]
  | some n =>
    refine ⟨nodup_subtree h hn, fun b hb m hm => children_sublist_subtree h hn hb hm, ?_⟩
    intro n' hn' b
    rw [Option.some.injEq] at hn'
    subst hn'
    rw [mem_subtree h hn]
    refine ⟨?_, h.reaches_iff_above⟩
    constructor
    · intro hr
      obtain ⟨m, hm⟩ := h.node_of_reaches hr hn
      exact ⟨m, hm, (h.reaches_iff_isWithin hn hm).1 hr⟩
    · rintro ⟨m, hm, hwithin⟩
      exact (h.reaches_iff_isWithin hn hm).2 hwithin

/-- In the starter layout the traversal from `/home` takes four nodes, the home directory among
them. -/
theorem traversed_subtree_of_home :
    let t := seed ⟨.still ⟨0, 0⟩, .counting⟩
    t.defect? = none ∧ ∃ a n home, t.node? a = some n ∧ n.path = "/home" ∧
      ((Traversal.turn t id)^[t.nodes.size] (.start a)).pending = [] ∧ (t.subtree a).length = 4 ∧
      (t.subtree a).Nodup ∧ t.node? home.id = some home ∧ home.path = "/home/user" ∧
      home.id ∈ t.subtree a ∧ (home.id :: home.children).Sublist (t.subtree a) := by
  intro t
  have hd : t.defect? = none := defect?_eq_none_iff.2 (consistent_seed _)
  have h : t.Consistent := consistent_seed _
  obtain ⟨hsome, hhome, hlength⟩ : (t.lookup? "/home").isSome = true ∧
      (t.lookup? "/home/user").isSome = true ∧
      (t.lookup? "/home").all (fun n => (t.subtree n.id).length == 4) = true := by
    decide
  obtain ⟨n, hn⟩ := Option.isSome_iff_exists.1 hsome
  obtain ⟨home, hhome⟩ := Option.isSome_iff_exists.1 hhome
  obtain ⟨hnode, hpath⟩ := h.lookup?_eq_some.1 hn
  obtain ⟨hnode', hpath'⟩ := h.lookup?_eq_some.1 hhome
  rw [hn, Option.all_some, beq_iff_eq] at hlength
  obtain ⟨⟨hend, -⟩, hnodup, hfollow, hwithin⟩ := traversed_subtree hd n.id
  have hmem : home.id ∈ t.subtree n.id :=
    (hwithin n hnode home.id).1.2 ⟨home, hnode', by rw [hpath, hpath']; decide⟩
  exact ⟨hd, n.id, n, home, hnode, hpath, hend, hlength, hnodup, hnode', hpath', hmem,
    hfollow home.id hmem home hnode'⟩

end FileTree

end VirtualShell
