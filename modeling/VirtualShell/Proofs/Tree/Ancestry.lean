import Mathlib.Logic.Relation
import VirtualShell.Proofs.Tree.Subtree

/-!
# Ancestors

Following the links from nodes to their parents. In a consistent tree these links are the steps to
children backwards, so that to be reached from a node and to have it above one are the same
(`Consistent.reaches_iff_above`). Each link leads to a shorter path; hence no node lies above itself
(`Consistent.not_strictlyAbove_self`).
-/

namespace VirtualShell

namespace FileTree

variable {t : FileTree}

/-- The first id names a node whose parent is the second. -/
def ParentLink (t : FileTree) (a b : NodeId) : Prop := ∃ n, t.node? a = some n ∧ n.parent = some b

/-- Parent links lead from the first id to the second, in at least one step. -/
def StrictlyAbove (t : FileTree) : NodeId → NodeId → Prop := Relation.TransGen t.ParentLink

theorem strictlyAbove_iff_parent {a b : NodeId} {n : Node} (hn : t.node? a = some n) :
    t.StrictlyAbove a b ↔ ∃ p, n.parent = some p ∧ Relation.ReflTransGen t.ParentLink p b := by
  unfold StrictlyAbove
  rw [Relation.TransGen.head'_iff]
  constructor
  · rintro ⟨p, ⟨m, hm, hp⟩, hrest⟩
    rw [hn, Option.some.injEq] at hm
    exact ⟨p, hm ▸ hp, hrest⟩
  · rintro ⟨p, hp, hrest⟩
    exact ⟨p, ⟨n, hn, hp⟩, hrest⟩

namespace Consistent

variable (h : t.Consistent)
include h

theorem reaches_of_parentLink {a b : NodeId} (hab : t.ParentLink a b) : t.Reaches b a := by
  obtain ⟨n, hn, hp⟩ := hab
  obtain ⟨d, hd, -, hmem, -⟩ := h.parent_spec hn hp
  exact Reaches.of_child hd hmem

/-- A node is reached from another if and only if the other lies above it or is the same. -/
theorem reaches_iff_above {a b : NodeId} :
    t.Reaches a b ↔ Relation.ReflTransGen t.ParentLink b a := by
  constructor
  · intro hr
    induction hr with
    | refl => exact Relation.ReflTransGen.refl
    | step _ hn hc ih =>
      obtain ⟨m, hm, hp⟩ := h.parent_of_mem_children hn hc
      exact Relation.ReflTransGen.head ⟨m, hm, hp⟩ ih
  · intro hup
    induction hup with
    | refl => exact Reaches.refl b
    | tail _ hlink ih => exact (h.reaches_of_parentLink hlink).trans ih

theorem node_of_strictlyAbove {a b : NodeId} (hab : t.StrictlyAbove a b) :
    ∃ d, t.node? b = some d := by
  unfold StrictlyAbove at hab
  rw [Relation.TransGen.tail'_iff] at hab
  obtain ⟨c, -, m, hm, hp⟩ := hab
  obtain ⟨d, hd, -⟩ := h.parent_spec hm hp
  exact ⟨d, hd⟩

/-- What lies above a node has a shorter path. -/
theorem length_lt_of_strictlyAbove {a b : NodeId} {n d : Node} (hab : t.StrictlyAbove a b)
    (hn : t.node? a = some n) (hd : t.node? b = some d) :
    d.path.toList.length < n.path.toList.length := by
  obtain ⟨p, hp, hup⟩ := (strictlyAbove_iff_parent hn).1 hab
  obtain ⟨e, he, -⟩ := h.parent_spec hn hp
  have hle := h.length_le_of_reaches (h.reaches_iff_above.2 hup) hd he
  have hlt := h.length_lt hn hp he
  omega

theorem not_strictlyAbove_self (id : NodeId) : ¬ t.StrictlyAbove id id := by
  intro hcycle
  obtain ⟨n, hn⟩ := h.node_of_strictlyAbove hcycle
  have hlt := h.length_lt_of_strictlyAbove hcycle hn hn
  omega

end Consistent

end FileTree

end VirtualShell
