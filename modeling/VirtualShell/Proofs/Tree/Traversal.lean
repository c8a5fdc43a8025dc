import Mathlib.Data.List.Nodup
import Mathlib.Logic.Function.Iterate
import VirtualShell.Proofs.Tree.WorkList

/-!
# Traversals over a work list

A traversal keeps a list of the ids that it has still to take and does not look back at those that it
has taken. A turn takes the next id and puts the children of its node in front of the others
(`Traversal.turn`). No number of turns is given beforehand: on nodes that list each other the work
would never end. In a consistent tree it does, since each turn takes one node off what the list covers
(`Traversal.pending_iterate_start`).

What a turn preserves is `Traversal.Underway`, for children in any order. A traversal from a node that
has come to its end has therefore taken what is reached from the node (`Underway.mem_taken`), each id
once and before its children (`Underway.children_follow`).
-/

namespace VirtualShell

namespace FileTree

variable {t : FileTree}

/-- The children of the node with a given id, none if there is no such node. -/
def childrenOf (t : FileTree) (id : NodeId) : List NodeId := (t.node? id).elim [] Node.children

theorem childrenOf_of_node {id : NodeId} {n : Node} (hn : t.node? id = some n) :
    t.childrenOf id = n.children := by
  rw [childrenOf, hn, Option.elim_some]

/-- A traversal under way: the ids still to take, the next one first, and those taken so far. -/
structure Traversal where
  pending : List NodeId
  taken : List NodeId
  deriving DecidableEq, Repr

namespace Traversal

/-- Before the first turn. -/
def start (a : NodeId) : Traversal := ⟨[a], []⟩

/-- One turn of the loop. The children of what is taken come next, in the order that is given. With
nothing left to take the loop is over. -/
def turn (t : FileTree) (order : List NodeId → List NodeId) (s : Traversal) : Traversal :=
  match s.pending with
  | [] => s
  | a :: rest => ⟨order (t.childrenOf a) ++ rest, s.taken ++ [a]⟩

/-- The ids taken so far that name a node. -/
def found (t : FileTree) (s : Traversal) : List NodeId :=
  s.taken.filter fun a => (t.node? a).isSome

variable {order : List NodeId → List NodeId} {s : Traversal} {a : NodeId}

theorem turn_of_pending_nil (hnil : s.pending = []) : s.turn t order = s := by
  rw [turn, hnil]

theorem turn_cons (rest taken : List NodeId) : turn t order ⟨a :: rest, taken⟩ =
    ⟨order (t.childrenOf a) ++ rest, taken ++ [a]⟩ := rfl

/-! ## What a turn preserves -/

/-- A traversal from a node that has taken part of what is reached and will take the rest. -/
structure Underway (t : FileTree) (order : List NodeId → List NodeId) (a : NodeId)
    (s : Traversal) : Prop where
  independent : t.Independent s.pending
  nodup_taken : s.taken.Nodup
  /-- What was taken is not reached again. -/
  apart : ∀ x ∈ s.taken, ¬ ∃ w ∈ s.pending, t.Reaches w x
  reaches_iff : ∀ x, t.Reaches a x ↔ x ∈ s.taken ∨ ∃ w ∈ s.pending, t.Reaches w x
  /-- Children follow their parent in the order that is given, or will do so. -/
  follow : ∀ b ∈ s.taken, (b :: order (t.childrenOf b)).Sublist (s.taken ++ s.pending)

theorem underway_start {n : Node} (hn : t.node? a = some n) : Underway t order a (start a) where
  independent := independent_singleton hn
  nodup_taken := List.nodup_nil
  apart := by simp [start]
  reaches_iff := by simp [start]
  follow := by simp [start]

section Consistent

variable (h : t.Consistent) (horder : ∀ l, (order l).Perm l)
include h horder

theorem Underway.turn (hu : Underway t order a s) : Underway t order a (s.turn t order) := by
  obtain ⟨pending, taken⟩ := s
  cases pending with
  | nil => exact hu
  | cons b rest =>
    obtain ⟨n, hn⟩ := hu.independent.exist b List.mem_cons_self
    have hperm : (order n.children ++ rest).Perm (n.children ++ rest) :=
      (horder n.children).append_right rest
    have hcovers : ∀ x, (∃ w ∈ order n.children ++ rest, t.Reaches w x) ↔
        ∃ w ∈ n.children ++ rest, t.Reaches w x := by
      intro x
      simp only [hperm.mem_iff]
    rw [turn_cons, childrenOf_of_node hn]
    refine ⟨(hu.independent.step h hn).perm hperm, ?nodup, ?apart, ?reaches, ?follow⟩
    case nodup =>
      have hb : b ∉ taken := fun hb => hu.apart b hb ⟨b, List.mem_cons_self, Reaches.refl b⟩
      exact hu.nodup_taken.append (List.nodup_singleton b) (List.disjoint_singleton.2 hb)
    case apart =>
      intro x hx
      rw [hcovers]
      rcases List.mem_append.1 hx with hx | hx
      · exact fun hw => hu.apart x hx ((exists_reaches_cons hn).2 (Or.inr hw))
      · rw [List.mem_singleton.1 hx]
        exact not_reaches_step h hu.independent hn
    case reaches =>
      intro x
      rw [hu.reaches_iff x, exists_reaches_cons hn, hcovers, List.mem_append, List.mem_singleton,
        or_assoc]
    case follow =>
      intro c hc
      rcases List.mem_append.1 hc with hc | hc
      · refine (hu.follow c hc).trans ?_
        simp
      · rw [List.mem_singleton.1 hc, childrenOf_of_node hn]
        simp

theorem Underway.iterate (hu : Underway t order a s) (k : Nat) :
    Underway t order a ((Traversal.turn t order)^[k] s) := by
  induction k generalizing s with
  | zero => exact hu
  | succ k ih =>
    rw [Function.iterate_succ_apply]
    exact ih (hu.turn h horder)

/-- As many turns as the work list covers nodes bring the traversal to its end. The induction is on
the number of turns; each takes one node off what is covered. -/
theorem Underway.pending_iterate {k : Nat} (hu : Underway t order a s)
    (hk : (t.covered s.pending).card ≤ k) : ((Traversal.turn t order)^[k] s).pending = [] := by
  induction k generalizing s with
  | zero => exact hu.independent.eq_nil_of_card_covered (Nat.le_zero.1 hk)
  | succ k ih =>
    rw [Function.iterate_succ_apply]
    refine ih (hu.turn h horder) ?_
    obtain ⟨pending, taken⟩ := s
    cases pending with
    | nil => simp [Traversal.turn, covered]
    | cons b rest =>
      obtain ⟨n, hn⟩ := hu.independent.exist b List.mem_cons_self
      have hcard := card_covered_cons h hu.independent hn
      have hk : (t.covered (b :: rest)).card ≤ k + 1 := hk
      rw [turn_cons, childrenOf_of_node hn, covered_perm ((horder n.children).append_right rest)]
      omega

/-- From whatever id it starts, a traversal ends after as many turns as there are nodes. -/
theorem pending_iterate_start (a : NodeId) :
    ((Traversal.turn t order)^[t.nodes.size] (start a)).pending = [] := by
  cases hn : t.node? a with
  | some n => exact (underway_start hn).pending_iterate h horder (card_covered_le _)
  | none =>
    obtain ⟨r, hr, -⟩ := h.root_ok
    have hpos : 0 < t.nodes.size := by
      rw [← length_ids]
      exact List.length_pos_of_mem (mem_ids.2 ⟨r, hr⟩)
    -- the only turn takes the id that names no node
    have hturn : (start a).turn t order = ⟨[], [a]⟩ := by
      rw [start, turn_cons, childrenOf, hn, Option.elim_none, (horder []).eq_nil]
      rfl
    rw [← Nat.succ_pred_eq_of_pos hpos, Function.iterate_succ_apply, hturn,
      Function.iterate_fixed (turn_of_pending_nil rfl)]

end Consistent

/-! ## At the end -/

section Finished

variable (hu : Underway t order a s) (hnil : s.pending = [])
include hu hnil

theorem Underway.mem_taken {x : NodeId} : x ∈ s.taken ↔ t.Reaches a x := by
  rw [hu.reaches_iff, hnil]
  simp

theorem Underway.children_follow {b : NodeId} (hb : b ∈ s.taken) :
    (b :: order (t.childrenOf b)).Sublist s.taken := by
  have hfollow := hu.follow b hb
  rwa [hnil, List.append_nil] at hfollow

end Finished

/-- From the root every node is taken once. -/
theorem Underway.taken_perm (h : t.Consistent) (hu : Underway t order t.root s)
    (hnil : s.pending = []) : s.taken.Perm t.ids := by
  obtain ⟨r, hr, -⟩ := h.root_ok
  refine (List.perm_ext_iff_of_nodup hu.nodup_taken t.nodes.nodup_keys).2 fun x => ?_
  rw [hu.mem_taken hnil]
  constructor
  · intro hx
    exact mem_ids.2 (h.node_of_reaches hx hr)
  · intro hx
    obtain ⟨n, hn⟩ := mem_ids.1 hx
    exact h.reachable x n hn

/-- From an existing node nothing is taken that names no node. -/
theorem Underway.found_eq_taken (h : t.Consistent) {n : Node} (hn : t.node? a = some n)
    (hu : Underway t order a s) : s.found t = s.taken := by
  refine List.filter_eq_self.2 fun x hx => ?_
  obtain ⟨m, hm⟩ := h.node_of_reaches ((hu.reaches_iff x).2 (Or.inl hx)) hn
  rw [hm, Option.isSome_some]

end Traversal

end FileTree

end VirtualShell
