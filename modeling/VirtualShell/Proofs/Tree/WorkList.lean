import Mathlib.Data.Finset.Card
import Mathlib.Data.Finset.Image
import VirtualShell.Proofs.Tree.Links

/-!
# Work lists

A work list holds the nodes that a walk down the tree has still to visit. In a consistent tree paths
become longer on the way down, so that two nodes which reach each other are one
(`Consistent.reaches_antisymm`). When the first node of a list is visited its children take its place,
and no node of the new list reaches another if none did so before (`Independent.step`). What the list
covers has become less by the visited node (`card_covered_cons`).
-/

namespace VirtualShell

namespace FileTree

variable {t : FileTree}

namespace Consistent

variable (h : t.Consistent)
include h

theorem length_le_of_reaches {a b : NodeId} {n m : Node} (hr : t.Reaches a b)
    (hn : t.node? a = some n) (hm : t.node? b = some m) :
    n.path.toList.length ≤ m.path.toList.length := by
  induction hr generalizing m with
  | refl =>
    rw [hn, Option.some.injEq] at hm
    rw [hm]
  | step _ he hc ih =>
    have hp := h.parent_eq_of_mem_children he hc hm
    exact Nat.le_of_lt (Nat.lt_of_le_of_lt (ih he) (h.length_lt hm hp he))

/-- No node reaches its parent: paths become longer on the way down. -/
theorem not_reaches_parent {a p : NodeId} {n : Node} (hn : t.node? a = some n)
    (hp : n.parent = some p) : ¬ t.Reaches a p := by
  intro hr
  obtain ⟨d, hd, -⟩ := h.parent_spec hn hp
  have hle := h.length_le_of_reaches hr hn hd
  have hlt := h.length_lt hn hp hd
  omega

/-- Two nodes that reach each other are one. -/
theorem reaches_antisymm {a b : NodeId} {n : Node} (hn : t.node? a = some n)
    (hab : t.Reaches a b) (hba : t.Reaches b a) : a = b := by
  obtain ⟨m, hm⟩ := h.node_of_reaches hab hn
  cases hp : m.parent with
  | none =>
    have hb := h.eq_root_of_parent_eq_none hm hp
    cases hn' : n.parent with
    | none => rw [hb, h.eq_root_of_parent_eq_none hn hn']
    | some p =>
      rcases h.reaches_parent hba hn hn' with rfl | hbp
      · rfl
      · exact absurd (hab.trans hbp) (h.not_reaches_parent hn hn')
  | some p =>
    rcases h.reaches_parent hab hm hp with rfl | hap
    · rfl
    · exact absurd (hba.trans hap) (h.not_reaches_parent hm hp)

/-- Siblings do not reach each other. -/
theorem eq_of_reaches_sibling {a b p : NodeId} {n m : Node} (hn : t.node? a = some n)
    (hp : n.parent = some p) (hm : t.node? b = some m) (hp' : m.parent = some p)
    (hr : t.Reaches a b) : a = b := by
  rcases h.reaches_parent hr hm hp' with rfl | hap
  · rfl
  · exact absurd hap (h.not_reaches_parent hn hp)

end Consistent

/-! ## Lists of nodes apart from each other -/

/-- A work list of nodes none of which reaches another. -/
structure Independent (t : FileTree) (work : List NodeId) : Prop where
  exist : ∀ w ∈ work, ∃ n, t.node? w = some n
  nodup : work.Nodup
  apart : ∀ a ∈ work, ∀ b ∈ work, t.Reaches a b → a = b

theorem independent_singleton {id : NodeId} {n : Node} (hn : t.node? id = some n) :
    t.Independent [id] where
  exist := by
    intro w hw
    rw [List.mem_singleton.1 hw]
    exact ⟨n, hn⟩
  nodup := List.nodup_singleton id
  apart := by
    intro a ha b hb _
    rw [List.mem_singleton.1 ha, List.mem_singleton.1 hb]

theorem Independent.perm {work work' : List NodeId} (hi : t.Independent work)
    (hp : work'.Perm work) : t.Independent work' where
  exist := fun w hw => hi.exist w (hp.mem_iff.1 hw)
  nodup := hp.nodup_iff.2 hi.nodup
  apart := fun a ha b hb => hi.apart a (hp.mem_iff.1 ha) b (hp.mem_iff.1 hb)

/-- One step of the walk keeps the work list independent: the children of the first node take its
place. -/
theorem Independent.step (h : t.Consistent) {id : NodeId} {work : List NodeId} {n : Node}
    (hi : t.Independent (id :: work)) (hn : t.node? id = some n) :
    t.Independent (n.children ++ work) := by
  have hchild : ∀ c ∈ n.children, ∃ m, t.node? c = some m ∧ m.parent = some id :=
    fun c hc => h.parent_of_mem_children hn hc
  have hapart : ∀ c ∈ n.children, ∀ w ∈ work, ¬ t.Reaches c w ∧ ¬ t.Reaches w c := by
    intro c hc w hw
    have hne : id ≠ w := by
      rintro rfl
      exact (List.nodup_cons.1 hi.nodup).1 hw
    have hnot : ¬ t.Reaches id w := fun hr =>
      hne (hi.apart id List.mem_cons_self w (List.mem_cons_of_mem _ hw) hr)
    have hnot' : ¬ t.Reaches w id := fun hr =>
      hne (hi.apart w (List.mem_cons_of_mem _ hw) id List.mem_cons_self hr).symm
    refine ⟨fun hr => hnot ((Reaches.of_child hn hc).trans hr), fun hr => ?_⟩
    obtain ⟨m, hm, hp⟩ := hchild c hc
    rcases h.reaches_parent hr hm hp with rfl | hwi
    · exact hnot (Reaches.of_child hn hc)
    · exact hnot' hwi
  refine ⟨?_, ?_, ?_⟩
  · intro w hw
    rcases List.mem_append.1 hw with hw | hw
    · obtain ⟨m, hm, -⟩ := hchild w hw
      exact ⟨m, hm⟩
    · exact hi.exist w (List.mem_cons_of_mem _ hw)
  · refine List.nodup_append.2 ⟨h.children_nodup id n hn, (List.nodup_cons.1 hi.nodup).2, ?_⟩
    rintro c hc w hw rfl
    exact (hapart c hc c hw).1 (Reaches.refl c)
  · intro a ha b hb hr
    rcases List.mem_append.1 ha with ha | ha <;> rcases List.mem_append.1 hb with hb | hb
    · obtain ⟨m, hm, hp⟩ := hchild a ha
      obtain ⟨m', hm', hp'⟩ := hchild b hb
      exact h.eq_of_reaches_sibling hm hp hm' hp' hr
    · exact absurd hr (hapart a ha b hb).1
    · exact absurd hr (hapart b hb a ha).2
    · exact hi.apart a (List.mem_cons_of_mem _ ha) b (List.mem_cons_of_mem _ hb) hr

/-- A work list reaches its first node and what the next work list reaches. -/
theorem exists_reaches_cons {id : NodeId} {work : List NodeId} {n : Node}
    (hn : t.node? id = some n) {x : NodeId} :
    (∃ w ∈ id :: work, t.Reaches w x) ↔ x = id ∨ ∃ w ∈ n.children ++ work, t.Reaches w x := by
  constructor
  · rintro ⟨w, hw, hr⟩
    rcases List.mem_cons.1 hw with rfl | hw
    · rcases hr.cases_head with rfl | ⟨m, c, hm, hc, hcx⟩
      · exact Or.inl rfl
      · rw [hn, Option.some.injEq] at hm
        subst hm
        exact Or.inr ⟨c, List.mem_append_left _ hc, hcx⟩
    · exact Or.inr ⟨w, List.mem_append_right _ hw, hr⟩
  · rintro (rfl | ⟨w, hw, hr⟩)
    · exact ⟨x, List.mem_cons_self, Reaches.refl x⟩
    · rcases List.mem_append.1 hw with hw | hw
      · exact ⟨id, List.mem_cons_self, (Reaches.of_child hn hw).trans hr⟩
      · exact ⟨w, List.mem_cons_of_mem _ hw, hr⟩

/-- The first node of an independent work list is not reached again. -/
theorem not_reaches_step (h : t.Consistent) {id : NodeId} {work : List NodeId} {n : Node}
    (hi : t.Independent (id :: work)) (hn : t.node? id = some n) :
    ¬ ∃ w ∈ n.children ++ work, t.Reaches w id := by
  rintro ⟨w, hw, hr⟩
  rcases List.mem_append.1 hw with hw | hw
  · obtain ⟨m, hm, hp⟩ := h.parent_of_mem_children hn hw
    exact h.not_reaches_parent hm hp hr
  · have := hi.apart w (List.mem_cons_of_mem _ hw) id List.mem_cons_self hr
    subst this
    exact (List.nodup_cons.1 hi.nodup).1 hw

/-! ## What a list covers -/

open Classical in
/-- The ids in use that are reached from a work list. -/
noncomputable def covered (t : FileTree) (work : List NodeId) : Finset NodeId :=
  t.ids.toFinset.filter fun x => ∃ w ∈ work, t.Reaches w x

theorem mem_covered {work : List NodeId} {x : NodeId} :
    x ∈ t.covered work ↔ x ∈ t.ids ∧ ∃ w ∈ work, t.Reaches w x := by
  simp [covered]

/-- The first node of a work list is one more than the next work list covers. -/
theorem card_covered_cons (h : t.Consistent) {id : NodeId} {work : List NodeId} {n : Node}
    (hi : t.Independent (id :: work)) (hn : t.node? id = some n) :
    (t.covered (id :: work)).card = (t.covered (n.children ++ work)).card + 1 := by
  have hinsert : t.covered (id :: work) = insert id (t.covered (n.children ++ work)) := by
    ext x
    rw [mem_covered, Finset.mem_insert, mem_covered, exists_reaches_cons hn, and_or_left]
    refine or_congr_left ?_
    constructor
    · exact And.right
    · rintro rfl
      exact ⟨mem_ids.2 ⟨n, hn⟩, rfl⟩
  have hnot : id ∉ t.covered (n.children ++ work) := fun hmem =>
    not_reaches_step h hi hn (mem_covered.1 hmem).2
  rw [hinsert, Finset.card_insert_of_notMem hnot]

theorem covered_perm {work work' : List NodeId} (hp : work.Perm work') :
    t.covered work = t.covered work' := by
  ext x
  simp only [mem_covered, hp.mem_iff]

/-- A work list of nodes covers at least these. -/
theorem Independent.eq_nil_of_card_covered {work : List NodeId} (hi : t.Independent work)
    (hcard : (t.covered work).card = 0) : work = [] := by
  cases work with
  | nil => rfl
  | cons id work =>
    obtain ⟨n, hn⟩ := hi.exist id List.mem_cons_self
    have hmem : id ∈ t.covered (id :: work) :=
      mem_covered.2 ⟨mem_ids.2 ⟨n, hn⟩, id, List.mem_cons_self, Reaches.refl id⟩
    rw [Finset.card_eq_zero.1 hcard] at hmem
    exact absurd hmem (Finset.notMem_empty id)

theorem length_ids : t.ids.length = t.nodes.size := by
  simp [ids, OrderedMap.keys, OrderedMap.size]

theorem card_covered_le (work : List NodeId) : (t.covered work).card ≤ t.nodes.size := by
  classical
  calc (t.covered work).card ≤ t.ids.toFinset.card := Finset.card_filter_le _ _
    _ ≤ t.ids.length := List.toFinset_card_le _
    _ = t.nodes.size := length_ids

end FileTree

end VirtualShell
