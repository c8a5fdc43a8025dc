import Mathlib.Data.List.Pairwise
import VirtualShell.Proofs.Tree.Ancestry

/-!
# Accepted trees

The check of a stored tree reports no defect if and only if the tree is consistent
(`defect?_eq_none_iff`). Each pass of the check is first turned into what it says of all nodes.
That every node lies beneath the root follows from the passes on parents and children, so the count
that comes behind them always comes out right. Whatever graph is stored, an accepted one has different
paths in normal form and no cycle of parents (`accepts_consistent_acyclic`).
-/

namespace VirtualShell

namespace FileTree

variable {t : FileTree}

/-! ## The passes one by one -/

theorem findSome?_keyDefect?_eq_none :
    t.nodes.entries.findSome? keyDefect? = none ↔ ∀ id n, t.node? id = some n → n.id = id := by
  simp only [List.findSome?_eq_none_iff, Prod.forall, OrderedMap.mem_entries_iff, keyDefect?]
  refine forall₃_congr fun id n _ => ?_
  split
  · next he => exact iff_of_true rfl he.symm
  · next he => exact iff_of_false (by simp) fun h => he h.symm

theorem rootDefect?_eq_none : t.rootDefect? = none ↔
    ∃ n, t.node? t.root = some n ∧ n.parent = none ∧ n.path = "/" ∧ n.isDirectory = true := by
  unfold rootDefect?
  cases t.node? t.root with
  | none => simp
  | some n => simp [and_assoc]

/-- What the pass on parents asks of a node. -/
def ParentOk (t : FileTree) (n : Node) : Prop :=
  (n.parent = none ∧ n.id = t.root) ∨ ∃ p d, n.parent = some p ∧ t.node? p = some d ∧
    d.isDirectory = true ∧ validName n.name = true ∧ n.path = Path.join d.path n.name ∧
    d.children.count n.id = 1

theorem parentDefect?_eq_none {n : Node} : t.parentDefect? n = none ↔ t.ParentOk n := by
  unfold parentDefect? ParentOk
  cases n.parent with
  | none => simp
  | some p =>
    cases hd : t.node? p with
    | none => simp [hd]
    | some d =>
      simp only [hd, reduceCtorEq, false_and, false_or, Option.some.injEq]
      split_ifs <;> simp_all

/-- Two ids do not name nodes of one name. -/
def NamesApart (t : FileTree) (a b : NodeId) : Prop :=
  ∀ m m', t.node? a = some m → t.node? b = some m' → m.name ≠ m'.name

instance : Std.Symm t.NamesApart := ⟨fun _ _ h m m' hm hm' => (h m' m hm' hm).symm⟩

/-- What the pass on children asks of a list of children of a node, given the names before. -/
def ChildrenOk (t : FileTree) (n : Node) (names : List String) (children : List NodeId) : Prop :=
  (∀ c ∈ children, ∃ m, t.node? c = some m ∧ m.parent = some n.id ∧ m.name ∉ names) ∧
    children.Pairwise t.NamesApart

theorem childDefect?_eq_none {n : Node} {names : List String} {children : List NodeId} :
    t.childDefect? n names children = none ↔ t.ChildrenOk n names children := by
  induction children generalizing names with
  | nil => simp [childDefect?, ChildrenOk]
  | cons c rest ih =>
    cases hm : t.node? c with
    | none => simp [childDefect?, ChildrenOk, hm]
    | some m =>
      simp only [childDefect?, hm]
      split_ifs with hparent hname
      · simp [ChildrenOk, hm, hparent]
      · simp [ChildrenOk, hm, hname]
      · rw [ih]
        simp only [ChildrenOk, List.mem_cons, forall_eq_or_imp, List.pairwise_cons, NamesApart, hm,
          Option.some.injEq, exists_eq_left', not_or]
        constructor
        · rintro ⟨hrest, hpair⟩
          refine ⟨⟨⟨not_not.1 hparent, hname⟩, fun d hd => ?_⟩, fun d hd => ?_, hpair⟩
          · obtain ⟨m', hm', hp', -, hn'⟩ := hrest d hd
            exact ⟨m', hm', hp', hn'⟩
          · rintro _ m'' rfl hm''
            obtain ⟨m', hm', -, hne, -⟩ := hrest d hd
            rw [hm', Option.some.injEq] at hm''
            exact hm'' ▸ Ne.symm hne
        · rintro ⟨⟨-, hrest⟩, hfirst, hpair⟩
          refine ⟨fun d hd => ?_, hpair⟩
          obtain ⟨m', hm', hp', hn'⟩ := hrest d hd
          exact ⟨m', hm', hp', (hfirst d hd m m' rfl hm').symm, hn'⟩

theorem cwdDefect?_eq_none :
    t.cwdDefect? = none ↔ ∃ n, t.node? t.cwd = some n ∧ n.isDirectory = true := by
  unfold cwdDefect?
  cases t.node? t.cwd with
  | none => simp
  | some n => simp

/-- The first defect that the passes on keys, root, parents and children find. -/
def linkDefect? (t : FileTree) : Option Defect :=
  (t.nodes.entries.findSome? keyDefect?)
    |>.or t.rootDefect?
    |>.or (t.allNodes.findSome? t.parentDefect?)
    |>.or (t.allNodes.findSome? fun n => t.childDefect? n [] n.children)

theorem defect?_eq (t : FileTree) :
    t.defect? = ((t.linkDefect?).or t.reachDefect?).or t.cwdDefect? := rfl

theorem linkDefect?_eq_none_iff : t.linkDefect? = none ↔
    (∀ id n, t.node? id = some n → n.id = id) ∧
    (∃ n, t.node? t.root = some n ∧ n.parent = none ∧ n.path = "/" ∧ n.isDirectory = true) ∧
    (∀ id n, t.node? id = some n → t.ParentOk n) ∧
    ∀ id n, t.node? id = some n → t.ChildrenOk n [] n.children := by
  simp only [linkDefect?, Option.or_eq_none_iff, findSome?_keyDefect?_eq_none]
  simp only [rootDefect?_eq_none, List.findSome?_eq_none_iff, mem_allNodes,
    parentDefect?_eq_none, childDefect?_eq_none, forall_exists_index, and_assoc]
  rw [forall_comm (p := fun n id => t.node? id = some n → t.ParentOk n),
    forall_comm (p := fun n id => t.node? id = some n → t.ChildrenOk n [] n.children)]

theorem defect?_eq_none_iff_passes : t.defect? = none ↔
    (∀ id n, t.node? id = some n → n.id = id) ∧
    (∃ n, t.node? t.root = some n ∧ n.parent = none ∧ n.path = "/" ∧ n.isDirectory = true) ∧
    (∀ id n, t.node? id = some n → t.ParentOk n) ∧
    (∀ id n, t.node? id = some n → t.ChildrenOk n [] n.children) ∧
    t.reachDefect? = none ∧ (∃ n, t.node? t.cwd = some n ∧ n.isDirectory = true) := by
  rw [defect?_eq, Option.or_eq_none_iff, Option.or_eq_none_iff, linkDefect?_eq_none_iff,
    cwdDefect?_eq_none]
  simp only [and_assoc]

/-! ## Both directions -/

/-- In a consistent tree the walk from the root meets every node once. -/
theorem reachDefect?_eq_none (h : t.Consistent) : t.reachDefect? = none := by
  obtain ⟨r, hr, -⟩ := h.root_ok
  have hu := (Traversal.underway_start hr).iterate h List.Perm.refl (t.nodes.size + 1)
  have hend := (Traversal.underway_start hr).pending_iterate h List.Perm.refl
    (Nat.le_succ_of_le (card_covered_le [t.root]))
  rw [reachDefect?, preorder_eq_taken h hr]
  exact if_pos ((hu.taken_perm h hend).length_eq.trans length_ids)

/-- The passes on keys, root, parents, children and current directory make a tree consistent. -/
theorem consistent_of_passes (hkey : ∀ id n, t.node? id = some n → n.id = id)
    (hroot : ∃ n, t.node? t.root = some n ∧ n.parent = none ∧ n.path = "/" ∧
      n.isDirectory = true)
    (hparent : ∀ id n, t.node? id = some n → t.ParentOk n)
    (hchildren : ∀ id n, t.node? id = some n → t.ChildrenOk n [] n.children)
    (hcwd : ∃ n, t.node? t.cwd = some n ∧ n.isDirectory = true) : t.Consistent := by
  have hbelow : ∀ id n, t.node? id = some n → id ≠ t.root → ∃ p d, n.parent = some p ∧
      t.node? p = some d ∧ d.isDirectory = true ∧ validName n.name = true ∧
      n.path = Path.join d.path n.name ∧ d.children.count id = 1 := by
    intro id n hn hne
    rcases hparent id n hn with ⟨-, hid⟩ | hok
    · exact absurd ((hkey id n hn).symm.trans hid) hne
    · rwa [hkey id n hn] at hok
  have hroot' : ∀ n, t.node? t.root = some n → n.parent = none := by
    intro n hn
    obtain ⟨r, hr, hnone, -⟩ := hroot
    rw [hr, Option.some.injEq] at hn
    exact hn ▸ hnone
  have hlisted : ∀ id n p, t.node? id = some n → n.parent = some p →
      ∃ d, t.node? p = some d ∧ id ∈ d.children := by
    intro id n p hn hp
    have hne : id ≠ t.root := by
      rintro rfl
      rw [hroot' n hn] at hp
      cases hp
    obtain ⟨p', d, hp', hd, -, -, -, hcount⟩ := hbelow id n hn hne
    rw [hp, Option.some.injEq] at hp'
    subst hp'
    exact ⟨d, hd, List.count_pos_iff.1 (by omega)⟩
  refine consistent_of_links hkey hroot ?below ?nodup ?child ?names hcwd
  case below =>
    intro id n hn hne
    obtain ⟨p, d, hp, hd, hdir, hname, hpath, -⟩ := hbelow id n hn hne
    exact ⟨p, d, hp, hd, hdir, hname, hpath⟩
  case nodup =>
    intro id n hn
    obtain ⟨hexist, hpair⟩ := hchildren id n hn
    refine hpair.imp_of_mem ?_
    rintro a b ha - hne rfl
    obtain ⟨m, hm, -⟩ := hexist a ha
    exact hne m m hm hm rfl
  case child =>
    intro id n hn _ c
    constructor
    · intro hc
      obtain ⟨m, hm, hp, -⟩ := (hchildren id n hn).1 c hc
      exact ⟨m, hm, by rw [hp, hkey id n hn]⟩
    · rintro ⟨m, hm, hp⟩
      obtain ⟨d, hd, hmem⟩ := hlisted c m id hm hp
      rw [hn, Option.some.injEq] at hd
      exact hd ▸ hmem
  case names =>
    intro a m b m' hm hm' hpp hp hname
    obtain ⟨p, hp⟩ := Option.ne_none_iff_exists'.1 hp
    obtain ⟨d, hd, ha⟩ := hlisted a m p hm hp
    obtain ⟨d', hd', hb⟩ := hlisted b m' p hm' (hpp ▸ hp)
    rw [hd, Option.some.injEq] at hd'
    subst hd'
    by_contra hne
    exact (hchildren p d hd).2.forall ha hb hne m m' hm hm' hname

/-- The check reports no defect of exactly the consistent trees. -/
theorem defect?_eq_none_iff : t.defect? = none ↔ t.Consistent := by
  rw [defect?_eq_none_iff_passes]
  constructor
  · rintro ⟨hkey, hroot, hparent, hchildren, -, hcwd⟩
    exact consistent_of_passes hkey hroot hparent hchildren hcwd
  · intro h
    refine ⟨h.key_eq_id, h.root_ok, ?_, ?_, reachDefect?_eq_none h, h.cwd_ok⟩
    · intro id n hn
      cases hp : n.parent with
      | none =>
        exact Or.inl ⟨hp, (h.key_eq_id id n hn).trans (h.eq_root_of_parent_eq_none hn hp)⟩
      | some p =>
        obtain ⟨d, hd, hdir, hmem, hpath, hname⟩ := h.parent_spec hn hp
        refine Or.inr ⟨p, d, hp, hd, hdir, hname, hpath, ?_⟩
        rw [h.key_eq_id id n hn]
        exact List.count_eq_one_of_mem (h.children_nodup p d hd) hmem
    · intro id n hn
      refine ⟨fun c hc => ?_, (h.children_nodup id n hn).imp_of_mem ?_⟩
      · obtain ⟨m, hm, hp⟩ := h.parent_of_mem_children hn hc
        exact ⟨m, hm, by rw [hp, h.key_eq_id id n hn], List.not_mem_nil⟩
      · intro a b ha hb hne m m' hm hm' hname
        have hp := h.parent_eq_of_mem_children hn ha hm
        have hp' := h.parent_eq_of_mem_children hn hb hm'
        exact hne (h.sibling_names a m b m' hm hm' (hp.trans hp'.symm) (by rw [hp]; simp) hname)

/-- The check accepts the consistent trees and no other. Their paths are pairwise different and in
normal form, and no node lies above itself. -/
theorem accepts_consistent_acyclic (t : FileTree) :
    (t.defect? = none ↔ t.Consistent) ∧ (t.defect? = none →
      (∀ a b m n, t.node? a = some m → t.node? b = some n → m.path = n.path → a = b) ∧
      (∀ id n, t.node? id = some n → Path.normalize n.path = n.path) ∧
      ∀ id, ¬ t.StrictlyAbove id id) := by
  refine ⟨defect?_eq_none_iff, fun hd => ?_⟩
  have h : t.Consistent := defect?_eq_none_iff.1 hd
  refine ⟨?_, ?_, h.not_strictlyAbove_self⟩
  · intro a b m n hm hn hpath
    exact h.path_inj hm hn hpath
  · intro id n hn
    exact Path.normalize_of_normal (h.normal_path hn)

end FileTree

end VirtualShell
