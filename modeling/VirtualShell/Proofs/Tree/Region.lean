import VirtualShell.Proofs.Tree.Update

/-!
# The region of a path

A path *extends* another one if it is that path or begins with it and a slash. In a consistent tree
the nodes beneath a node can be told by their paths alone: they are those whose paths extend its
path (`Consistent.reaches_iff_extends`). A sibling whose name begins with the same letters is left
out, as a name holds no slash (`Path.Extends.of_join`).
-/

namespace VirtualShell

namespace Path

/-- A path is another one, or it begins with the other one and a slash. -/
def Extends (path top : String) : Prop := path = top ∨ (top ++ "/").toList <+: path.toList

instance (path top : String) : Decidable (Extends path top) :=
  inferInstanceAs (Decidable (_ ∨ _))

/-- What may follow a path in the paths that extend it. -/
def IsTail (rest : String) : Prop := rest = "" ∨ rest.toList.head? = some '/'

theorem slash_prefix_iff {path top : String} :
    (top ++ "/").toList <+: path.toList ↔ ∃ rest, path.toList = top.toList ++ '/' :: rest := by
  have hsplit : ∀ rest, (top ++ "/").toList ++ rest = top.toList ++ '/' :: rest := by
    intro rest
    rw [String.toList_append, List.append_assoc]
    rfl
  constructor
  · rintro ⟨rest, hrest⟩
    exact ⟨rest, by rw [← hrest, hsplit]⟩
  · rintro ⟨rest, hrest⟩
    exact ⟨rest, by rw [hsplit, hrest]⟩

theorem extends_iff_exists_tail {path top : String} :
    Extends path top ↔ ∃ rest, IsTail rest ∧ path = top ++ rest := by
  unfold Extends IsTail
  rw [slash_prefix_iff]
  constructor
  · rintro (rfl | ⟨rest, hrest⟩)
    · exact ⟨"", Or.inl rfl, by simp⟩
    · refine ⟨String.ofList ('/' :: rest), Or.inr (by simp), ?_⟩
      exact String.toList_injective (by simpa using hrest)
  · rintro ⟨rest, rfl | hhead, rfl⟩
    · exact Or.inl (by simp)
    · obtain ⟨tail, htail⟩ := List.head?_eq_some_iff.1 hhead
      exact Or.inr ⟨tail, by rw [String.toList_append, htail]⟩

/-- Below the root, to lie within a path is to extend it. -/
theorem isWithin_iff_extends {path top : String} (habs : path.toList.head? = some '/')
    (htop : top ≠ "/") : isWithin path top = true ↔ Extends path top := by
  rw [isWithin_iff habs, stem_of_ne_root htop, Extends, slash_prefix_iff]

/-- A joined path that extends another one is that one, or its directory extends it. -/
theorem Extends.of_join {dir name top : String} (htop : top.toList ≠ []) (hname : '/' ∉ name.toList)
    (h : Extends (join dir name) top) : join dir name = top ∨ Extends dir top := by
  rw [Extends, slash_prefix_iff] at h
  refine h.imp_right ?_
  rintro ⟨rest, hrest⟩
  rw [toList_join] at hrest
  -- the last slash of the joined path is the one before the name
  have hstem : stem dir = top.toList ∨ ∃ between, stem dir = top.toList ++ '/' :: between := by
    rcases List.append_eq_append_iff.1 hrest with ⟨c, hc, hname'⟩ | ⟨c, hc, hrest'⟩
    · cases c with
      | nil => exact Or.inl (by simpa using hc.symm)
      | cons x c =>
        rw [List.cons_append, List.cons.injEq] at hname'
        exact absurd (by rw [hname'.2]; simp) hname
    · cases c with
      | nil => exact Or.inl (by simpa using hc)
      | cons x c =>
        rw [List.cons_append, List.cons.injEq] at hrest'
        exact Or.inr ⟨c, by rw [hc, hrest'.1]⟩
  have hdir : dir ≠ "/" := by
    rintro rfl
    rcases hstem with hstem | ⟨between, hstem⟩
    · exact htop hstem.symm
    · exact absurd (hstem.symm) (by simp)
  rw [stem_of_ne_root hdir] at hstem
  rw [Extends, slash_prefix_iff]
  exact hstem.imp_left fun h => String.toList_injective h

end Path

namespace FileTree

variable {t : FileTree}

theorem mem_entries {e : NodeId × Node} : e ∈ t.nodes.entries ↔ t.node? e.1 = some e.2 :=
  OrderedMap.mem_entries_iff

theorem Consistent.path_ne_root (h : t.Consistent) {id : NodeId} {n : Node}
    (hn : t.node? id = some n) (hne : id ≠ t.root) : n.path ≠ "/" :=
  mt (h.path_eq_root_iff hn).1 hne

/-- The nodes that are reached from a node below the root are those whose paths extend its path. The
induction is from the root to the node that is reached. -/
theorem Consistent.reaches_iff_extends (h : t.Consistent) {a b : NodeId} {n m : Node}
    (hn : t.node? a = some n) (hne : a ≠ t.root) (hm : t.node? b = some m) :
    t.Reaches a b ↔ Path.Extends m.path n.path := by
  constructor
  · intro hr
    exact (Path.isWithin_iff_extends (h.head?_path hm) (h.path_ne_root hn hne)).1
      (h.isWithin_of_reaches hr hn hm)
  · refine h.induction (P := fun b m => Path.Extends m.path n.path → t.Reaches a b) ?_ ?_ hm
    · intro r hr hext
      have hroot := (h.path_eq_root_iff hr).2 rfl
      rcases hext with hsame | hfront
      · exact absurd (hsame.symm.trans hroot) (h.path_ne_root hn hne)
      · have hlen := hfront.length_le
        have hpos := List.length_pos_iff.2 (h.path_ne_nil hn)
        have hone : "/".toList.length = 1 := rfl
        rw [hroot, String.toList_append, List.length_append] at hlen
        omega
    · intro p d id m hd ih hm hp hpath hname hext
      rw [hpath] at hext
      rcases Path.Extends.of_join (h.path_ne_nil hn) (validName_iff.1 hname).2.2.2 hext with
        hsame | hdir
      · rw [← hpath] at hsame
        rw [h.path_inj hm hn hsame]
        exact Reaches.refl a
      · obtain ⟨d', hd', -, hmem, -⟩ := h.parent_spec hm hp
        exact Reaches.step (ih hdir) hd' hmem

/-- The nodes that are reached from a node are those within its path. -/
theorem Consistent.reaches_iff_isWithin (h : t.Consistent) {a b : NodeId} {n m : Node}
    (hn : t.node? a = some n) (hm : t.node? b = some m) :
    t.Reaches a b ↔ Path.isWithin m.path n.path = true := by
  by_cases hroot : a = t.root
  · have hr : t.Reaches a b := hroot ▸ h.reachable b m hm
    exact iff_of_true hr (h.isWithin_of_reaches hr hn hm)
  · rw [h.reaches_iff_extends hn hroot hm,
      Path.isWithin_iff_extends (h.head?_path hm) (h.path_ne_root hn hroot)]

theorem Consistent.mem_subtree_iff_extends (h : t.Consistent) {a b : NodeId} {n m : Node}
    (hn : t.node? a = some n) (hne : a ≠ t.root) (hm : t.node? b = some m) :
    b ∈ t.subtree a ↔ Path.Extends m.path n.path :=
  (mem_subtree h hn).trans (h.reaches_iff_extends hn hne hm)

end FileTree

end VirtualShell
