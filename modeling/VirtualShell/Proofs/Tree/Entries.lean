import VirtualShell.Proofs.Tree.Links

/-!
# Entries of a directory

The entries of a directory are told from paths alone: they are the nodes whose paths put one more name
beneath the path of the directory (`HasEntry`). In a consistent tree these are the nodes that the
directory lists as its children, each name once (`Consistent.hasEntry_iff`). So their names in order
(`ListsEntries`) can be had by sorting those of the children (`Consistent.listsEntries`), but they are
settled by the paths of the tree (`ListsEntries.eq`, `ListsEntries.congr`), and nothing depends on the
order in which the children came.
-/

namespace VirtualShell

namespace FileTree

variable {t t' : FileTree} {path name : String} {all : Bool} {names names' : List String}

/-- At the path with the name beneath it there is a node. The name has no further slash. -/
def HasEntry (t : FileTree) (path name : String) : Prop :=
  name ≠ "" ∧ '/' ∉ name.toList ∧ ∃ id n, t.node? id = some n ∧ n.path = Path.join path name

/-- The names of the entries beneath a path, each once and in order: all of them, or only those that are
not hidden. -/
structure ListsEntries (t : FileTree) (path : String) (all : Bool) (names : List String) : Prop where
  increasing : names.Pairwise (· < ·)
  mem_iff : ∀ name, name ∈ names ↔
    t.HasEntry path name ∧ (all = true ∨ name.toList.head? ≠ some '.')

namespace ListsEntries

theorem nodup (h : t.ListsEntries path all names) : names.Nodup := h.increasing.imp String.ne_of_lt

/-- There is one list of the entries. -/
theorem eq (h : t.ListsEntries path all names) (h' : t.ListsEntries path all names') :
    names = names' := by
  have hperm : names.Perm names' := (List.perm_ext_iff_of_nodup h.nodup h'.nodup).2 fun name =>
    (h.mem_iff name).trans (h'.mem_iff name).symm
  exact hperm.eq_of_pairwise (fun _ _ _ _ hlt hgt => absurd hgt (String.lt_asymm hlt)) h.increasing
    h'.increasing

/-- Without the hidden entries the others are left, in the same order. -/
theorem plain (h : t.ListsEntries path true names) :
    t.ListsEntries path false (names.filter fun name => name.toList.head? != some '.') where
  increasing := h.increasing.sublist List.filter_sublist
  mem_iff name := by simp [List.mem_filter, h.mem_iff]

/-- Only the paths matter at which a tree has nodes. -/
theorem congr (h : t.ListsEntries path all names)
    (hpaths : ∀ path, (t'.lookup? path).isSome = (t.lookup? path).isSome) :
    t'.ListsEntries path all names where
  increasing := h.increasing
  mem_iff name := by
    have hnode : ∀ (t : FileTree) path,
        (∃ id n, t.node? id = some n ∧ n.path = path) ↔ (t.lookup? path).isSome = true := by
      intro t path
      rw [← not_iff_not, Option.not_isSome_iff_eq_none, lookup?_eq_none]
      simp
    rw [h.mem_iff, HasEntry, HasEntry, hnode, hnode, hpaths]

end ListsEntries

namespace Consistent

variable (h : t.Consistent) {d : Node}
include h

/-- What typed input names is found at its own path. -/
theorem lookup?_path {input : String} (hd : t.find? input = some d) : t.lookup? d.path = some d :=
  h.lookup?_eq_some.2 ⟨(h.lookup?_eq_some.1 hd).1, rfl⟩

/-- A child is found by its name. -/
theorem lookup?_of_mem_childNodes (hd : t.lookup? path = some d) {c : Node}
    (hc : c ∈ t.childNodes d) :
    t.lookup? (Path.join path c.name) = some c ∧ validName c.name = true := by
  obtain ⟨hnode, rfl⟩ := h.lookup?_eq_some.1 hd
  obtain ⟨id, hid, hcnode⟩ := List.mem_filterMap.1 hc
  have hparent := h.parent_eq_of_mem_children hnode hid hcnode
  obtain ⟨d', hd', -, -, hpath, hname⟩ := h.parent_spec hcnode hparent
  rw [hnode, Option.some.injEq] at hd'
  rw [← hd'] at hpath
  exact ⟨h.lookup?_eq_some.2 ⟨by rwa [h.key_eq_id id c hcnode], hpath⟩, hname⟩

/-- The entries of a directory are its children. -/
theorem hasEntry_iff (hd : t.lookup? path = some d) :
    t.HasEntry path name ↔ ∃ c ∈ t.childNodes d, c.name = name := by
  obtain ⟨hnode, rfl⟩ := h.lookup?_eq_some.1 hd
  constructor
  · rintro ⟨hne, hslash, id, n, hn, hpath⟩
    have hne : name.toList ≠ [] := fun hnil => hne (String.toList_injective hnil)
    obtain ⟨p, d', hp, hd', hdirs, rfl⟩ :=
      h.parent_of_path_join hn (h.path_ne_nil hnode) hne hslash hpath
    obtain rfl := h.path_inj hd' hnode hdirs
    obtain ⟨d'', hd'', -, hmem, -⟩ := h.parent_spec hn hp
    rw [hnode, Option.some.injEq] at hd''
    exact ⟨n, List.mem_filterMap.2 ⟨id, hd'' ▸ hmem, hn⟩, rfl⟩
  · rintro ⟨c, hc, rfl⟩
    obtain ⟨hfound, hname⟩ := h.lookup?_of_mem_childNodes hd hc
    obtain ⟨hcnode, hpath⟩ := h.lookup?_eq_some.1 hfound
    obtain ⟨hne, -, -, hslash⟩ := validName_iff.1 hname
    exact ⟨hne, hslash, c.id, c, hcnode, hpath⟩

/-- Children have different names. -/
theorem nodup_names (hd : t.lookup? path = some d) : ((t.childNodes d).map Node.name).Nodup := by
  obtain ⟨hnode, -⟩ := h.lookup?_eq_some.1 hd
  rw [List.Nodup, List.pairwise_map, childNodes, List.pairwise_filterMap]
  refine (h.children_nodup d.id d hnode).imp_of_mem ?_
  intro a b ha hb hne m hm n hn hnames
  have hparents : m.parent = n.parent := by
    rw [h.parent_eq_of_mem_children hnode ha hm, h.parent_eq_of_mem_children hnode hb hn]
  have hbelow : m.parent ≠ none := by
    rw [h.parent_eq_of_mem_children hnode ha hm]
    exact Option.some_ne_none d.id
  exact hne (h.sibling_names a m b n hm hn hparents hbelow hnames)

/-- The names of the children that are to be shown, once they are in order. -/
theorem listsEntries (hd : t.lookup? path = some d) (hsorted : names.Pairwise (· ≤ ·))
    (hperm : names.Perm (((t.childNodes d).filter fun n => all || !n.isHidden).map Node.name)) :
    t.ListsEntries path all names where
  increasing := by
    have hnodup : names.Nodup := hperm.nodup_iff.2
      ((h.nodup_names hd).sublist (List.filter_sublist.map Node.name))
    refine hsorted.imp₂ (fun a b hle hne => ?_) hnodup
    exact String.not_le.1 fun hge => hne (String.le_antisymm hle hge)
  mem_iff name := by
    rw [hperm.mem_iff, h.hasEntry_iff hd, List.mem_map]
    constructor
    · rintro ⟨c, hc, rfl⟩
      obtain ⟨hc, hshown⟩ := List.mem_filter.1 hc
      exact ⟨⟨c, hc, rfl⟩, by simpa [Node.isHidden] using hshown⟩
    · rintro ⟨⟨c, hc, rfl⟩, hshown⟩
      exact ⟨c, List.mem_filter.2 ⟨hc, by simpa [Node.isHidden] using hshown⟩, rfl⟩

end Consistent

end FileTree

end VirtualShell
