import VirtualShell.Proofs.Tree.Relocation

/-!
# Single mutations

What each operation on a tree does when it is not refused (the lemmas `…_eq_ok`), and that it keeps
a consistent tree consistent.
-/

namespace VirtualShell

namespace FileTree

/-! ## What each operation does when it is not refused -/

variable {t t' : FileTree} {s : Supply}

theorem changeDirectory_eq_ok {path : String} (hc : t.changeDirectory path = .ok t') :
    ∃ n, t.find? path = some n ∧ n.isDirectory = true ∧ t' = { t with cwd := n.id } := by
  unfold changeDirectory at hc
  split at hc
  · cases hc
  · next n hn =>
    split at hc
    · next hdir =>
      cases hc
      exact ⟨n, hn, hdir, rfl⟩
    · cases hc

theorem createEntry_eq_ok {name parent : String} {content : Content} {r : FileTree × Node}
    (hc : t.createEntry s name parent content = .ok r) :
    ∃ d, validName name = true ∧ t.lookup? (t.resolve parent) = some d ∧ d.isDirectory = true ∧
      t.lookup? (Path.join (t.resolve parent) name) = none ∧
      r = t.attach s d.id (t.resolve parent) name content false := by
  unfold createEntry at hc
  dsimp only at hc
  split at hc
  · cases hc
  · next hname =>
    split at hc
    · cases hc
    · next d hd =>
      split at hc
      · cases hc
      · next hdir =>
        split at hc
        · cases hc
        · next hfree =>
          cases hc
          refine ⟨d, by simpa using hname, hd, by simpa using hdir, ?_, rfl⟩
          simpa [Option.isSome_iff_ne_none] using hfree

theorem delete_eq_ok {path : String} {r : FileTree × Nat} (hc : t.delete path = .ok r) :
    ∃ n parent, t.find? path = some n ∧ n.parent = some parent ∧
      (∀ x ∈ t.subtree n.id, ∀ m, t.node? x = some m → m.readOnly = false) ∧
      r = (t.detach parent n.id, (t.subtree n.id).length) := by
  unfold delete at hc
  split at hc
  · cases hc
  · next n hn =>
    split at hc
    · cases hc
    · next parent hp =>
      dsimp only at hc
      split at hc
      · cases hc
      · next hlocked =>
        cases hc
        refine ⟨n, parent, hn, hp, fun x hx m hm => ?_, rfl⟩
        have hfree := List.find?_eq_none.1 hlocked m (List.mem_filterMap.2 ⟨x, hx, hm⟩)
        simpa using hfree

theorem moveAs_eq_ok {source dest name : String} (hc : t.moveAs s source dest name = .ok t') :
    ∃ n oldParent d, t.lookup? (t.resolve source) = some n ∧ n.parent = some oldParent ∧
      n.readOnly = false ∧ validName name = true ∧ t.lookup? (t.resolve dest) = some d ∧
      d.isDirectory = true ∧ Path.isWithin (t.resolve dest) (t.resolve source) = false ∧
      t.lookup? (Path.join (t.resolve dest) name) = none ∧
      t' = t.relocate s.now n.id oldParent d.id (t.resolve source)
        (Path.join (t.resolve dest) name) name := by
  unfold moveAs at hc
  dsimp only at hc
  split at hc
  · cases hc
  · next n hn =>
    split at hc
    · cases hc
    · next oldParent hp =>
      split at hc
      · cases hc
      · next hro =>
        split at hc
        · cases hc
        · next hname =>
          split at hc
          · cases hc
          · next d hd =>
            split_ifs at hc with hdir hwithin hfree
            cases hc
            refine ⟨n, oldParent, d, hn, hp, by simpa using hro, by simpa using hname, hd,
              by simpa using hdir, by simpa using hwithin, ?_, rfl⟩
            simpa [Option.isSome_iff_ne_none] using hfree

theorem write_eq_ok {path text : String} (hc : t.write s path text = .ok t') :
    ∃ n, t.lookup? (t.resolve path) = some n ∧ n.isFile = true ∧ n.readOnly = false ∧
      t' = t.modifyNode n.id fun n => { n with
        content := .file text,
        metadata := { n.metadata with size := text.utf8ByteSize, modified := s.now } } := by
  unfold write at hc
  dsimp only at hc
  split at hc
  · cases hc
  · next n hn =>
    split_ifs at hc with hfile hro
    cases hc
    exact ⟨n, hn, by simpa using hfile, by simpa using hro, rfl⟩

theorem touch_eq_ok {path : String} (hc : t.touch s path = .ok t') :
    ∃ n, t.lookup? (t.resolve path) = some n ∧ n.readOnly = false ∧
      t' = t.modifyNode n.id fun n =>
        { n with metadata := { n.metadata with modified := s.now } } := by
  unfold touch at hc
  dsimp only at hc
  split at hc
  · cases hc
  · next n hn =>
    split_ifs at hc with hro
    cases hc
    exact ⟨n, hn, by simpa using hro, rfl⟩

/-- A move under the old name is a move. -/
theorem move_eq_ok {source dest : String} (hc : t.move s source dest = .ok t') :
    ∃ n, t.lookup? (t.resolve source) = some n ∧
      t.moveAs s (t.resolve source) dest n.name = .ok t' := by
  unfold move at hc
  dsimp only at hc
  split at hc
  · cases hc
  · next n hn =>
    split_ifs at hc
    exact ⟨n, hn, hc⟩

/-! ## Consistency -/

namespace Consistent

variable (h : t.Consistent)
include h

theorem changeDirectory {path : String} (hc : t.changeDirectory path = .ok t') :
    t'.Consistent := by
  obtain ⟨n, hn, hdir, rfl⟩ := changeDirectory_eq_ok hc
  exact h.setCwd (h.lookup?_eq_some.1 hn).1 hdir

theorem createEntry {name parent : String} {content : Content} {r : FileTree × Node}
    (hempty : content = .directory [] ∨ ∃ text, content = .file text)
    (hc : t.createEntry s name parent content = .ok r) : r.1.Consistent := by
  obtain ⟨d, hname, hd, hdir, hfree, rfl⟩ := createEntry_eq_ok hc
  obtain ⟨hnode, hpath⟩ := h.lookup?_eq_some.1 hd
  rw [← hpath] at hfree ⊢
  exact consistent_attach h s hnode hdir hname hfree hempty false

theorem createFile {name parent text : String} {r : FileTree × Node}
    (hc : t.createFile s name parent text = .ok r) : r.1.Consistent :=
  h.createEntry (Or.inr ⟨text, rfl⟩) hc

theorem createDirectory {name parent : String} {r : FileTree × Node}
    (hc : t.createDirectory s name parent = .ok r) : r.1.Consistent :=
  h.createEntry (Or.inl rfl) hc

theorem delete {path : String} {r : FileTree × Nat} (hc : t.delete path = .ok r) :
    r.1.Consistent := by
  obtain ⟨n, parent, hn, hp, -, rfl⟩ := delete_eq_ok hc
  exact consistent_detach h (h.lookup?_eq_some.1 hn).1 hp

theorem moveAs {source dest name : String} (hc : t.moveAs s source dest name = .ok t') :
    t'.Consistent := by
  obtain ⟨n, oldParent, d, hn, hp, -, hname, hd, hdir, hwithin, hfree, rfl⟩ := moveAs_eq_ok hc
  obtain ⟨hnode, hpath⟩ := h.lookup?_eq_some.1 hn
  obtain ⟨hdnode, hdpath⟩ := h.lookup?_eq_some.1 hd
  have hout : ¬ t.Reaches n.id d.id := by
    intro hr
    have hin := h.isWithin_of_reaches hr hnode hdnode
    rw [hdpath, hpath, hwithin] at hin
    cases hin
  rw [← hpath, ← hdpath]
  rw [← hdpath] at hfree
  exact consistent_relocate h s.now hnode hp hdnode hdir hout hname hfree

theorem write {path text : String} (hc : t.write s path text = .ok t') : t'.Consistent := by
  obtain ⟨n, hn, hfile, -, rfl⟩ := write_eq_ok hc
  refine h.modifyNode fun m hm => ?_
  rw [(h.lookup?_eq_some.1 hn).1, Option.some.injEq] at hm
  subst hm
  have hdir : n.isDirectory = false := by simpa [Node.isFile] using hfile
  exact ⟨rfl, rfl, rfl, rfl, hdir.symm, (Node.children_of_not_isDirectory n hdir).symm⟩

theorem touch {path : String} (hc : t.touch s path = .ok t') : t'.Consistent := by
  obtain ⟨n, hn, -, rfl⟩ := touch_eq_ok hc
  exact h.modifyNode fun m _ => ⟨rfl, rfl, rfl, rfl, rfl, rfl⟩

theorem move {source dest : String} (hc : t.move s source dest = .ok t') : t'.Consistent := by
  obtain ⟨n, -, hn⟩ := move_eq_ok hc
  exact h.moveAs hn

theorem rename {path name : String} (hc : t.rename s path name = .ok t') : t'.Consistent :=
  h.moveAs hc

end Consistent

end FileTree

end VirtualShell
