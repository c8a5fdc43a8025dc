import VirtualShell.Proofs.Tree.Ancestry
import VirtualShell.Proofs.Tree.Evolution

/-!
# Read-only nodes

A tree keeps the read-only nodes of another one if each of them is still there and differs in its
path and its list of children at most (`KeepsReadOnly`). Each of the elementary changes keeps the
read-only nodes: a directory lists its children anew, a node that is not read-only is changed, a new
node comes, a subtree without read-only nodes goes. So every change does, and so does every evolution
(`Evolves.keepsReadOnly`).

The path of a read-only node may change, as a directory above it may be moved. It does not if all
directories between the node and the root are read-only too: names and parents determine the path
(`KeepsReadOnly.path_eq`).
-/

namespace VirtualShell

open Calendar

/-! ## Nodes that stay the same but for their place -/

namespace Node

theorem text?_eq_some {n : Node} {text : String} :
    n.text? = some text ↔ n.content = .file text := by
  unfold text?
  cases n.content with
  | file text' => simp
  | directory ids => simp

theorem isDirectory_eq (n : Node) : n.isDirectory = n.text?.isNone := by
  unfold isDirectory text?
  cases n.content <;> rfl

/-- Two states of a node that differ in the path and in the children of a directory at most. -/
structure Preserved (n m : Node) : Prop where
  id : m.id = n.id
  name : m.name = n.name
  parent : m.parent = n.parent
  isDirectory : m.isDirectory = n.isDirectory
  text? : m.text? = n.text?
  metadata : m.metadata = n.metadata
  readOnly : m.readOnly = n.readOnly

namespace Preserved

variable {n m k : Node}

theorem refl (n : Node) : n.Preserved n := ⟨rfl, rfl, rfl, rfl, rfl, rfl, rfl⟩

theorem trans (h : n.Preserved m) (h' : m.Preserved k) : n.Preserved k where
  id := h'.id.trans h.id
  name := h'.name.trans h.name
  parent := h'.parent.trans h.parent
  isDirectory := h'.isDirectory.trans h.isDirectory
  text? := h'.text?.trans h.text?
  metadata := h'.metadata.trans h.metadata
  readOnly := h'.readOnly.trans h.readOnly

theorem mapChildren (f : List NodeId → List NodeId) (n : Node) :
    n.Preserved (n.mapChildren f) := by
  cases hc : n.content with
  | file text => simpa [Node.mapChildren, hc] using refl n
  | directory ids => constructor <;> simp [Node.mapChildren, Node.isDirectory, Node.text?, hc]

theorem relist (p x : NodeId) (f : List NodeId → List NodeId) (n : Node) :
    n.Preserved (Node.relist p f x n) := by
  unfold Node.relist
  split
  · exact mapChildren f n
  · exact refl n

theorem withPath (path : String) (n : Node) : n.Preserved { n with path } :=
  ⟨rfl, rfl, rfl, rfl, rfl, rfl, rfl⟩

end Preserved

end Node

namespace FileTree

open Node

/-- All read-only nodes of the first tree are nodes of the second one too. -/
structure KeepsReadOnly (t t' : FileTree) : Prop where
  root : t'.root = t.root
  node : ∀ id n, t.node? id = some n → n.readOnly = true →
    ∃ m, t'.node? id = some m ∧ n.Preserved m

/-- All that lies above a node is read-only, but for the root. -/
def Sealed (t : FileTree) (id : NodeId) : Prop :=
  ∀ a d, t.StrictlyAbove id a → a ≠ t.root → t.node? a = some d → d.readOnly = true

variable {t t' t'' : FileTree} {s : Supply}

namespace KeepsReadOnly

theorem refl (t : FileTree) : t.KeepsReadOnly t where
  root := rfl
  node _ n hn _ := ⟨n, hn, .refl n⟩

theorem trans (h : t.KeepsReadOnly t') (h' : t'.KeepsReadOnly t'') : t.KeepsReadOnly t'' where
  root := h'.root.trans h.root
  node id n hn hro := by
    obtain ⟨m, hm, hnm⟩ := h.node id n hn hro
    obtain ⟨k, hk, hmk⟩ := h'.node id m hm (hnm.readOnly.trans hro)
    exact ⟨k, hk, hnm.trans hmk⟩

/-! ## Elementary changes -/

theorem ne_of_readOnly {id x : NodeId} {n m : Node} (hn : t.node? id = some n)
    (hro : n.readOnly = false) (hm : t.node? x = some m) (hmro : m.readOnly = true) : x ≠ id := by
  rintro rfl
  rw [hm, Option.some.injEq] at hn
  rw [← hn, hmro] at hro
  cases hro

/-- A node that is not read-only may be changed in every way. -/
theorem modifyNode {id : NodeId} {n : Node} (hn : t.node? id = some n)
    (hro : n.readOnly = false) (f : Node → Node) : t.KeepsReadOnly (t.modifyNode id f) where
  root := rfl
  node x m hm hmro := by
    have hx := ne_of_readOnly hn hro hm hmro
    exact ⟨m, by rw [node?_modifyNode, if_neg hx, hm], .refl m⟩

theorem attach (s : Supply) (parent : NodeId) (parentPath name : String) (content : Content)
    (readOnly : Bool) :
    t.KeepsReadOnly (t.attach s parent parentPath name content readOnly).1 where
  root := rfl
  node _ n hn _ := ⟨_, node?_attach_of_node? hn, .relist _ _ _ n⟩

/-- A subtree that holds no read-only node may go. -/
theorem detach {id : NodeId} (parent : NodeId)
    (hfree : ∀ x ∈ t.subtree id, ∀ m, t.node? x = some m → m.readOnly = false) :
    t.KeepsReadOnly (t.detach parent id) where
  root := rfl
  node x n hn hro := by
    have hx : x ∉ t.subtree id := by
      intro hmem
      rw [hfree x hmem n hn] at hro
      cases hro
    exact ⟨_, node?_detach_of_not_mem hn hx, .relist _ _ _ n⟩

theorem preserved_relisted (id oldParent newParent x : NodeId) (n : Node) :
    n.Preserved (relisted id oldParent newParent x n) := by
  unfold relisted
  split
  · exact .refl n
  · exact (Preserved.relist oldParent x _ n).trans (.relist newParent x _ _)

theorem preserved_relocated {now : Instant} {id oldParent newParent x : NodeId}
    {oldPath newPath name : String} (hx : x ≠ id) (n : Node) :
    n.Preserved (t.relocated now id oldParent newParent oldPath newPath name x n) := by
  have hlisted := preserved_relisted id oldParent newParent x n
  unfold relocated
  dsimp only
  rw [if_neg hx]
  split
  · exact hlisted.trans (.withPath _ _)
  · exact hlisted

/-- A node that is not read-only may be moved, also with read-only nodes beneath it. -/
theorem relocate {id : NodeId} {n : Node} (hn : t.node? id = some n) (hro : n.readOnly = false)
    (now : Instant) (oldParent newParent : NodeId) (oldPath newPath name : String) :
    t.KeepsReadOnly (t.relocate now id oldParent newParent oldPath newPath name) where
  root := root_relocate t now id oldParent newParent oldPath newPath name
  node x m hm hmro := by
    have hx := ne_of_readOnly hn hro hm hmro
    exact ⟨_, by rw [node?_relocate, hm]; rfl, preserved_relocated hx m⟩

end KeepsReadOnly

/-! ## Changes -/

namespace Change

variable {path name parent source dest text : String}

theorem keepsReadOnly_createEntry {content : Content} {r : FileTree × Node}
    (hc : t.createEntry s name parent content = .ok r) : t.KeepsReadOnly r.1 := by
  obtain ⟨d, -, -, -, -, rfl⟩ := createEntry_eq_ok hc
  exact .attach s d.id (t.resolve parent) name content false

/-- Directories that are created one after another keep the read-only nodes. -/
theorem keepsReadOnly_createAll {missing : List (String × String)} {i : Nat}
    (hc : t.createAll s i missing = .ok t') : t.KeepsReadOnly t' := by
  refine createAll_induction (P := fun _ u => t.KeepsReadOnly u) hc (.refl t) ?_
  intro i u m r hu hr
  exact hu.trans (keepsReadOnly_createEntry hr)

variable (h : t.Consistent)
include h

theorem keepsReadOnly_moveAs (hc : t.moveAs s source dest name = .ok t') :
    t.KeepsReadOnly t' := by
  obtain ⟨n, oldParent, d, hn, -, hro, -, -, -, -, -, rfl⟩ := moveAs_eq_ok hc
  exact .relocate (h.lookup?_eq_some.1 hn).1 hro s.now oldParent d.id _ _ name

/-- Every change keeps the read-only nodes of a consistent tree. -/
theorem keepsReadOnly_of_run {c : Change} (hc : c.run s t = .ok t') : t.KeepsReadOnly t' := by
  cases c with
  | changeDirectory path =>
    obtain ⟨n, -, -, rfl⟩ := changeDirectory_eq_ok hc
    exact ⟨rfl, (KeepsReadOnly.refl t).node⟩
  | createFile name parent text =>
    obtain ⟨r, hr, rfl⟩ := map_eq_ok hc
    exact keepsReadOnly_createEntry hr
  | createDirectory name parent =>
    obtain ⟨r, hr, rfl⟩ := map_eq_ok hc
    exact keepsReadOnly_createEntry hr
  | createPath path =>
    obtain ⟨missing, hmissing⟩ := createPath_eq_ok hc
    exact keepsReadOnly_createAll hmissing
  | delete path =>
    obtain ⟨r, hr, rfl⟩ := map_eq_ok hc
    obtain ⟨n, parent, -, -, hfree, rfl⟩ := delete_eq_ok hr
    exact .detach parent hfree
  | rename path name => exact keepsReadOnly_moveAs h hc
  | move source dest =>
    obtain ⟨n, -, hmove⟩ := move_eq_ok hc
    exact keepsReadOnly_moveAs h hmove
  | moveAs source dest name => exact keepsReadOnly_moveAs h hc
  | write path text =>
    obtain ⟨n, hn, -, hro, rfl⟩ := write_eq_ok hc
    exact .modifyNode (h.lookup?_eq_some.1 hn).1 hro _
  | touch path =>
    obtain ⟨n, hn, hro, rfl⟩ := touch_eq_ok hc
    exact .modifyNode (h.lookup?_eq_some.1 hn).1 hro _

theorem keepsReadOnly_after (s : Supply) (c : Change) : t.KeepsReadOnly (c.after s t) := by
  rcases c.after_cases s t with hc | hrefused
  · exact keepsReadOnly_of_run h hc
  · rw [hrefused]
    exact .refl t

end Change

theorem Evolves.keepsReadOnly (h : Evolves s t t') (hcons : t.Consistent) :
    t.KeepsReadOnly t' := by
  have hboth : t'.Consistent ∧ t.KeepsReadOnly t' := by
    refine h.induction (P := fun u => u.Consistent ∧ t.KeepsReadOnly u) ⟨hcons, .refl t⟩ ?_
    rintro i a b c ⟨ha, hkeeps⟩ hc
    exact ⟨Change.consistent_of_run ha hc, hkeeps.trans (Change.keepsReadOnly_of_run ha hc)⟩
  exact hboth.2

/-! ## Paths -/

theorem Sealed.parent {id p : NodeId} {n : Node} (hs : t.Sealed id) (hn : t.node? id = some n)
    (hp : n.parent = some p) : t.Sealed p :=
  fun a d hup => hs a d (Relation.TransGen.head ⟨n, hn, hp⟩ hup)

/-- A node beneath the root, or beneath a sealed directory that is read-only, is sealed. -/
theorem Consistent.sealed_of_parent (h : t.Consistent) {id p : NodeId} {n d : Node}
    (hn : t.node? id = some n) (hp : n.parent = some p) (hd : t.node? p = some d)
    (hseal : p = t.root ∨ d.readOnly = true ∧ t.Sealed p) : t.Sealed id := by
  intro a e hup hne he
  obtain ⟨q, hq, hrest⟩ := (strictlyAbove_iff_parent hn).1 hup
  rw [hp, Option.some.injEq] at hq
  subst hq
  rcases Relation.reflTransGen_iff_eq_or_transGen.1 hrest with heq | habove
  · rcases hseal with hroot | ⟨hro, -⟩
    · exact absurd (heq.trans hroot) hne
    · rw [heq, hd, Option.some.injEq] at he
      rw [← he, hro]
  · rcases hseal with hroot | ⟨-, hs⟩
    · obtain ⟨r, hr, hnone, -⟩ := h.root_ok
      obtain ⟨q, hq, -⟩ := (strictlyAbove_iff_parent (hroot ▸ hr)).1 habove
      rw [hnone] at hq
      cases hq
    · exact hs a e habove hne he

/-- A read-only node that is sealed keeps its path: it keeps its name, and its parent is the root or
keeps its path for the same reason. -/
theorem KeepsReadOnly.path_eq (hk : t.KeepsReadOnly t') (h : t.Consistent) (h' : t'.Consistent)
    {id : NodeId} {n m : Node} (hn : t.node? id = some n) (hro : n.readOnly = true)
    (hs : t.Sealed id) (hm : t'.node? id = some m) : m.path = n.path := by
  have hroot : ∀ m, t'.node? t.root = some m → m.path = "/" := by
    intro m hm
    exact (h'.path_eq_root_iff hm).2 hk.root.symm
  refine h.induction (P := fun id n => (id ≠ t.root → n.readOnly = true) → t.Sealed id →
    ∀ m, t'.node? id = some m → m.path = n.path) ?_ ?_ hn (fun _ => hro) hs m hm
  · intro r hr _ _ m hm
    rw [hroot m hm, (h.path_eq_root_iff hr).2 rfl]
  · intro p d id n hd ih hn hp hpath _ hro hs m hm
    have hne := h.root_ne_of_parent hn hp
    obtain ⟨m', hm', hkept⟩ := hk.node id n hn (hro hne)
    rw [hm, Option.some.injEq] at hm'
    subst hm'
    have hmp : m.parent = some p := hkept.parent.trans hp
    obtain ⟨e, he, -, -, hmpath, -⟩ := h'.parent_spec hm hmp
    have hdro : p ≠ t.root → d.readOnly = true := fun hpr =>
      hs p d (Relation.TransGen.single ⟨n, hn, hp⟩) hpr hd
    rw [hmpath, hpath, hkept.name, ih hdro (hs.parent hn hp) e he]

end FileTree

end VirtualShell
