import VirtualShell.Proofs.Tree.ReadOnly

/-!
# The effects of changes

Changes are of a few kinds, and each kind shows in its own way only (`Change.within_of_run`): nodes go
by removals, come by creations, have other paths after moves and other texts after writes, and the
current directory becomes another one by going there or by a removal. The same holds of a whole
evolution by changes of some kinds (`EvolvesBy.within`), as long as it does not both remove and create,
so that a node which is there before and after was there all the time.
-/

namespace VirtualShell

namespace FileTree

open Node

variable {t t' t'' : FileTree} {s : Supply}

/-! ## Kinds of changes -/

/-- What a change is about. -/
inductive Change.Kind where
  | go
  | create
  | remove
  | relocate
  | write
  | touch
  deriving DecidableEq, Repr

/-- The kind of a change. -/
@[simp]
def Change.kind : Change → Change.Kind
  | changeDirectory _ => .go
  | createFile _ _ _ => .create
  | createDirectory _ _ => .create
  | createPath _ => .create
  | delete _ => .remove
  | rename _ _ => .relocate
  | move _ _ => .relocate
  | moveAs _ _ _ => .relocate
  | write _ _ => .write
  | touch _ => .touch

/-- Between two trees there is no more difference than changes of some kinds make. -/
structure Within (kinds : List Change.Kind) (t t' : FileTree) : Prop where
  stays : .remove ∉ kinds → ∀ id, (t.node? id).isSome = true → (t'.node? id).isSome = true
  known : .create ∉ kinds → ∀ id, (t'.node? id).isSome = true → (t.node? id).isSome = true
  path_eq : .relocate ∉ kinds → ∀ id n m, t.node? id = some n → t'.node? id = some m →
    m.path = n.path
  text?_eq : .write ∉ kinds → ∀ id n m, t.node? id = some n → t'.node? id = some m →
    m.text? = n.text?
  cwd_eq : .go ∉ kinds → .remove ∉ kinds → t'.cwd = t.cwd

namespace Within

variable {kinds kinds' : List Change.Kind}

theorem refl (kinds : List Change.Kind) (t : FileTree) : Within kinds t t where
  stays _ _ h := h
  known _ _ h := h
  path_eq _ _ n m hn hm := by
    rw [hn, Option.some.injEq] at hm
    rw [hm]
  text?_eq _ _ n m hn hm := by
    rw [hn, Option.some.injEq] at hm
    rw [hm]
  cwd_eq _ _ := rfl

theorem mono (h : Within kinds t t') (hsub : ∀ k ∈ kinds, k ∈ kinds') : Within kinds' t t' where
  stays hk := h.stays (mt (hsub _) hk)
  known hk := h.known (mt (hsub _) hk)
  path_eq hk := h.path_eq (mt (hsub _) hk)
  text?_eq hk := h.text?_eq (mt (hsub _) hk)
  cwd_eq hk hk' := h.cwd_eq (mt (hsub _) hk) (mt (hsub _) hk')

/-- A node that is there at the start and at the end is there in between. -/
theorem exists_between (h : Within kinds t t') (h' : Within kinds t' t'')
    (hkinds : .create ∉ kinds ∨ .remove ∉ kinds) {id : NodeId} {n k : Node}
    (hn : t.node? id = some n) (hk : t''.node? id = some k) : ∃ m, t'.node? id = some m := by
  apply Option.isSome_iff_exists.1
  rcases hkinds with hcreate | hremove
  · exact h'.known hcreate id (by rw [hk]; rfl)
  · exact h.stays hremove id (by rw [hn]; rfl)

theorem trans (h : Within kinds t t') (h' : Within kinds t' t'')
    (hkinds : .create ∉ kinds ∨ .remove ∉ kinds) : Within kinds t t'' where
  stays hk id hid := h'.stays hk id (h.stays hk id hid)
  known hk id hid := h.known hk id (h'.known hk id hid)
  path_eq hk id n k hn hk' := by
    obtain ⟨m, hm⟩ := h.exists_between h' hkinds hn hk'
    exact (h'.path_eq hk id m k hm hk').trans (h.path_eq hk id n m hn hm)
  text?_eq hk id n k hn hk' := by
    obtain ⟨m, hm⟩ := h.exists_between h' hkinds hn hk'
    exact (h'.text?_eq hk id m k hm hk').trans (h.text?_eq hk id n m hn hm)
  cwd_eq hk hk' := (h'.cwd_eq hk hk').trans (h.cwd_eq hk hk')

/-! ## Elementary changes -/

theorem relocated_text? {now : Calendar.Instant} {id oldParent newParent x : NodeId}
    {oldPath newPath name : String} {n : Node} :
    (t.relocated now id oldParent newParent oldPath newPath name x n).text? = n.text? := by
  have hlisted := (KeepsReadOnly.preserved_relisted id oldParent newParent x n).text?
  unfold relocated
  dsimp only
  split_ifs <;> exact hlisted

/-- Whatever is not said of a kind holds of it. -/
theorem absurd_singleton {k : Change.Kind} {p : Prop} (h : k ∉ [k]) : p :=
  absurd (List.mem_singleton_self k) h

theorem setCwd (t : FileTree) (id : NodeId) : Within [.go] t { t with cwd := id } where
  stays := (refl [] t).stays ∘ fun _ => List.not_mem_nil
  known := (refl [] t).known ∘ fun _ => List.not_mem_nil
  path_eq := (refl [] t).path_eq ∘ fun _ => List.not_mem_nil
  text?_eq := (refl [] t).text?_eq ∘ fun _ => List.not_mem_nil
  cwd_eq hk _ := absurd_singleton hk

theorem attach (t : FileTree) (s : Supply) (parent : NodeId) (parentPath name : String)
    (content : Content) (readOnly : Bool) :
    Within [.create] t (t.attach s parent parentPath name content readOnly).1 where
  stays _ id hid := by
    obtain ⟨n, hn⟩ := Option.isSome_iff_exists.1 hid
    rw [node?_attach_of_node? hn]
    rfl
  known hk := absurd_singleton hk
  path_eq _ id n m hn hm := by
    rw [node?_attach_of_node? hn, Option.some.injEq] at hm
    rw [← hm, relist_path]
  text?_eq _ id n m hn hm := by
    rw [node?_attach_of_node? hn, Option.some.injEq] at hm
    rw [← hm, (Preserved.relist _ _ _ n).text?]
  cwd_eq _ _ := rfl

theorem detach (t : FileTree) (parent id : NodeId) : Within [.remove] t (t.detach parent id) where
  stays hk := absurd_singleton hk
  known _ x hx := by
    obtain ⟨m, hm⟩ := Option.isSome_iff_exists.1 hx
    obtain ⟨-, n, hn, -⟩ := node_of_detach hm
    rw [hn]
    rfl
  path_eq _ x n m hn hm := by
    obtain ⟨-, n', hn', rfl⟩ := node_of_detach hm
    rw [hn, Option.some.injEq] at hn'
    rw [hn', relist_path]
  text?_eq _ x n m hn hm := by
    obtain ⟨-, n', hn', rfl⟩ := node_of_detach hm
    rw [hn, Option.some.injEq] at hn'
    rw [hn', (Preserved.relist _ _ _ n').text?]
  cwd_eq _ hk := absurd_singleton hk

theorem relocate (t : FileTree) (now : Calendar.Instant) (id oldParent newParent : NodeId)
    (oldPath newPath name : String) :
    Within [.relocate] t (t.relocate now id oldParent newParent oldPath newPath name) where
  stays _ x hx := by
    rw [node?_relocate, Option.isSome_map]
    exact hx
  known _ x hx := by
    rw [node?_relocate, Option.isSome_map] at hx
    exact hx
  path_eq hk := absurd_singleton hk
  text?_eq _ x n m hn hm := by
    rw [node?_relocate, hn, Option.map_some, Option.some.injEq] at hm
    rw [← hm, relocated_text?]
  cwd_eq _ _ := cwd_relocate t now id oldParent newParent oldPath newPath name

/-- A change of one node in place that keeps its path. -/
theorem modifyNode {f : Node → Node} (hpath : ∀ n, (f n).path = n.path) (k : Change.Kind)
    (htext : k = .write ∨ ∀ n, (f n).text? = n.text?) (t : FileTree) (id : NodeId) :
    Within [k] t (t.modifyNode id f) where
  stays _ x hx := by
    rw [node?_modifyNode]
    split
    · rw [Option.isSome_map]
      exact hx
    · exact hx
  known _ x hx := by
    rw [node?_modifyNode] at hx
    split at hx
    · rwa [Option.isSome_map] at hx
    · exact hx
  path_eq _ x n m hn hm := by
    rw [node?_modifyNode, hn] at hm
    split at hm
    · cases hm
      exact hpath n
    · cases hm
      rfl
  text?_eq hk x n m hn hm := by
    rw [node?_modifyNode, hn] at hm
    split at hm
    · cases hm
      rcases htext with rfl | hsame
      · exact absurd_singleton hk
      · exact hsame n
    · cases hm
      rfl
  cwd_eq _ _ := rfl

end Within

/-! ## Changes -/

namespace Change

variable {path name parent source dest : String}

theorem within_createEntry {content : Content} {r : FileTree × Node}
    (hc : t.createEntry s name parent content = .ok r) : Within [.create] t r.1 := by
  obtain ⟨d, -, -, -, -, rfl⟩ := createEntry_eq_ok hc
  exact .attach t s d.id _ name content false

/-- Directories that are created one after another show as creations. -/
theorem within_createAll {missing : List (String × String)} {i : Nat}
    (hc : t.createAll s i missing = .ok t') : Within [.create] t t' := by
  refine createAll_induction (P := fun _ u => Within [.create] t u) hc (.refl _ t) ?_
  intro i u m r hu hr
  exact hu.trans (within_createEntry hr) (Or.inr (by decide))

theorem within_moveAs (hc : t.moveAs s source dest name = .ok t') :
    Within [.relocate] t t' := by
  obtain ⟨n, oldParent, d, -, -, -, -, -, -, -, -, rfl⟩ := moveAs_eq_ok hc
  exact .relocate t s.now n.id oldParent d.id _ _ name

/-- A change shows as those of its kind do. -/
theorem within_of_run {c : Change} (hc : c.run s t = .ok t') : Within [c.kind] t t' := by
  cases c with
  | changeDirectory path =>
    obtain ⟨n, -, -, rfl⟩ := changeDirectory_eq_ok hc
    exact .setCwd t n.id
  | createFile name parent text =>
    obtain ⟨r, hr, rfl⟩ := map_eq_ok hc
    exact within_createEntry hr
  | createDirectory name parent =>
    obtain ⟨r, hr, rfl⟩ := map_eq_ok hc
    exact within_createEntry hr
  | createPath path =>
    obtain ⟨missing, hmissing⟩ := createPath_eq_ok hc
    exact within_createAll hmissing
  | delete path =>
    obtain ⟨r, hr, rfl⟩ := map_eq_ok hc
    obtain ⟨n, parent, -, -, -, rfl⟩ := delete_eq_ok hr
    exact .detach t parent n.id
  | rename path name => exact within_moveAs hc
  | move source dest =>
    obtain ⟨n, -, hmove⟩ := move_eq_ok hc
    exact within_moveAs hmove
  | moveAs source dest name => exact within_moveAs hc
  | write path text =>
    obtain ⟨n, -, -, -, rfl⟩ := write_eq_ok hc
    refine .modifyNode ?_ .write (Or.inl rfl) t n.id
    exact fun _ => rfl
  | touch path =>
    obtain ⟨n, -, -, rfl⟩ := touch_eq_ok hc
    refine .modifyNode ?_ .touch (Or.inr ?_) t n.id
    · exact fun _ => rfl
    · exact fun _ => rfl

end Change

/-! ## Evolution by some kinds of changes -/

/-- An evolution shows as changes of its kinds do. -/
theorem Evolution.within {kinds : List Change.Kind} {a b : Nat × FileTree}
    (h : Evolution (·.kind ∈ kinds) s a b) (hkinds : .create ∉ kinds ∨ .remove ∉ kinds) :
    Within kinds a.2 b.2 := by
  refine h.induction (P := fun _ u => Within kinds a.2 u) (.refl _ _) ?_
  intro i j u v c _ hu hkind hc
  have hlast : Within kinds u v := (Change.within_of_run hc).mono fun k hk => by
    rw [List.mem_singleton.1 hk]
    exact hkind
  exact hu.trans hlast hkinds

/-- A sequence of successful changes of some kinds leads from one tree to the other, turn by turn. -/
def EvolvesBy (kinds : List Change.Kind) (s : Supply) (t t' : FileTree) : Prop :=
  ∃ n, Evolution (·.kind ∈ kinds) s (0, t) (n, t')

namespace EvolvesBy

variable {kinds : List Change.Kind}

theorem refl (kinds : List Change.Kind) (s : Supply) (t : FileTree) : EvolvesBy kinds s t t :=
  ⟨0, .refl _ s _⟩

/-- One change is made in the first turn. -/
theorem of_run {c : Change} (hc : c.run (s.turn 0) t = .ok t') (hkind : c.kind ∈ kinds) :
    EvolvesBy kinds s t t' :=
  ⟨1, .of_run hc hkind⟩

theorem evolves (h : EvolvesBy kinds s t t') : Evolves s t t' := by
  obtain ⟨n, hn⟩ := h
  exact ⟨n, hn.mono fun _ _ => trivial⟩

/-- Without changes of any kind the tree stays as it is. -/
theorem eq_of_nil (h : EvolvesBy [] s t t') : t' = t := by
  obtain ⟨n, hn⟩ := h
  refine hn.induction (P := fun _ u => u = t) rfl ?_
  intro i j u v c _ _ hkind _
  exact absurd hkind List.not_mem_nil

theorem within (h : EvolvesBy kinds s t t') (hkinds : .create ∉ kinds ∨ .remove ∉ kinds) :
    Within kinds t t' := by
  obtain ⟨n, hn⟩ := h
  exact hn.within hkinds

end EvolvesBy

end FileTree

end VirtualShell
