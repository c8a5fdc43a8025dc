import VirtualShell.Proofs.Shell.Removal
import VirtualShell.Proofs.Shell.TreeEffects
import VirtualShell.Proofs.Tree.Placement
import VirtualShell.Proofs.Tree.Transfer

/-!
# Operands that are treated one after another

`touch`, `mkdir`, `rm` and `mv` treat their operands one after another on a tree that changes, and an
operand may be read against another directory than the one before it. If no operand is complained
about, each has had its effect at its turn, and the effect is still there at the end: no operand undoes
what an earlier one did. The induction over the operands is done once (`Lasting.at_end`); for each
command it needs what one operand brings about at its turn, and that the treatment of another operand
leaves it as it is.
-/

namespace VirtualShell

open FileTree

variable {t t' u : FileTree} {s : Supply}

/-! ## Operands one after another -/

namespace Progress

variable {p : Progress}

/-- A step that is not complained about was made. -/
theorem of_attempt {result : Except TreeError FileTree} {wording : TreeError → String}
    (h : (p.attempt result wording).failed = false) :
    p.failed = false ∧ result = .ok (p.attempt result wording).tree := by
  cases result with
  | ok t => exact ⟨h, rfl⟩
  | error e => cases h

end Progress

/-- The effects of operands last: `brought a t u` says that the operand `a`, read in the tree `t` at
its turn, has had its effect in the tree `u`. The trees at all turns are `fit`. -/
structure Lasting (step : Progress → String → Progress) (fit : FileTree → Prop)
    (brought : String → FileTree → FileTree → Prop) : Prop where
  failed : ∀ p a, (step p a).failed = false → p.failed = false
  stays : ∀ p a, fit p.tree → (step p a).failed = false → fit (step p a).tree
  turn : ∀ p a, fit p.tree → (step p a).failed = false → brought a p.tree (step p a).tree
  later : ∀ p a, fit p.tree → (step p a).failed = false →
    ∀ b t, brought b t p.tree → brought b t (step p a).tree

namespace Lasting

variable {step : Progress → String → Progress} {fit : FileTree → Prop}
  {brought : String → FileTree → FileTree → Prop} {operands : List String} {p : Progress}

/-- If no operand was complained about, each has had its effect at the end. The induction takes the
last operand off: those before it have had their effects when its turn comes. -/
theorem at_end (hl : Lasting step fit brought) (hfit : fit p.tree)
    (h : (operands.foldl step p).failed = false) :
    fit (operands.foldl step p).tree ∧ ∀ before a after, operands = before ++ a :: after →
      brought a (before.foldl step p).tree (operands.foldl step p).tree := by
  induction operands using List.reverseRecOn with
  | nil => exact ⟨hfit, fun before a after hsplit => by simp at hsplit⟩
  | append_singleton operands b ih =>
    rw [List.foldl_append, List.foldl_cons, List.foldl_nil] at h ⊢
    obtain ⟨hmid, hdone⟩ := ih (hl.failed _ _ h)
    refine ⟨hl.stays _ _ hmid h, fun before a after hsplit => ?_⟩
    rcases List.eq_nil_or_concat after with rfl | ⟨after, c, rfl⟩
    · obtain ⟨rfl, hlast⟩ := List.append_inj' hsplit rfl
      obtain rfl : b = a := by simpa using hlast
      exact hl.turn _ _ hmid h
    · rw [List.concat_eq_append, ← List.cons_append, ← List.append_assoc] at hsplit
      exact hl.later _ _ hmid h _ _ (hdone before a after (List.append_inj' hsplit rfl).1)

/-- An effect that does not depend on the turn is there for every operand. -/
theorem of_mem {found : String → FileTree → Prop} (hl : Lasting step fit fun a _ u => found a u)
    (hfit : fit p.tree) (h : (operands.foldl step p).failed = false) :
    ∀ a ∈ operands, found a (operands.foldl step p).tree := by
  intro a ha
  obtain ⟨before, after, hsplit⟩ := List.append_of_mem ha
  exact (hl.at_end hfit h).2 before a after hsplit

end Lasting

namespace Command

/-! ## Nodes that are created -/

section Creation

variable {p : Progress} {file dir : String}

/-- An operand that `touch` does not complain about had its node touched, or a file was created. -/
theorem touchFile_made (hok : (touchFile s p file).failed = false) :
    p.failed = false ∧
      (((p.tree.find? (p.tree.resolve file)).isSome = true ∧
        p.tree.touch (s.turn p.turn) (p.tree.resolve file) = .ok (touchFile s p file).tree) ∨
      ∃ r, p.tree.createFile (s.turn p.turn) (Path.basename (p.tree.resolve file))
        (Path.dirname (p.tree.resolve file)) "" = .ok r ∧ (touchFile s p file).tree = r.1) := by
  have hmade : (if (p.tree.find? (p.tree.resolve file)).isSome then
      p.tree.touch (s.turn p.turn) (p.tree.resolve file)
    else (·.1) <$> p.tree.createFile (s.turn p.turn) (Path.basename (p.tree.resolve file))
      (Path.dirname (p.tree.resolve file)) "") = .ok (touchFile s p file).tree :=
    (Progress.of_attempt hok).2
  refine ⟨(Progress.of_attempt hok).1, ?_⟩
  split at hmade
  · next hsome => exact Or.inl ⟨hsome, hmade⟩
  · obtain ⟨r, hr, htree⟩ := Change.map_eq_ok hmade
    exact Or.inr ⟨r, hr, htree.symm⟩

/-- What was touched is there, and touching other files does not take it away. -/
theorem lasting_touchFile (s : Supply) :
    Lasting (touchFile s) Consistent fun file _ u => ∃ n, u.find? file = some n := by
  have hwithin : ∀ p file, Within [.create, .touch] p.tree (touchFile s p file).tree :=
    fun p file => (advances_touchFile p file).within (Or.inr (by decide))
  have hcons : ∀ p file, p.tree.Consistent → (touchFile s p file).tree.Consistent :=
    fun p file => (advances_touchFile p file).consistent
  have hstays : ∀ p file, p.tree.Consistent → ∀ input n, p.tree.find? input = some n →
      ∃ m, (touchFile s p file).tree.find? input = some m := by
    intro p file h input n hn
    obtain ⟨m, hm, -⟩ := (hwithin p file).exists_find? h (hcons p file h) (by decide) (by decide)
      (by decide) (by decide) hn
    exact ⟨m, hm⟩
  refine ⟨fun p file hok => (touchFile_made hok).1, fun p file h _ => hcons p file h,
    fun p file h hok => ?_, fun p file h _ input _ ⟨n, hn⟩ => hstays p file h input n hn⟩
  rcases (touchFile_made hok).2 with ⟨hsome, -⟩ | ⟨r, hr, htree⟩
  · rw [h.find?_resolve] at hsome
    obtain ⟨n, hn⟩ := Option.isSome_iff_exists.1 hsome
    exact hstays p file h file n hn
  · rw [htree]
    exact ⟨r.2, ((h.createsAt_createEntry _ file (Or.inr ⟨"", rfl⟩)).2 r.1 r.2 hr).1⟩

/-- An operand that `mkdir` does not complain about was created, alone or with all above it. -/
theorem DirectoryRequest.make_made (r : DirectoryRequest) (hok : (r.make s p dir).failed = false) :
    p.failed = false ∧
      (p.tree.createPath (s.turn p.turn) (p.tree.resolve dir) = .ok (r.make s p dir).tree ∨
      ∃ result, p.tree.createDirectory (s.turn p.turn) (Path.basename (p.tree.resolve dir))
        (Path.dirname (p.tree.resolve dir)) = .ok result ∧ (r.make s p dir).tree = result.1) := by
  have hmade : (if r.parents then p.tree.createPath (s.turn p.turn) (p.tree.resolve dir)
    else (·.1) <$> p.tree.createDirectory (s.turn p.turn) (Path.basename (p.tree.resolve dir))
      (Path.dirname (p.tree.resolve dir))) = .ok (r.make s p dir).tree :=
    (Progress.of_attempt hok).2
  refine ⟨(Progress.of_attempt hok).1, ?_⟩
  split at hmade
  · exact Or.inl hmade
  · obtain ⟨result, hresult, htree⟩ := Change.map_eq_ok hmade
    exact Or.inr ⟨result, hresult, htree.symm⟩

/-- What was made is a directory, and making other directories leaves it one. -/
theorem DirectoryRequest.lasting_make (r : DirectoryRequest) (s : Supply) :
    Lasting (r.make s) Consistent
      fun dir _ u => ∃ n, u.find? dir = some n ∧ n.isDirectory = true := by
  have hwithin : ∀ p dir, Within [.create] p.tree (r.make s p dir).tree :=
    fun p dir => (advances_make r p dir).within (Or.inr (by decide))
  have hcons : ∀ p dir, p.tree.Consistent → (r.make s p dir).tree.Consistent :=
    fun p dir => (advances_make r p dir).consistent
  refine ⟨fun p dir hok => (r.make_made hok).1, fun p dir h _ => hcons p dir h,
    fun p dir h hok => ?_, ?_⟩
  · rcases (r.make_made hok).2 with hpath | ⟨result, hresult, htree⟩
    · have hdir := h.directory_of_createPath hpath
      rw [h.resolve_resolve, ← (hwithin p dir).resolve_eq h (by decide) (by decide) (by decide)]
        at hdir
      exact hdir
    · obtain ⟨hfound, d, -, hcreated⟩ :=
        (h.createsAt_createEntry _ dir (Or.inl rfl)).2 result.1 result.2 hresult
      refine ⟨result.2, htree ▸ hfound, ?_⟩
      rw [Node.isDirectory, congrArg Node.content hcreated.node_eq]
  · rintro p dir h - input - ⟨n, hn, hdir⟩
    obtain ⟨m, hm, hsame⟩ := (hwithin p dir).exists_find? h (hcons p dir h) (by decide) (by decide)
      (by decide) (by decide) hn
    exact ⟨m, hm, hsame.trans hdir⟩

/-- An argument that asks `mkdir` for the directories above its operands. -/
def asksParents (arg : String) : Bool := arg == "-p" || arg == "--parents"

theorem DirectoryRequest.operands_of_argument {arg : String} {r₀ r : DirectoryRequest}
    (h : r₀.argument arg = .ok r) :
    r.operands = r₀.operands ++ [arg].filter (!asksParents ·) := by
  unfold DirectoryRequest.argument at h
  split at h
  · next hasks =>
    cases h
    rcases hasks with rfl | rfl <;> simp [asksParents]
  · next hplain =>
    rw [not_or] at hplain
    split at h
    · cases h
    · cases h
      simp [asksParents, hplain]

/-- The option of `mkdir` may stand anywhere; all other arguments are operands, in their order. -/
theorem DirectoryRequest.operands_of_arguments {args : List String} {r₀ r : DirectoryRequest}
    (h : args.foldlM DirectoryRequest.argument r₀ = .ok r) :
    r.operands = r₀.operands ++ args.filter (!asksParents ·) := by
  induction args generalizing r₀ with
  | nil => cases h; simp
  | cons arg args ih =>
    rw [List.foldlM_cons] at h
    cases hc : r₀.argument arg with
    | error e => rw [hc] at h; cases h
    | ok r₁ =>
      rw [hc] at h
      rw [ih h, operands_of_argument hc, List.append_assoc, ← List.filter_append]
      rfl

end Creation

/-! ## Nodes that are removed -/

section Removal

variable {p : Progress} {operand : String}

/-- An operand that `rm` does not complain about names nothing, or what it names was deleted. -/
theorem Removal.remove_made (r : Removal) (hok : (r.remove p operand).failed = false) :
    p.failed = false ∧
      (p.tree.find? (p.tree.resolve operand) = none ∧ (r.remove p operand).tree = p.tree ∨
      ∃ result, p.tree.delete (p.tree.resolve operand) = .ok result ∧
        (r.remove p operand).tree = result.1) := by
  unfold Removal.remove at hok ⊢
  dsimp only at hok ⊢
  split at hok
  · next hnone =>
    split at hok
    · next hforce => exact ⟨hok, Or.inl ⟨hnone, by simp [hforce]⟩⟩
    · cases hok
  · split at hok
    · cases hok
    · next hdir =>
      rw [if_neg hdir]
      obtain ⟨hp, hmade⟩ := Progress.of_attempt hok
      obtain ⟨result, hresult, htree⟩ := Change.map_eq_ok hmade
      exact ⟨hp, Or.inr ⟨result, hresult, htree.symm⟩⟩

/-- What was removed is gone, and removing other nodes does not bring it back. -/
theorem Removal.lasting_remove (r : Removal) :
    Lasting r.remove Consistent fun operand t u =>
      Path.Normal (t.resolve operand) ∧ u.lookup? (t.resolve operand) = none := by
  have hpruned : ∀ p operand, p.tree.Consistent → Pruned p.tree (r.remove p operand).tree :=
    fun p operand h => (r.remove_spec h (.refl h) operand).1
  refine ⟨fun p operand hok => (r.remove_made hok).1,
    fun p operand h _ => (hpruned p operand h).consistent, fun p operand h hok => ?_,
    fun p operand h _ _ _ hgone => ⟨hgone.1, (hpruned p operand h).lookup?_eq_none hgone.2⟩⟩
  refine ⟨h.normal_resolve operand, ?_⟩
  rcases (r.remove_made hok).2 with ⟨hnone, htree⟩ | ⟨result, hresult, htree⟩
  · rw [htree, ← find?, ← h.find?_resolve, hnone]
  · rw [htree, ← h.resolve_resolve, h.lookup?_delete hresult]

end Removal

/-! ## Nodes that are moved -/

section Move

variable {dir : NodeId} {dest destPath source : String}

/-- The tree has a certain directory at a path. -/
def HasDirectory (path : String) (dir : NodeId) (t : FileTree) : Prop :=
  t.Consistent ∧ ∃ d, t.lookup? path = some d ∧ d.id = dir ∧ d.isDirectory = true

/-- The node that a source names in the first tree is in the second one a child of a directory, under
the name that it had. -/
def ChildOf (dir : NodeId) (source : String) (t u : FileTree) : Prop :=
  ∃ n m, t.find? source = some n ∧ u.node? n.id = some m ∧ m.name = n.name ∧ m.parent = some dir

/-- A move into a directory. -/
theorem HasDirectory.transferred (hd : HasDirectory destPath dir t) (hdest : Path.Normal destPath)
    (hmove : t.move s source destPath = .ok t') :
    ∃ top old d, t.find? source = some top ∧ t.lookup? destPath = some d ∧ d.id = dir ∧
      d.isDirectory = true ∧ ¬ Path.Extends d.path top.path ∧
      t.lookup? (Path.join destPath top.name) = none ∧
      t.Transferred s.now top old d top.name t' := by
  obtain ⟨h, d, hdfind, hid, hdir⟩ := hd
  obtain ⟨n, hn, hmoveAs⟩ := move_eq_ok hmove
  obtain ⟨top, old, d', htop, hd', -, hout, hfree, hmoved⟩ := h.exists_transferred hmoveAs
  rw [h.resolve_resolve, hn, Option.some.injEq] at htop
  subst htop
  rw [resolve, Path.resolve_of_normal hdest] at hd' hfree
  rw [hdfind, Option.some.injEq] at hd'
  subst hd'
  exact ⟨n, old, d, hn, hdfind, hid, hdir, hout, hfree, hmoved⟩

/-- The directory stays where it is: it does not lie within what is moved into it. -/
theorem HasDirectory.of_move (hd : HasDirectory destPath dir t) (hdest : Path.Normal destPath)
    (hmove : t.move s source destPath = .ok t') : HasDirectory destPath dir t' := by
  obtain ⟨top, old, d, -, hdfind, hid, hdir, hout, -, hmoved⟩ := hd.transferred hdest hmove
  have hcons := hd.1.move hmove
  obtain ⟨hdnode, hdpath⟩ := hd.1.lookup?_eq_some.1 hdfind
  obtain ⟨d', hd', hnode⟩ := hmoved.moved d.id d hdnode
  refine ⟨hcons, d', hcons.lookup?_eq_some.2 ⟨?_, ?_⟩, hnode.id_eq.trans hid, ?_⟩
  · rw [hnode.id_eq, hd']
  · exact (hnode.path_eq hout).trans hdpath
  · rw [Node.isDirectory, hnode.content_eq]
    split_ifs
    · exact hdir
    · rfl
    · rfl
    · exact hdir

theorem childOf_of_move (hd : HasDirectory destPath dir t) (hdest : Path.Normal destPath)
    (hmove : t.move s source destPath = .ok t') : ChildOf dir source t t' := by
  obtain ⟨top, old, d, htop, -, hid, -, -, -, hmoved⟩ := hd.transferred hdest hmove
  obtain ⟨m, hm, hnode⟩ := hmoved.moved top.id top (hd.1.lookup?_eq_some.1 htop).1
  obtain ⟨hname, hparent, -⟩ := hnode.place_of_top rfl
  exact ⟨top, m, htop, hm, hname, hparent.trans (congrArg some hid)⟩

/-- What was moved into the directory is not moved once more: its place would have to be free. -/
theorem ChildOf.of_move {b : String} (hb : ChildOf dir b u t) (hd : HasDirectory destPath dir t)
    (hdest : Path.Normal destPath) (hmove : t.move s source destPath = .ok t') :
    ChildOf dir b u t' := by
  obtain ⟨top, old, d, htop, hdfind, hid, -, -, hfree, hmoved⟩ := hd.transferred hdest hmove
  obtain ⟨n, m, hn, hm, hname, hparent⟩ := hb
  obtain ⟨m', hm', hnode⟩ := hmoved.moved n.id m hm
  have hplace : m.path = Path.join destPath m.name := by
    obtain ⟨d', hd', -, -, hpath, -⟩ := hd.1.parent_spec hm hparent
    obtain ⟨hdnode, hdpath⟩ := hd.1.lookup?_eq_some.1 hdfind
    rw [← hid, hdnode, Option.some.injEq] at hd'
    rw [hpath, ← hd', hdpath]
  have hne : m.id ≠ top.id := by
    intro heq
    have htopnode := (hd.1.lookup?_eq_some.1 htop).1
    rw [← heq, hd.1.key_eq_id _ _ hm, hm, Option.some.injEq] at htopnode
    subst htopnode
    exact FileTree.lookup?_eq_none.1 hfree n.id m hm hplace
  obtain ⟨hname', hparent', -⟩ := hnode.place_eq hne
  exact ⟨n, m', hn, hm', hname'.trans hname, hparent'.trans hparent⟩

theorem lasting_moveOne (s : Supply) (dest : String) (hdest : Path.Normal destPath) :
    Lasting (moveOne s dest destPath true) (HasDirectory destPath dir) (ChildOf dir) := by
  have hmade : ∀ p source, (moveOne s dest destPath true p source).failed = false →
      p.failed = false ∧
        p.tree.move (s.turn p.turn) source destPath =
          .ok (moveOne s dest destPath true p source).tree :=
    fun p source hok => Progress.of_attempt hok
  exact ⟨fun p source hok => (hmade p source hok).1,
    fun p source hd hok => hd.of_move hdest (hmade p source hok).2,
    fun p source hd hok => childOf_of_move hd hdest (hmade p source hok).2,
    fun p source hd hok b t hb => hb.of_move hd hdest (hmade p source hok).2⟩

/-- The source of a move that is not into a directory is at the path that was named. -/
theorem found_of_moveAs (h : t.Consistent) (hdest : Path.Normal destPath) (hne : destPath ≠ "/")
    (hmove : t.moveAs s source (Path.dirname destPath) (Path.basename destPath) = .ok t') :
    ∃ n m, t.find? source = some n ∧ t'.find? destPath = some m ∧ m.id = n.id := by
  obtain ⟨top, old, d, htop, hd, -, -, -, hmoved⟩ := h.exists_transferred hmove
  obtain ⟨m, hm, hnode⟩ := hmoved.moved top.id top (h.lookup?_eq_some.1 htop).1
  have hpath : m.path = destPath := by
    rw [hnode.path_of_tail "" (Or.inl rfl) (by simp), String.append_empty,
      (h.lookup?_eq_some.1 hd).2, resolve, Path.resolve_of_normal (Path.normal_dirname destPath),
      (hdest.join_dirname_basename hne).2]
  refine ⟨top, m, htop, ?_, hnode.id_eq⟩
  rw [find?_of_normal hdest, (h.moveAs hmove).lookup?_eq_some, hnode.id_eq]
  exact ⟨hm, hpath⟩

end Move

end Command

end VirtualShell
