import VirtualShell.Proofs.Shell.TreeRuns
import VirtualShell.Proofs.Tree.InPlace

/-!
# Refusals

What is refused leaves no trace: the tree, or the whole terminal, is as it was (`refused_unchanged`).
The operations work in place, write by write, and nothing is taken back. For the changes of a tree
this comes from `FileTree.Change.run_work`. A stored tree is checked before it takes the place of the
present one, and after it no step of a restoration can be refused (`Terminal.run_restore`).
-/

namespace VirtualShell

namespace FileTree

theorem run_importTree (stored t : FileTree) :
    (importTree stored).run t = settle (·, ()) t stored.accept := by
  rw [importTree, accept]
  cases stored.defect? with
  | some d => rfl
  | none => rfl

theorem run_importSnapshot (text : String) (t : FileTree) :
    (importSnapshot text).run t = settle (·, ()) t (ofSnapshot text) := by
  rw [importSnapshot, ofSnapshot]
  cases (Json.parse? text).bind (decode? Json.depthLimit) with
  | none => rfl
  | some stored => exact run_importTree stored t

end FileTree

namespace Terminal

/-- The session of a terminal is replaced by a changed one. -/
theorem run_onSession (f : Session → Session) (t : Terminal) :
    (onSession f).run t = .ok ⟨⟩ ⟨t.options, t.world.tree, f t.world.session⟩ := rfl

theorem run_forM_onSession {β : Type} (xs : List β) (f : β → Session → Session) (t : Terminal) :
    (xs.forM fun x => onSession (f x)).run t =
      .ok ⟨⟩ ⟨t.options, t.world.tree, xs.foldl (fun s x => f x s) t.world.session⟩ := by
  induction xs generalizing t with
  | nil => rfl
  | cons x xs ih => exact ih _

theorem run_onTree_importTree (stored : FileTree) (t : Terminal) :
    (onTree (FileTree.importTree stored)).run t =
      settle (fun tree => (⟨t.options, tree, t.world.session⟩, ())) t stored.accept := by
  rw [EStateM.run, onTree, FileTree.run_importTree]
  cases stored.accept with
  | error e => rfl
  | ok tree => rfl

/-- A restoration, done step by step, answers like the import of the saved state. -/
theorem run_restore (t : Terminal) (now : Calendar.Instant) (text : String) :
    (restore now text).run t = settle (·, ()) t (t.importState now text) := by
  rw [restore, importState]
  cases SavedState.ofText? text with
  | none => rfl
  | some state =>
    dsimp only
    rw [EStateM.run_bind, run_onTree_importTree]
    cases state.tree.accept with
    | error e => rfl
    | ok tree =>
      dsimp only [settle]
      rw [EStateM.run_bind, EStateM.run_get]
      dsimp only
      rw [EStateM.run_bind, run_onSession]
      dsimp only
      rw [EStateM.run_bind, run_forM_onSession]
      rfl

end Terminal

open FileTree

/-- On a tree that the check accepts, a change or an import that is refused leaves the tree as it
was, and a saved state that is refused leaves the terminal as it was. -/
theorem refused_unchanged {t : FileTree} (h : t.defect? = none) :
    (∀ (s : Supply) (c : Change) e t', (c.work s).run t = .error e t' →
      t' = t ∧ c.run s t = .error e) ∧
    (∀ text e t', (importSnapshot text).run t = .error e t' →
      t' = t ∧ ofSnapshot text = .error e) ∧
    (∀ stored e t', (importTree stored).run t = .error e t' →
      t' = t ∧ stored.accept = .error e) ∧
    ∀ (terminal : Terminal) now text e terminal',
      (Terminal.restore now text).run terminal = .error e terminal' →
        terminal' = terminal ∧ terminal.importState now text = .error e := by
  have hcons := defect?_eq_none_iff.1 h
  refine ⟨?_, ?_, ?_, ?_⟩
  · intro s c e t' hrun
    rw [Change.run_work hcons] at hrun
    exact settle_eq_error hrun
  · intro text e t' hrun
    rw [run_importSnapshot] at hrun
    exact settle_eq_error hrun
  · intro stored e t' hrun
    rw [run_importTree] at hrun
    exact settle_eq_error hrun
  · intro terminal now text e terminal' hrun
    rw [Terminal.run_restore] at hrun
    exact settle_eq_error hrun

/-- A path through a file is refused, and nothing of it is created. -/
theorem refused_unchanged_through_file :
    let s : Supply := ⟨.still ⟨0, 0⟩, .counting⟩
    let c := Change.createPath "/system/boot.cfg/new/dir"
    (seed s).defect? = none ∧
      ∃ e t', (c.work s).run (seed s) = .error e t' ∧ t' = seed s := by
  intro s c
  have hcons := consistent_seed s
  have hrefused : c.run s (seed s) = .error (.notADirectory "/system/boot.cfg") := by decide
  have hrun := Change.run_work (s := s) hcons c
  rw [hrefused] at hrun
  have haccepted := defect?_eq_none_iff.2 hcons
  exact ⟨haccepted, _, _, hrun, ((refused_unchanged haccepted).1 s c _ _ hrun).1⟩

end VirtualShell
