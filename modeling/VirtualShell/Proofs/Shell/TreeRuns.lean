import VirtualShell.Proofs.Shell.TreeEffects
import VirtualShell.Proofs.Tree.Acceptance
import VirtualShell.Proofs.Tree.Starter
import VirtualShell.Snapshot
import VirtualShell.Tree.Fresh

/-!
# Runs on a tree

A tree starts as the starter layout, as its root alone, or as a stored tree that was accepted. A run
is any sequence of changes, resets, imports and lines, of which each may be refused. One step keeps a
consistent tree consistent (`Step.consistent`), and the check of stored trees accepts exactly the
consistent ones, so that it accepts every tree of every run (`accepted_of_run`).
-/

namespace VirtualShell

namespace FileTree

/-- The trees that a run may start with. -/
inductive Initial : FileTree → Prop
  | seed (s : Supply) : Initial (.seed s)
  | empty (s : Supply) : Initial (.empty s)
  | stored {text : String} {t : FileTree} (h : ofSnapshot text = .ok t) : Initial t

/-- A step of a run. Every step has its own supply, and a line its own options and session. -/
inductive Step where
  | change (s : Supply) (c : Change)
  | reset (s : Supply)
  | restore (text : String)
  | line (s : Surroundings) (session : Session) (input : String)

/-- The tree after a step. A change or an import that is refused leaves it as it was. -/
def Step.apply (t : FileTree) : Step → FileTree
  | change s c => c.after s t
  | reset s => .seed s
  | restore text =>
    match ofSnapshot text with
    | .ok t' => t'
    | .error _ => t
  | line s session input => (Shell.exec s ⟨t, session⟩ input).2.tree

theorem consistent_of_accept {t t' : FileTree} (h : t.accept = .ok t') : t'.Consistent := by
  unfold accept at h
  split at h
  · cases h
  · next hd =>
    cases h
    exact defect?_eq_none_iff.1 hd

theorem consistent_of_ofSnapshot {text : String} {t : FileTree} (h : ofSnapshot text = .ok t) :
    t.Consistent := by
  unfold ofSnapshot at h
  split at h
  · exact consistent_of_accept h
  · cases h

theorem Initial.consistent {t : FileTree} (h : Initial t) : t.Consistent := by
  cases h with
  | seed s => exact consistent_seed s
  | empty s => exact consistent_empty s
  | stored h => exact consistent_of_ofSnapshot h

/-- Every step keeps a consistent tree consistent. -/
theorem Step.consistent {t : FileTree} (h : t.Consistent) (step : Step) :
    (step.apply t).Consistent := by
  cases step with
  | change s c => exact Change.consistent_after s h c
  | reset s => exact consistent_seed s
  | restore text =>
    rw [apply]
    split
    · next ht => exact consistent_of_ofSnapshot ht
    · exact h
  | line s session input => exact (Shell.evolves_exec s ⟨t, session⟩ input).consistent h

theorem consistent_of_run {t : FileTree} (h : t.Consistent) (steps : List Step) :
    (steps.foldl Step.apply t).Consistent := by
  induction steps generalizing t with
  | nil => exact h
  | cons step steps ih => exact ih (step.consistent h)

/-- The tree after any run is consistent and is accepted by the check of stored trees. -/
theorem accepted_of_run {t : FileTree} (h : Initial t) (steps : List Step) :
    (steps.foldl Step.apply t).accept = .ok (steps.foldl Step.apply t) ∧
      (steps.foldl Step.apply t).Consistent := by
  have hcons := consistent_of_run h.consistent steps
  refine ⟨?_, hcons⟩
  rw [accept, defect?_eq_none_iff.2 hcons]

/-- A run on the starter layout: a move beneath the directory that is moved is refused, a line
removes the current directory, and a text that is no stored tree is not imported. -/
theorem accepted_of_run_from_seed :
    let s : Supply := ⟨.still ⟨0, 0⟩, .counting⟩
    let steps := [Step.change s (.move "/home" "/home/user"),
      Step.line ⟨s, {}⟩ default "rm -r .", Step.restore "no tree"]
    Initial (seed s) ∧ (steps.foldl Step.apply (seed s)).accept =
      .ok (steps.foldl Step.apply (seed s)) := by
  intro s steps
  exact ⟨.seed s, (accepted_of_run (.seed s) steps).1⟩

end FileTree

end VirtualShell
