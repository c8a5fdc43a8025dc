import VirtualShell.Proofs.Shell.TreeRuns
import VirtualShell.Proofs.Tree.ReadOnly

/-!
# Read-only nodes over runs

A run of changes and lines keeps every read-only node of the tree that it begins with, whatever is
moved, removed or written on the way (`readOnly_of_run`). Only a reset and an import are left out, as
they put another tree in the place of the present one. In the starter layout `/system` is read-only and
lies beneath the root, and `/system/boot.cfg` is read-only too; so both stay at their paths.
-/

namespace VirtualShell

namespace FileTree

variable {t t' : FileTree}

/-- A step that goes on with the present tree. -/
def Step.goesOn : Step → Bool
  | change _ _ => true
  | line _ _ _ => true
  | reset _ => false
  | restore _ => false

theorem Step.keepsReadOnly (h : t.Consistent) {step : Step} (hin : step.goesOn = true) :
    t.KeepsReadOnly (step.apply t) := by
  cases step with
  | change s c => exact Change.keepsReadOnly_after h s c
  | line s session input => exact (Shell.evolves_exec s ⟨t, session⟩ input).keepsReadOnly h
  | reset s => cases hin
  | restore text => cases hin

theorem keepsReadOnly_of_run (h : t.Consistent) {steps : List Step}
    (hin : ∀ step ∈ steps, step.goesOn = true) :
    t.KeepsReadOnly (steps.foldl Step.apply t) := by
  induction steps generalizing t with
  | nil => exact .refl t
  | cons step steps ih =>
    have hfirst := Step.keepsReadOnly h (hin step List.mem_cons_self)
    exact hfirst.trans (ih (step.consistent h) fun s hs => hin s (List.mem_cons_of_mem _ hs))

/-! ## Paths that stay -/

/-- What is found beneath the root, or beneath a sealed directory that is read-only, is sealed. -/
theorem Consistent.sealed_of_lookup?_join (h : t.Consistent) {path name : String} {d n : Node}
    (hd : t.lookup? path = some d) (hname : validName name = true)
    (hn : t.lookup? (Path.join path name) = some n)
    (hseal : d.id = t.root ∨ d.readOnly = true ∧ t.Sealed d.id) : t.Sealed n.id := by
  obtain ⟨hdnode, -⟩ := h.lookup?_eq_some.1 hd
  obtain ⟨hnode, -⟩ := h.lookup?_eq_some.1 hn
  have hmem := (h.mem_children_of_lookup?_join hd hname hn).1
  exact h.sealed_of_parent hnode (h.parent_eq_of_mem_children hdnode hmem hnode) hdnode hseal

/-- A sealed read-only node is found at its old path. -/
theorem KeepsReadOnly.lookup? (hk : t.KeepsReadOnly t') (h : t.Consistent) (h' : t'.Consistent)
    {path : String} {n : Node} (hn : t.lookup? path = some n) (hro : n.readOnly = true)
    (hs : t.Sealed n.id) : ∃ m, t'.lookup? path = some m ∧ n.Preserved m := by
  obtain ⟨hnode, hpath⟩ := h.lookup?_eq_some.1 hn
  obtain ⟨m, hm, hkept⟩ := hk.node n.id n hnode hro
  refine ⟨m, h'.lookup?_eq_some.2 ⟨hkept.id ▸ hm, ?_⟩, hkept⟩
  rw [hk.path_eq h h' hnode hro hs hm, hpath]

/-- The system directory and the boot configuration in the starter layout. -/
theorem locked_seed (s : Supply) : ∃ d n, (seed s).lookup? "/system" = some d ∧
    d.readOnly = true ∧ (seed s).Sealed d.id ∧ (seed s).lookup? "/system/boot.cfg" = some n ∧
    n.readOnly = true ∧ (seed s).Sealed n.id ∧ n.content = .file Seed.bootText := by
  have h := consistent_seed s
  let system := (Seed.dir "/" "system").locked
  let boot := (Seed.file "/system" "boot.cfg" Seed.bootText).locked
  have hsystem : system.place.1 = "/system" := by decide
  have hboot : boot.place.1 = "/system/boot.cfg" := by decide
  obtain ⟨r, hr, hroot, -⟩ := h.lookup?_root
  obtain ⟨d, hd, hdro, -⟩ := planted_seed s (e := system) (by simp [Seed.layout, system])
  obtain ⟨n, hn, hnro, htext⟩ := planted_seed s (e := boot) (by simp [Seed.layout, boot])
  have hds := h.sealed_of_lookup?_join hr (by decide) hd (Or.inl hroot)
  rw [hsystem] at hd
  have hns := h.sealed_of_lookup?_join hd (by decide) hn (Or.inr ⟨hdro, hds⟩)
  rw [hboot] at hn
  exact ⟨d, n, hd, hdro, hds, hn, hnro, hns, htext _ rfl⟩

/-- Every read-only node of a tree that the check accepts is there after every run that goes on with
the tree, and it is the same but for its children; its path is the same if all above it but the root
is read-only too. So the system directory of the starter layout and the boot configuration in it stay
where they are, and the configuration keeps its text. -/
theorem readOnly_of_run {steps : List Step} (hin : ∀ step ∈ steps, step.goesOn = true) :
    (∀ t : FileTree, t.defect? = none → ∀ id n, t.node? id = some n → n.readOnly = true →
      ∃ m, (steps.foldl Step.apply t).node? id = some m ∧ n.Preserved m ∧
        (t.Sealed id → m.path = n.path)) ∧
    ∀ s : Supply,
      (∃ n m, (seed s).lookup? "/system" = some n ∧
        (steps.foldl Step.apply (seed s)).lookup? "/system" = some m ∧
        n.Preserved m ∧ m.readOnly = true) ∧
      ∃ n m, (seed s).lookup? "/system/boot.cfg" = some n ∧
        (steps.foldl Step.apply (seed s)).lookup? "/system/boot.cfg" = some m ∧
        n.Preserved m ∧ m.readOnly = true ∧ m.content = .file Seed.bootText := by
  refine ⟨fun t haccepted id n hn hro => ?_, fun s => ?_⟩
  · have h := defect?_eq_none_iff.1 haccepted
    have hk := keepsReadOnly_of_run h hin
    obtain ⟨m, hm, hkept⟩ := hk.node id n hn hro
    exact ⟨m, hm, hkept, fun hs => hk.path_eq h (consistent_of_run h steps) hn hro hs hm⟩
  · have h := consistent_seed s
    have h' := consistent_of_run h steps
    have hk := keepsReadOnly_of_run h hin
    obtain ⟨d, n, hd, hdro, hds, hn, hnro, hns, htext⟩ := locked_seed s
    obtain ⟨d', hd', hdkept⟩ := hk.lookup? h h' hd hdro hds
    obtain ⟨n', hn', hnkept⟩ := hk.lookup? h h' hn hnro hns
    have htext' := hnkept.text?.trans (Node.text?_eq_some.2 htext)
    exact ⟨⟨d, d', hd, hd', hdkept, hdkept.readOnly.trans hdro⟩,
      n, n', hn, hn', hnkept, hnkept.readOnly.trans hnro, Node.text?_eq_some.1 htext'⟩

/-- On the starter layout the system directory is moved, removed and written to, in vain. -/
theorem readOnly_of_run_from_seed :
    let s : Supply := ⟨.still ⟨0, 0⟩, .counting⟩
    let line := Step.line ⟨s, {}⟩ default
    let steps := [Step.change s (.move "/system" "/home"), line "rm -rf /system",
      line "echo free > /system/boot.cfg"]
    (∀ step ∈ steps, step.goesOn = true) ∧ (seed s).defect? = none ∧
      (∃ n m, (seed s).node? ⟨"3"⟩ = some n ∧ n.readOnly = true ∧
        (steps.foldl Step.apply (seed s)).node? ⟨"3"⟩ = some m ∧ n.Preserved m) ∧
      ∃ m, (steps.foldl Step.apply (seed s)).lookup? "/system/boot.cfg" = some m ∧
        m.content = .file Seed.bootText := by
  intro s line steps
  have hin : ∀ step ∈ steps, step.goesOn = true := by simp [steps, line, Step.goesOn]
  have haccepted := defect?_eq_none_iff.2 (consistent_seed s)
  have hlocked : ((seed s).node? ⟨"3"⟩).map (·.readOnly) = some true := by decide
  obtain ⟨n, hn, hro⟩ := Option.map_eq_some_iff.1 hlocked
  obtain ⟨m, hm, hkept, -⟩ := (readOnly_of_run hin).1 (seed s) haccepted _ n hn hro
  obtain ⟨-, -, m', -, hm', -, -, htext⟩ := (readOnly_of_run hin).2 s
  exact ⟨hin, haccepted, ⟨n, m, hn, hro, hm, hkept⟩, m', hm', htext⟩

end FileTree

end VirtualShell
