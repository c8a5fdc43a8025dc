import VirtualShell.Proofs.Shell.Agreement
import VirtualShell.Proofs.Shell.SavedStates

/-!
# Cutting a session and going on

A terminal that took over a saved state cannot be told from the one that saved it, as long as no line
looks back to the time before: every further line has the same result and is followed by the same
prompt (`Terminal.transcript_restored`). For terminals with equal options, what is saved of them
already determines their answers (`Terminal.transcript_eq_of_saved_eq`).
-/

namespace VirtualShell

open Calendar

namespace Shell

instance (aliases : OrderedMap String String) (input : String) :
    Decidable (Quiet aliases input) :=
  decidable_of_iff (∀ p ∈ dispatched? aliases input, p.1.looksBack p.2 = false)
    ⟨fun h c args hp => h (c, args) hp, fun h p hp => h p.1 p.2 hp⟩

end Shell

namespace Terminal

/-- The terminal after some lines, each with its own supply. -/
def after (t : Terminal) (lines : List (Supply × String)) : Terminal :=
  lines.foldl (fun t line => (t.exec line.1 line.2).2) t

theorem after_cons (t : Terminal) (line : Supply × String) (lines : List (Supply × String)) :
    t.after (line :: lines) = (t.exec line.1 line.2).2.after lines := by
  simp only [after, List.foldl_cons]

/-- What is seen of lines that are executed one after another: the result of each line and the
prompt that follows it. -/
def transcript (t : Terminal) : List (Supply × String) → List (ExecResult × String)
  | [] => []
  | line :: lines =>
    let t' := (t.exec line.1 line.2).2
    ((t.exec line.1 line.2).1, t'.prompt) :: t'.transcript lines

/-- None of the lines looks back when its turn comes. -/
def QuietRun (t : Terminal) : List (Supply × String) → Prop
  | [] => True
  | line :: lines =>
    Shell.Quiet t.world.session.aliases line.2 ∧ (t.exec line.1 line.2).2.QuietRun lines

instance decidableQuietRun : (t : Terminal) → (lines : List (Supply × String)) →
    Decidable (t.QuietRun lines)
  | _, [] => inferInstanceAs (Decidable True)
  | t, line :: lines =>
    have := decidableQuietRun (t.exec line.1 line.2).2 lines
    inferInstanceAs (Decidable (_ ∧ _))

variable {t u : Terminal}

theorem prompt_eq_of_saved_eq (ho : t.options = u.options) (hs : t.saved = u.saved) :
    t.prompt = u.prompt := by
  have htree : t.world.tree = u.world.tree := congrArg SavedState.tree hs
  rw [prompt, prompt, ho, htree]

/-- A line that does not look back keeps terminals that save the same alike. -/
theorem exec_eq_of_saved_eq (ho : t.options = u.options) (hs : t.saved = u.saved) (s : Supply)
    {input : String} (hquiet : Shell.Quiet t.world.session.aliases input) :
    (t.exec s input).1 = (u.exec s input).1 ∧
      (t.exec s input).2.options = (u.exec s input).2.options ∧
        (t.exec s input).2.saved = (u.exec s input).2.saved := by
  obtain ⟨htree, hsession⟩ : t.world.tree = u.world.tree ∧ t.saved.session = u.saved.session :=
    ⟨congrArg SavedState.tree hs, congrArg SavedState.session hs⟩
  have haliases : t.world.session.aliases = u.world.session.aliases :=
    congrArg SavedSession.aliases hsession
  have hagree : { t.world with
      session := { t.world.session with cwd := t.world.tree.currentDirectory } }.Agree
      { u.world with session := { u.world.session with cwd := u.world.tree.currentDirectory } } := by
    refine ⟨htree, ?_, ?_, haliases, ?_⟩
    · exact congrArg FileTree.currentDirectory htree
    · exact congrArg SavedSession.env hsession
    · exact congrArg SavedSession.history hsession
  rw [haliases] at hquiet
  obtain ⟨hresult, hafter⟩ := Shell.exec_of_agree ⟨s, u.options⟩ hagree hquiet
  rw [exec_eq, exec_eq, ho]
  refine ⟨hresult, rfl, ?_⟩
  simp only [saved, hafter.tree, hafter.session.history, hafter.session.aliases,
    hafter.session.env]

/-- Terminals with equal options that save the same give the same answers to lines that do not look
back. -/
theorem transcript_eq_of_saved_eq (ho : t.options = u.options) (hs : t.saved = u.saved)
    {lines : List (Supply × String)} (hquiet : t.QuietRun lines) :
    t.transcript lines = u.transcript lines := by
  induction lines generalizing t u with
  | nil => rfl
  | cons line lines ih =>
    obtain ⟨hresult, ho', hs'⟩ := exec_eq_of_saved_eq ho hs line.1 hquiet.1
    have hprompt := prompt_eq_of_saved_eq ho' hs'
    rw [transcript, transcript, hresult, hprompt, ih ho' hs' hquiet.2]

/-! ## After a cut -/

theorem sound_after (h : t.Sound) (lines : List (Supply × String)) : (t.after lines).Sound := by
  induction lines generalizing t with
  | nil => exact h
  | cons line lines ih =>
    rw [after_cons]
    exact ih (h.exec line.1 line.2)

theorem options_after (t : Terminal) (lines : List (Supply × String)) :
    (t.after lines).options = t.options := by
  induction lines generalizing t with
  | nil => rfl
  | cons line lines ih =>
    rw [after_cons, ih, exec_eq]

/-- A terminal executes lines, after which the variable for the current directory tells it rightly,
and is saved. A new terminal with the same options takes the saved state, and from then on both
answer alike as long as no line looks back. -/
theorem transcript_restored (o : Options) (s s' : Supply) (before : List (Supply × String))
    (now : Instant) (hstore : ((start o s).after before).world.tree.Storable)
    (hpwd : ((start o s).after before).world.session.env.get? "PWD" =
      some ((start o s).after before).world.tree.currentDirectory) :
    let t := (start o s).after before
    ∃ u, (start o s').importState now t.exportState = .ok u ∧ u.prompt = t.prompt ∧
      ∀ lines, t.QuietRun lines → u.transcript lines = t.transcript lines := by
  intro t
  have hsound : t.Sound := sound_after (sound_start o s) before
  have ho : t.options = o := options_after (start o s) before
  have hroom : t.world.session.history.length ≤ o.maxHistory := by
    rw [← ho]
    exact hsound.history.length_le
  have himport := hsound.importState_exportState hstore (u := start o s') hroom now
  rw [OrderedMap.insert_of_get? hpwd] at himport
  obtain ⟨u, hu, huo, hus⟩ : ∃ u, (start o s').importState now t.exportState = .ok u ∧
      u.options = t.options ∧ u.saved = t.saved :=
    ⟨_, himport, ho.symm, rfl⟩
  refine ⟨u, hu, prompt_eq_of_saved_eq huo hus, fun lines hquiet => ?_⟩
  exact (transcript_eq_of_saved_eq huo.symm hus.symm hquiet).symm

/-- A session that is cut after an alias was made: the alias still works afterwards. -/
theorem transcript_restored_with_alias :
    let s : Supply := ⟨.still ⟨0, 0⟩, .counting⟩
    let before := [(s, "cd /tmp"), (s, "alias say=echo")]
    let lines := [(s, "say here > note"), (s, "cd")]
    let t := (start {} s).after before
    t.world.tree.Storable ∧
      t.world.session.env.get? "PWD" = some t.world.tree.currentDirectory ∧ t.QuietRun lines ∧
      ∃ u, (start {} s).importState ⟨9, 0⟩ t.exportState = .ok u ∧
        u.transcript lines = t.transcript lines := by
  intro s before lines
  obtain ⟨hstore, hpwd, hquiet⟩ : ((start {} s).after before).world.tree.Storable ∧
      ((start {} s).after before).world.session.env.get? "PWD" =
        some ((start {} s).after before).world.tree.currentDirectory ∧
      ((start {} s).after before).QuietRun lines := by decide +kernel
  obtain ⟨u, hu, -, hlines⟩ := transcript_restored {} s s before ⟨9, 0⟩ hstore hpwd
  exact ⟨hstore, hpwd, hquiet, u, hu, hlines lines hquiet⟩

end Terminal

end VirtualShell
