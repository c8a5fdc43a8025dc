import VirtualShell.Proofs.Shell.SessionEffects
import VirtualShell.Proofs.Shell.TreeRuns
import VirtualShell.Proofs.Tree.Codec
import VirtualShell.Terminal

/-!
# Saved states restored

A saved state is read back from its text (`SavedState.ofText?_toText`). A terminal that went through
any run of lines, resets, imports and changes of its tree holds a consistent tree and a history that
is what recording its lines again gives (`Terminal.sound_of_run`). Hence what it saves is accepted by
every terminal with room for its history, and all that was saved is there again
(`Terminal.restored_of_run`).
-/

namespace VirtualShell

open Json Calendar

namespace SavedState

/-! ## The text of a saved state -/

theorem isPlain_encodeMap (m : OrderedMap String String) : (encodeMap m).IsPlain := by
  rw [encodeMap, Value.isPlain_record]
  intro member hmember
  obtain ⟨e, -, rfl⟩ := List.mem_map.1 hmember
  exact Value.isPlain_text e.2

theorem isPlain_encode (s : SavedState) : s.encode.IsPlain := by
  simp [encode, Value.isPlain_record, Value.isPlain_array, Value.isPlain_text, isPlain_encodeMap,
    FileTree.isPlain_encode]

/-- A map of strings is read back in its order. -/
theorem decodeMap?_encodeMap (m : OrderedMap String String) :
    decodeMap? (encodeMap m) = some m := by
  have htexts : (encodeMap m).textMembers? = some m.entries := by
    rw [encodeMap, Value.textMembers?, Value.members?_record, Option.bind_some]
    exact mapM_map_eq_some fun e _ => rfl
  rw [decodeMap?, htexts, Option.map_some, OrderedMap.ofList_entries]

theorem decodeSession?_record (s : SavedSession) :
    decodeSession? (.record [("history", .array (s.history.map .text)),
      ("aliases", encodeMap s.aliases), ("env", encodeMap s.env)]) = some s := by
  rw [decodeSession?, fields?_record _ (by simp)]
  simp [Fields.get?, optional?, decodeMap?_encodeMap]

theorem decode?_encode {s : SavedState} (h : s.tree.Storable) : decode? s.encode = some s := by
  have htree := FileTree.decode?_encode h (by decide : 5 ≤ depthLimit - 1)
  have hsession := decodeSession?_record s.session
  rw [decode?, encode, fields?_record _ (by simp)]
  simp [Fields.get?, htree, hsession]

/-- A saved state is read back from its text. -/
theorem ofText?_toText {s : SavedState} (h : s.tree.Storable) : ofText? s.toText = some s := by
  rw [ofText?, toText, parse?_toText s.isPlain_encode, Option.bind_some, decode?_encode h]

end SavedState

namespace Terminal

/-! ## What a terminal holds -/

/-- A step of a terminal. Every step that needs one has its own supply. -/
inductive Step where
  | exec (s : Supply) (input : String)
  | reset (s : Supply)
  | restore (now : Instant) (text : String)
  /-- A step on the tree that does not go through the shell of the terminal. -/
  | tree (step : FileTree.Step)
  | up
  | down
  | draft (text : String)

/-- The terminal after a step. An import that is refused leaves it as it was. -/
def Step.apply (t : Terminal) : Step → Terminal
  | exec s input => (t.exec s input).2
  | reset s => t.reset s
  | restore now text =>
    match t.importState now text with
    | .ok t' => t'
    | .error _ => t
  | tree step => { t with world := { t.world with tree := step.apply t.world.tree } }
  | up => t.up.2
  | down => t.down.2
  | draft text => t.setDraft text

/-- The tree is consistent, and recording the lines of the history again gives the history. -/
structure Sound (t : Terminal) : Prop where
  tree : t.world.tree.Consistent
  history : Settled t.options.maxHistory t.world.session.history

theorem consistent_enterStartDir {t : FileTree} (h : t.Consistent) (o : Options) :
    (enterStartDir o t).Consistent := by
  unfold enterStartDir
  split
  · exact h
  · split
    · next hdir => exact h.changeDirectory hdir
    · exact h

theorem sound_start (o : Options) (s : Supply) : (start o s).Sound :=
  ⟨consistent_enterStartDir (FileTree.consistent_seed s) o, settled_nil _⟩

/-- A terminal executes a line by its shell, with its own options. -/
theorem exec_eq (t : Terminal) (s : Supply) (input : String) :
    t.exec s input = ((Shell.exec ⟨s, t.options⟩ t.world input).1,
      { t with world := (Shell.exec ⟨s, t.options⟩ t.world input).2 }) := by
  unfold exec
  cases Shell.exec ⟨s, t.options⟩ t.world input
  rfl

theorem Sound.exec {t : Terminal} (h : t.Sound) (s : Supply) (input : String) :
    (t.exec s input).2.Sound := by
  rw [exec_eq]
  constructor
  · dsimp only
    exact (Shell.evolves_exec ⟨s, t.options⟩ t.world input).consistent h.tree
  · dsimp only
    exact Shell.settled_exec (s := ⟨s, t.options⟩) h.history input

theorem options_importState {t t' : Terminal} {now : Instant} {text : String}
    (h : t.importState now text = .ok t') : t'.options = t.options := by
  unfold importState at h
  split at h
  · cases h
  · split at h
    · cases h
    · cases h
      rfl

theorem Step.options_apply (t : Terminal) (step : Step) :
    (step.apply t).options = t.options := by
  cases step with
  | exec s input => rw [apply, exec_eq]
  | restore now text =>
    rw [apply]
    split
    · next ht => exact options_importState ht
    · rfl
  | reset s | tree step | up | down | draft text => rfl

/-- An import that is not refused leaves a sound terminal, whatever it was made from. -/
theorem sound_of_importState {t t' : Terminal} {now : Instant} {text : String}
    (h : t.importState now text = .ok t') : t'.Sound := by
  unfold importState at h
  split at h
  · cases h
  · next state _ =>
    split at h
    · cases h
    · next tree htree =>
      cases h
      refine ⟨FileTree.consistent_of_accept htree, ?_⟩
      exact Session.settled_foldl_record (settled_nil _) state.session.history

theorem Sound.up {t : Terminal} (h : t.Sound) : t.up.2.Sound := by
  refine ⟨h.tree, ?_⟩
  show Settled _ t.world.session.up.2.history
  rw [Session.history_up]
  exact h.history

theorem Sound.down {t : Terminal} (h : t.Sound) : t.down.2.Sound := by
  refine ⟨h.tree, ?_⟩
  show Settled _ t.world.session.down.2.history
  rw [Session.history_down]
  exact h.history

/-- Every step keeps a sound terminal sound. -/
theorem Step.sound {t : Terminal} (h : t.Sound) (step : Step) : (step.apply t).Sound := by
  cases step with
  | exec s input => exact h.exec s input
  | reset s => exact sound_start t.options s
  | restore now text =>
    rw [apply]
    split
    · next ht => exact sound_of_importState ht
    · exact h
  | tree step => exact ⟨step.consistent h.tree, h.history⟩
  | up => exact h.up
  | down => exact h.down
  | draft text => exact ⟨h.tree, h.history⟩

theorem sound_of_run {t : Terminal} (h : t.Sound) (steps : List Step) :
    (steps.foldl Step.apply t).Sound := by
  induction steps generalizing t with
  | nil => exact h
  | cons step steps ih => exact ih (step.sound h)

/-! ## Restoring -/

theorem resume_of_settled (o : Options) (cwd : String) (now : Instant) {saved : SavedSession}
    (h : Settled o.maxHistory saved.history) :
    resume o cwd now saved = { Session.start o cwd now with
      history := saved.history
      aliases := saved.aliases
      env := saved.env.insert "PWD" cwd } := by
  have hrecord := Session.foldl_record_of_settled (s := .start o cwd now) h
  rw [resume, hrecord]
  rfl

/-- What a sound terminal saves is restored by every terminal that has room for the history. -/
theorem Sound.importState_exportState {t : Terminal} (h : t.Sound)
    (hstore : t.world.tree.Storable) {u : Terminal}
    (hroom : t.world.session.history.length ≤ u.options.maxHistory) (now : Instant) :
    u.importState now t.exportState = .ok ⟨u.options, t.world.tree,
      { Session.start u.options t.world.tree.currentDirectory now with
        history := t.world.session.history
        aliases := t.world.session.aliases
        env := t.world.session.env.insert "PWD" t.world.tree.currentDirectory }⟩ := by
  have hread : SavedState.ofText? t.exportState = some t.saved :=
    SavedState.ofText?_toText hstore
  have haccept : t.saved.tree.accept = .ok t.world.tree := by
    have hnone : t.world.tree.defect? = none := FileTree.defect?_eq_none_iff.2 h.tree
    show t.world.tree.accept = _
    rw [FileTree.accept, hnone]
  have hsettled : Settled u.options.maxHistory t.saved.session.history :=
    { h.history with length_le := hroom }
  simp only [importState, hread, haccept]
  rw [resume_of_settled _ _ _ hsettled]
  rfl

/-- What is saved after any run is restored by every terminal that has room for the history: the tree,
the history, the aliases and the variables are there again, with the variable for the current
directory set. If it was set so before, saving again gives the same text. -/
theorem restored_of_run (o : Options) (s : Supply) (steps : List Step) (u : Terminal)
    (now : Instant) (hstore : (steps.foldl Step.apply (start o s)).world.tree.Storable)
    (hroom : (steps.foldl Step.apply (start o s)).world.session.history.length ≤
      u.options.maxHistory) :
    let t := steps.foldl Step.apply (start o s)
    let cwd := t.world.tree.currentDirectory
    ∃ u', u.importState now t.exportState = .ok u' ∧ u'.world.tree = t.world.tree ∧
      u'.world.session.history = t.world.session.history ∧
      u'.world.session.aliases = t.world.session.aliases ∧
      u'.world.session.env = t.world.session.env.insert "PWD" cwd ∧
      (t.world.session.env.get? "PWD" = some cwd → u'.exportState = t.exportState) := by
  intro t cwd
  have hsound : t.Sound := sound_of_run (sound_start o s) steps
  refine ⟨_, hsound.importState_exportState hstore hroom now, rfl, rfl, rfl, rfl, ?_⟩
  intro hpwd
  have hsame : t.world.session.env.insert "PWD" cwd = t.world.session.env :=
    OrderedMap.insert_of_get? hpwd
  show SavedState.toText ⟨t.world.tree, t.world.session.history, t.world.session.aliases,
    t.world.session.env.insert "PWD" cwd⟩ = _
  rw [hsame]
  rfl

/-- A run that goes to another directory, writes a file there and is saved. -/
theorem restored_of_run_in_tmp :
    let s : Supply := ⟨.still ⟨0, 0⟩, .counting⟩
    let steps := [Step.exec s "cd /tmp", .exec s "echo saved > note"]
    let t := steps.foldl Step.apply (start {} s)
    t.world.tree.Storable ∧ t.world.session.history.length ≤ (start {} s).options.maxHistory ∧
      ∃ u, (start {} s).importState ⟨1, 0⟩ t.exportState = .ok u ∧
        u.exportState = t.exportState := by
  intro s steps
  obtain ⟨hstore, hroom, hpwd⟩ : (steps.foldl Step.apply (start {} s)).world.tree.Storable ∧
      (steps.foldl Step.apply (start {} s)).world.session.history.length ≤
        (start {} s).options.maxHistory ∧
      (steps.foldl Step.apply (start {} s)).world.session.env.get? "PWD" =
        some (steps.foldl Step.apply (start {} s)).world.tree.currentDirectory := by
    decide +kernel
  obtain ⟨u, hu, -, -, -, -, hagain⟩ := restored_of_run {} s steps (start {} s) ⟨1, 0⟩ hstore hroom
  exact ⟨hstore, hroom, u, hu, hagain hpwd⟩

end Terminal

end VirtualShell
