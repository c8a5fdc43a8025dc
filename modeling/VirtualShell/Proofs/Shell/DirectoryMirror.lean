import VirtualShell.Proofs.Shell.Agreement
import VirtualShell.Proofs.Shell.SavedStates

/-!
# The current directory and its copies

Besides the tree, the session and its variable `PWD` tell the current directory. A line brings the
session up to date before and after its command. The variable is set only where a line, a reset or
an import changes the directory. Before a line the session takes over the directory of the tree
without it, so that after a change of the tree that does not go through the shell the variable is
out of date and stays so until a line changes the directory (`Terminal.pwd_after_line`,
`Terminal.not_mirrored_behind_the_shell`). When no such change moves the current directory, all
copies agree after every line.
-/

namespace VirtualShell

open FileTree Calendar

namespace Session

variable (s : Session) (dir : String)

theorem pwd_setCwd : (s.setCwd dir).env.get? "PWD" =
    if s.cwd = dir then s.env.get? "PWD" else some dir := by
  rw [env_setCwd]
  split
  · rfl
  · rw [OrderedMap.get?_insert, if_pos rfl]

theorem env_up : s.up.2.env = s.env := by
  unfold up
  split <;> rfl

theorem env_down : s.down.2.env = s.env := by
  unfold down
  split
  · rfl
  · split_ifs <;> rfl

end Session

namespace Command

/-! ## Commands -/

/-- The arguments of `export` set a variable: one of those before the first bad one names it. -/
def SetsVariable (name : String) (args : List String) : Prop :=
  ∃ arg ∈ args.takeWhile fun arg => Line.isName (exportedName arg).toList, exportedName arg = name

instance (name : String) (args : List String) : Decidable (SetsVariable name args) :=
  inferInstanceAs (Decidable (∃ arg ∈ _, _))

theorem get?_exportInto {env : OrderedMap String String} {arg name : String}
    (h : exportedName arg ≠ name) : (exportInto env arg).get? name = env.get? name := by
  unfold exportInto
  unfold exportedName at h
  cases hsplit : splitAtEquals? arg with
  | some p =>
    have hne : name ≠ p.1 := by
      intro he
      rw [hsplit] at h
      exact h he.symm
    dsimp only
    rw [OrderedMap.get?_insert, if_neg hne]
  | none =>
    have hne : name ≠ arg := by
      intro he
      rw [hsplit] at h
      exact h he.symm
    dsimp only
    rw [OrderedMap.get?_insertNew, if_neg (fun hk => hne hk.1)]

/-- `export` leaves a variable alone that its arguments do not set. -/
theorem get?_setVariables {name : String} {args : List String} (h : ¬ SetsVariable name args)
    (s : Session) : (setVariables s args).2.env.get? name = s.env.get? name := by
  induction args generalizing s with
  | nil => rfl
  | cons arg args ih =>
    rw [setVariables_cons]
    split
    · next hname =>
      have hgood : (arg :: args).takeWhile (fun arg => Line.isName (exportedName arg).toList) =
          arg :: args.takeWhile fun arg => Line.isName (exportedName arg).toList := by
        simp [hname]
      unfold SetsVariable at h ih
      rw [hgood] at h
      have hhead : exportedName arg ≠ name := by
        intro he
        exact h ⟨arg, List.mem_cons_self, he⟩
      rw [ih]
      · exact get?_exportInto hhead
      · rintro ⟨arg', hmem, he⟩
        exact h ⟨arg', List.mem_cons_of_mem _ hmem, he⟩
    · rfl

/-- What a command does to the directory of the session and to the variable for it: nothing, or it
takes note of the directory that the tree has afterwards. -/
def NotesDirectory (before : Session) (after : World) : Prop :=
  (after.session.cwd = before.cwd ∧ after.session.env.get? "PWD" = before.env.get? "PWD") ∨
    after.session = before.setCwd after.tree.currentDirectory

theorem notesDirectory_of_session_eq {before : Session} {after : World}
    (h : after.session = before) : NotesDirectory before after := by
  rw [← h]
  exact Or.inl ⟨rfl, rfl⟩

/-- Every command that does not set the variable itself takes note of the directory or leaves the
session's knowledge of it alone. -/
theorem notesDirectory_run {c : Command} {args : List String}
    (h : c = .exports → ¬ SetsVariable "PWD" args) (s : Surroundings) (w : World) :
    NotesDirectory w.session (c.run s args w).2 := by
  have hchange := c.sessionChange_run s args w
  generalize (c.run s args w).2 = after at hchange ⊢
  obtain ⟨tree, session⟩ := after
  dsimp only at hchange
  cases hchange with
  | nothing => exact notesDirectory_of_session_eq rfl
  | directory => exact Or.inr rfl
  | history | aliases | unalias => exact Or.inl ⟨rfl, rfl⟩
  | exports => exact Or.inl ⟨rfl, get?_setVariables (h rfl) w.session⟩

end Command

/-! ## Lines -/

namespace Shell

open Command

/-- A line sets a variable by `export`. -/
def Exports (name : String) (aliases : OrderedMap String String) (input : String) : Prop :=
  ∃ args, dispatched? aliases input = some (.exports, args) ∧ SetsVariable name args

instance (name : String) (aliases : OrderedMap String String) (input : String) :
    Decidable (Exports name aliases input) :=
  decidable_of_iff (∃ p ∈ dispatched? aliases input, p.1 = .exports ∧ SetsVariable name p.2) (by
    constructor
    · rintro ⟨⟨c, args⟩, hp, rfl, hset⟩
      exact ⟨args, hp, hset⟩
    · rintro ⟨args, hp, hset⟩
      exact ⟨_, hp, rfl, hset⟩)

variable {s : Surroundings} {w : World} {input : String}

theorem notesDirectory_respond (hblank : Text.trim input ≠ "")
    (h : ¬ Exports "PWD" w.session.aliases input) :
    NotesDirectory w.session (respond s w (Text.trim input)).2.2 := by
  cases hd : dispatched? w.session.aliases input with
  | some p =>
    obtain ⟨c, args⟩ := p
    obtain ⟨name, hrun⟩ := respond_of_dispatched hd s
    rw [hrun w rfl]
    apply notesDirectory_run
    rintro rfl hset
    exact h ⟨args, hd, hset⟩
  | none =>
    obtain ⟨name, reply, -, hsame⟩ := respond_of_not_dispatched hblank hd s
    rw [hsame w rfl]
    exact notesDirectory_of_session_eq rfl

theorem cwd_conclude (answer : String × Reply × World) :
    (conclude input answer).1.cwd = answer.2.2.tree.currentDirectory ∧
      (conclude input answer).2.session.cwd = answer.2.2.tree.currentDirectory :=
  ⟨rfl, Session.cwd_setCwd _ _⟩

theorem pwd_conclude {before : Session} {answer : String × Reply × World}
    (h : NotesDirectory before answer.2.2) :
    (conclude input answer).2.session.env.get? "PWD" =
      if before.cwd = answer.2.2.tree.currentDirectory then before.env.get? "PWD"
      else some answer.2.2.tree.currentDirectory := by
  rw [env_conclude]
  rcases h with ⟨hcwd, hpwd⟩ | hnoted
  · rw [Session.pwd_setCwd, hcwd, hpwd]
  · rw [hnoted, Session.setCwd_setCwd, Session.pwd_setCwd]

/-- After a line its result and the session tell the directory of the tree. -/
theorem cwd_exec (hblank : Text.trim input ≠ "") :
    (exec s w input).1.cwd = (exec s w input).2.tree.currentDirectory ∧
      (exec s w input).2.session.cwd = (exec s w input).2.tree.currentDirectory := by
  rw [exec_line hblank, tree_conclude]
  exact cwd_conclude _

/-- A line sets the variable for the directory exactly if it changes the directory. Whether the
variable was right before does not count. -/
theorem pwd_exec (h : ¬ Exports "PWD" w.session.aliases input) :
    (exec s w input).2.session.env.get? "PWD" =
      if w.tree.currentDirectory = (exec s w input).2.tree.currentDirectory then
        w.session.env.get? "PWD"
      else some (exec s w input).2.tree.currentDirectory := by
  by_cases hblank : Text.trim input = ""
  · rw [exec_blank hblank]
    exact (if_pos rfl).symm
  · obtain ⟨hcwd, haliases, henv⟩ := recorded_session_frame s w input
    have hnotes := notesDirectory_respond (s := s) (w := recorded s w input) hblank
      (by rwa [haliases])
    rw [exec_line hblank, pwd_conclude hnotes, hcwd, henv, tree_conclude]

end Shell

namespace Terminal

/-! ## Runs -/

/-- The variable for the current directory tells the directory of the tree. -/
def Mirrored (t : Terminal) : Prop :=
  t.world.session.env.get? "PWD" = some t.world.tree.currentDirectory

/-- The step is not a line that sets the variable for the directory itself. -/
def Step.SparesPwd (t : Terminal) : Step → Prop
  | exec _ input => ¬ Shell.Exports "PWD" t.world.session.aliases input
  | _ => True

/-- The step is not a change of the tree, made behind the shell, that moves the current directory. -/
def Step.KeepsDirectory (t : Terminal) : Step → Prop
  | tree step => (step.apply t.world.tree).currentDirectory = t.world.tree.currentDirectory
  | _ => True

/-- Each step of a run has a property when its turn comes. -/
def Along (P : Terminal → Step → Prop) (t : Terminal) : List Step → Prop
  | [] => True
  | step :: steps => P t step ∧ Along P (step.apply t) steps

variable {t : Terminal}

theorem mirrored_start {o : Options} (h : o.env.get? "PWD" = none) (s : Supply) :
    (start o s).Mirrored := by
  have hother : "PWD" ∉ o.env.entries.map Prod.fst := OrderedMap.get?_eq_none_iff.1 h
  unfold Mirrored start Session.start
  dsimp only
  rw [OrderedMap.get?_foldl_insert hother]
  simp [OrderedMap.ofList, OrderedMap.get?_insert]

theorem mirrored_of_importState {t' : Terminal} {now : Instant} {text : String}
    (h : t.importState now text = .ok t') : t'.Mirrored := by
  unfold importState at h
  split at h
  · cases h
  · split at h
    · cases h
    · cases h
      unfold Mirrored resume
      dsimp only
      rw [OrderedMap.get?_insert, if_pos rfl]

theorem cwd_exec (t : Terminal) (s : Supply) {input : String} (hblank : Text.trim input ≠ "") :
    (t.exec s input).1.cwd = (t.exec s input).2.world.tree.currentDirectory ∧
      (t.exec s input).2.world.session.cwd =
        (t.exec s input).2.world.tree.currentDirectory := by
  rw [exec_eq]
  dsimp only
  exact Shell.cwd_exec hblank

/-- After a line the variable is right if it was right before or the line changed the directory. -/
theorem mirrored_exec_iff {s : Supply} {input : String}
    (h : ¬ Shell.Exports "PWD" t.world.session.aliases input) :
    (t.exec s input).2.Mirrored ↔ t.Mirrored ∨
      t.world.tree.currentDirectory ≠ (t.exec s input).2.world.tree.currentDirectory := by
  have hpwd := Shell.pwd_exec (s := ⟨s, t.options⟩) h
  unfold Mirrored
  rw [exec_eq]
  dsimp only
  rw [hpwd]
  split
  · next hsame => simp [hsame]
  · next hmoved => simp [hmoved]

/-- A step keeps the variable right, unless it sets it itself or moves the directory behind the
shell. -/
theorem Step.mirrored (h : t.Mirrored) (hoptions : t.options.env.get? "PWD" = none) {step : Step}
    (hspares : step.SparesPwd t) (hkeeps : step.KeepsDirectory t) :
    (step.apply t).Mirrored := by
  cases step with
  | exec s input => exact (mirrored_exec_iff hspares).2 (Or.inl h)
  | reset s => exact mirrored_start hoptions s
  | restore now text =>
    rw [apply]
    split
    · next ht => exact mirrored_of_importState ht
    · exact h
  | tree step =>
    have hpwd : t.world.session.env.get? "PWD" = some t.world.tree.currentDirectory := h
    rw [← show (step.apply t.world.tree).currentDirectory = _ from hkeeps] at hpwd
    exact hpwd
  | up =>
    unfold Mirrored at h ⊢
    rw [← t.world.session.env_up] at h
    exact h
  | down =>
    unfold Mirrored at h ⊢
    rw [← t.world.session.env_down] at h
    exact h
  | draft text => exact h

theorem mirrored_of_run {steps : List Step} (h : t.Mirrored)
    (hoptions : t.options.env.get? "PWD" = none) (hspares : Along Step.SparesPwd t steps)
    (hkeeps : Along Step.KeepsDirectory t steps) : (steps.foldl Step.apply t).Mirrored := by
  induction steps generalizing t with
  | nil => exact h
  | cons step steps ih =>
    have hoptions' : (step.apply t).options.env.get? "PWD" = none := by
      rw [step.options_apply]
      exact hoptions
    exact ih (step.mirrored h hoptions hspares.1 hkeeps.1) hoptions' hspares.2 hkeeps.2

/-- A terminal whose options do not set the variable goes through any run of lines, resets, imports
and changes of its tree behind the shell, and executes one more line; no line sets the variable
itself. Then the result and the session tell the directory of the tree. The variable tells it if it
told it before the line or the line changed the directory, and so it does whenever no change behind
the shell moved the current directory. -/
theorem pwd_after_line (o : Options) (s : Supply) (steps : List Step) (s' : Supply)
    (input : String) (hoptions : o.env.get? "PWD" = none)
    (hspares : Along Step.SparesPwd (start o s) steps)
    (hline : ¬ Shell.Exports "PWD"
      (steps.foldl Step.apply (start o s)).world.session.aliases input)
    (hblank : Text.trim input ≠ "") :
    let t := steps.foldl Step.apply (start o s)
    let t' := (t.exec s' input).2
    (t.exec s' input).1.cwd = t'.world.tree.currentDirectory ∧
      t'.world.session.cwd = t'.world.tree.currentDirectory ∧
      (t'.Mirrored ↔
        t.Mirrored ∨ t.world.tree.currentDirectory ≠ t'.world.tree.currentDirectory) ∧
      (Along Step.KeepsDirectory (start o s) steps → t'.Mirrored) := by
  have hbefore : Along Step.KeepsDirectory (start o s) steps →
      (steps.foldl Step.apply (start o s)).Mirrored := by
    intro hkeeps
    exact mirrored_of_run (mirrored_start hoptions s) hoptions hspares hkeeps
  generalize steps.foldl Step.apply (start o s) = t at hline hbefore ⊢
  dsimp only
  obtain ⟨hresult, hsession⟩ := cwd_exec t s' hblank
  have hiff := mirrored_exec_iff (s := s') hline
  exact ⟨hresult, hsession, hiff, fun hkeeps => hiff.2 (Or.inl (hbefore hkeeps))⟩

/-- The directory is changed by a line, and behind the shell a file is made in another one. -/
theorem pwd_after_line_in_tmp :
    let s : Supply := ⟨.still ⟨0, 0⟩, .counting⟩
    let steps := [Step.exec s "cd /tmp", .tree (.change s (.createFile "note" "/data" ""))]
    let t := steps.foldl Step.apply (start {} s)
    Along Step.SparesPwd (start {} s) steps ∧ Along Step.KeepsDirectory (start {} s) steps ∧
      ¬ Shell.Exports "PWD" t.world.session.aliases "pwd" ∧ (t.exec s "pwd").2.Mirrored := by
  intro s steps t
  have hspared : ¬ Shell.Exports "PWD" (start {} s).world.session.aliases "cd /tmp" := by decide
  have hspares : Along Step.SparesPwd (start {} s) steps := ⟨hspared, trivial, trivial⟩
  have hkept : ((FileTree.Step.change s (.createFile "note" "/data" "")).apply
      ((start {} s).exec s "cd /tmp").2.world.tree).currentDirectory =
        ((start {} s).exec s "cd /tmp").2.world.tree.currentDirectory := by
    decide
  have hkeeps : Along Step.KeepsDirectory (start {} s) steps := ⟨trivial, hkept, trivial⟩
  have hline : ¬ Shell.Exports "PWD" t.world.session.aliases "pwd" := by decide
  obtain ⟨-, -, -, hmirrored⟩ :=
    pwd_after_line {} s steps s "pwd" rfl hspares hline (by decide)
  exact ⟨hspares, hkeeps, hline, hmirrored hkeeps⟩

/-- After the directory was changed behind the shell, the variable is out of date also after a
line. -/
theorem not_mirrored_behind_the_shell :
    ¬ ∀ (o : Options) (s : Supply) (steps : List Step) (s' : Supply) (input : String),
      o.env.get? "PWD" = none → Along Step.SparesPwd (start o s) steps →
      ¬ Shell.Exports "PWD" (steps.foldl Step.apply (start o s)).world.session.aliases input →
      Text.trim input ≠ "" →
      ((steps.foldl Step.apply (start o s)).exec s' input).2.Mirrored := by
  intro h
  let s : Supply := ⟨.still ⟨0, 0⟩, .counting⟩
  have hline : ¬ Shell.Exports "PWD" ([Step.tree (.change s (.changeDirectory "/tmp"))].foldl
      Step.apply (start {} s)).world.session.aliases "pwd" := by decide
  have hmirrored := h {} s [.tree (.change s (.changeDirectory "/tmp"))] s "pwd" rfl
    ⟨trivial, trivial⟩ hline (by decide)
  have hpwd : (([Step.tree (.change s (.changeDirectory "/tmp"))].foldl Step.apply
      (start {} s)).exec s "pwd").2.world.session.env.get? "PWD" ≠
        some (([Step.tree (.change s (.changeDirectory "/tmp"))].foldl Step.apply
          (start {} s)).exec s "pwd").2.world.tree.currentDirectory := by decide
  exact hpwd hmirrored

end Terminal

end VirtualShell
