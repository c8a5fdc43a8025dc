import Mathlib.Data.List.DropRight
import VirtualShell.Proofs.Shell.Resumption

/-!
# The previous directory

The session remembers the directory before the last change of directory, to which `cd -` returns. It
takes note of a change by comparing paths, once a line is done (`Shell.previousDir_exec`), so that
what it remembers is the directory before the last line that changed the path. A successful `cd` to
the current directory is no change. As long as nothing but `cd` moved the current directory after
the last `cd` to another one, that is the directory which this `cd` left
(`Terminal.previousDir_of_run`). The removal or the renaming of the current directory counts as a
change as well (`Terminal.not_previousDir_of_cd`).
-/

namespace VirtualShell

open FileTree

namespace Command

/-- A command remembers a directory only where it changes to another one. -/
theorem SessionChange.previousDir_eq {before after : Session} {tree : FileTree} {c : Command}
    {args : List String} (h : SessionChange before tree c args after) :
    (after.setCwd tree.currentDirectory).previousDir =
      (before.setCwd tree.currentDirectory).previousDir := by
  cases h with
  | nothing => rfl
  | directory => rw [Session.setCwd_setCwd]
  | history | aliases | unalias | exports =>
    simp only [Session.previousDir_setCwd, Session.clearHistory]

theorem runCd_return_of_none {w : World} (h : w.session.previousDir = none) :
    runCd ["-"] w = (.withCode "cd: OLDPWD not set\n" 1, w) := by
  simp [runCd, h]

theorem runCd_return_of_some {w : World} {dir : String} (h : w.session.previousDir = some dir) :
    runCd ["-"] w = changeTo w dir "-" true := by
  simp [runCd, h]

/-- A path in normal form is entered if it leads to a directory. -/
theorem changeTo_of_normal {w : World} {dir : String} (hcons : w.tree.Consistent)
    (hdir : Path.Normal dir) (shown : String) :
    if (w.tree.find? dir).any Node.isDirectory then
      ∃ v, changeTo w dir shown true = (.success (dir ++ "\n"), v) ∧ v.tree.currentDirectory = dir
    else ∃ text, changeTo w dir shown true = (.withCode text 1, w) := by
  unfold changeTo changeDirectory
  cases hn : w.tree.find? dir with
  | none => exact ⟨_, rfl⟩
  | some n =>
    dsimp only [Option.any_some]
    by_cases hkind : n.isDirectory = true
    · obtain ⟨hnode, hpath⟩ := hcons.lookup?_eq_some.1 hn
      have hentered : ({ w.tree with cwd := n.id } : FileTree).currentDirectory = n.path := by
        have hcwd : ({ w.tree with cwd := n.id } : FileTree).node? n.id = some n := hnode
        rw [currentDirectory, hcwd]
      rw [hpath, resolve, Path.resolve_of_normal hdir] at hentered
      simp only [hkind, if_true, hentered]
      exact ⟨_, rfl, hentered⟩
    · simp only [hkind]
      exact ⟨_, rfl⟩

end Command

namespace Shell

variable {s : Surroundings} {w : World} {input : String}

theorem previousDir_recorded (s : Surroundings) (w : World) (input : String) :
    (recorded s w input).session.previousDir = w.session.previousDir := by
  rw [session_recorded, Session.record]
  dsimp only
  split <;> rfl

/-- A line makes the session remember the directory before it exactly if the path of the current
directory is another one afterwards. -/
theorem previousDir_exec (s : Surroundings) (w : World) (input : String) :
    (exec s w input).2.session.previousDir =
      if w.tree.currentDirectory = (exec s w input).2.tree.currentDirectory then
        w.session.previousDir
      else some w.tree.currentDirectory := by
  by_cases hblank : Text.trim input = ""
  · rw [exec_blank hblank]
    exact (if_pos rfl).symm
  obtain ⟨hcwd, -, -⟩ := recorded_session_frame s w input
  have hnoted : ∀ dir, ((recorded s w input).session.setCwd dir).previousDir =
      if w.tree.currentDirectory = dir then w.session.previousDir
      else some w.tree.currentDirectory := by
    intro dir
    rw [Session.previousDir_setCwd, hcwd, previousDir_recorded]
  cases hd : dispatched? w.session.aliases input with
  | some p =>
    obtain ⟨c, args⟩ := p
    obtain ⟨name, hexec⟩ := exec_of_dispatched hd s
    have hchange := c.sessionChange_run s args (recorded s w input)
    rw [hexec, previousDir_conclude, tree_conclude, hchange.previousDir_eq, hnoted]
  | none =>
    obtain ⟨name, reply, -, hexec⟩ := exec_of_not_dispatched hblank hd s
    rw [hexec, previousDir_conclude, tree_conclude, hnoted]

/-- Without a directory to return to, the line says so. -/
theorem exec_return_of_none (s : Surroundings)
    (hd : dispatched? w.session.aliases input = some (.cd, ["-"]))
    (h : w.session.previousDir = none) :
    (exec s w input).1.output = .display "cd: OLDPWD not set\n" ∧ (exec s w input).1.code = 1 ∧
      (exec s w input).2.tree = w.tree := by
  have hprevious := (previousDir_recorded s w input).trans h
  obtain ⟨name, hexec⟩ := exec_of_dispatched hd s
  rw [hexec, Command.run, Command.runCd_return_of_none hprevious, output_conclude, code_conclude,
    tree_conclude, tree_recorded]
  exact ⟨rfl, rfl, rfl⟩

/-- A directory to return to is entered if it is there; otherwise the tree stays as it is. -/
theorem exec_return_of_some (s : Surroundings)
    (hd : dispatched? w.session.aliases input = some (.cd, ["-"])) {dir : String}
    (h : w.session.previousDir = some dir) (hcons : w.tree.Consistent) (hdir : Path.Normal dir) :
    if (w.tree.find? dir).any Node.isDirectory then
      (exec s w input).1.output = .display (dir ++ "\n") ∧ (exec s w input).1.code = 0 ∧
        (exec s w input).2.tree.currentDirectory = dir
    else (exec s w input).1.code = 1 ∧ (exec s w input).2.tree = w.tree := by
  have hprevious := (previousDir_recorded s w input).trans h
  obtain ⟨name, hexec⟩ := exec_of_dispatched hd s
  have hchange := Command.changeTo_of_normal (w := recorded s w input)
    (by rwa [tree_recorded]) hdir "-"
  rw [tree_recorded] at hchange
  rw [hexec, Command.run, Command.runCd_return_of_some hprevious, output_conclude, code_conclude,
    tree_conclude]
  split at hchange
  · next hthere =>
    obtain ⟨v, hv, hentered⟩ := hchange
    rw [if_pos hthere, hv]
    exact ⟨rfl, rfl, hentered⟩
  · next hgone =>
    obtain ⟨text, htext⟩ := hchange
    rw [if_neg hgone, htext]
    exact ⟨rfl, tree_recorded s w input⟩

end Shell

/-! ## Runs -/

/-- Of two conditions, of which the second implies the first, the last elements to meet them are the
same if no element behind the last one that meets the second meets the first. -/
theorem getLast?_filter_eq {α : Type} {p q : α → Prop} [DecidablePred p] [DecidablePred q]
    {l : List α} (hqp : ∀ a, q a → p a) (h : ∀ a ∈ l.rtakeWhile (¬ q ·), ¬ p a) :
    (l.filter (p ·)).getLast? = (l.filter (q ·)).getLast? := by
  induction l using List.reverseRecOn with
  | nil => rfl
  | append_singleton l a ih =>
    rw [List.filter_append, List.filter_append]
    by_cases hq : q a
    · simp [hq, hqp a hq]
    · rw [List.rtakeWhile_concat_pos _ _ _ (by simpa using hq)] at h
      have hp : ¬ p a := h a (by simp)
      simp only [hp, hq, decide_false, Bool.false_eq_true, not_false_eq_true,
        List.filter_cons_of_neg, List.filter_nil, List.append_nil]
      exact ih fun b hb => h b (List.mem_append_left _ hb)

namespace Terminal

open Shell

/-- A line that was executed, with the terminal before it. -/
structure Execution where
  before : Terminal
  supply : Supply
  input : String

namespace Execution

variable (e : Execution)

def result : ExecResult := (e.before.exec e.supply e.input).1

def after : Terminal := (e.before.exec e.supply e.input).2

/-- The current directory before the line. -/
def departure : String := e.before.world.tree.currentDirectory

/-- The line changed the path of the current directory. -/
def Moves : Prop := e.departure ≠ e.after.world.tree.currentDirectory

/-- The line was a successful `cd`. -/
def EntersByCd : Prop :=
  Runs .cd e.before.world.session.aliases e.input ∧ e.result.code = 0

/-- The line was a successful `cd` to another directory. -/
def LeavesByCd : Prop := e.EntersByCd ∧ e.Moves

/-- The line returned to a directory, if there was one to return to and it was still there. -/
def Returns : Option String → Prop
  | none => e.result.output = .display "cd: OLDPWD not set\n" ∧ e.result.code = 1 ∧
    e.after.world.tree = e.before.world.tree
  | some dir =>
    if (e.before.world.tree.find? dir).any Node.isDirectory then
      e.result.output = .display (dir ++ "\n") ∧ e.result.code = 0 ∧
        e.after.world.tree.currentDirectory = dir
    else e.result.code = 1 ∧ e.after.world.tree = e.before.world.tree

theorem result_eq : e.result =
    (Shell.exec ⟨e.supply, e.before.options⟩ e.before.world e.input).1 := by
  rw [result, exec_eq]

theorem world_after : e.after.world =
    (Shell.exec ⟨e.supply, e.before.options⟩ e.before.world e.input).2 := by
  rw [after, exec_eq]

instance : DecidablePred Moves := fun _ => inferInstanceAs (Decidable (_ ≠ _))

instance : DecidablePred EntersByCd := fun _ => inferInstanceAs (Decidable (_ ∧ _))

instance : DecidablePred LeavesByCd := fun _ => inferInstanceAs (Decidable (_ ∧ _))

end Execution

/-- The lines of a run, as they were executed one after another. -/
def executions (t : Terminal) : List (Supply × String) → List Execution
  | [] => []
  | line :: lines => ⟨t, line.1, line.2⟩ :: (t.exec line.1 line.2).2.executions lines

variable {t : Terminal}

theorem sound_of_mem_executions (h : t.Sound) {lines : List (Supply × String)} {e : Execution}
    (he : e ∈ t.executions lines) : e.before.Sound := by
  induction lines generalizing t with
  | nil => cases he
  | cons line lines ih =>
    rcases List.mem_cons.1 he with rfl | he
    · exact h
    · exact ih (h.exec line.1 line.2) he

/-- After a run the session remembers the directory before the last line that changed the path of the
current directory. -/
theorem previousDir_after (t : Terminal) (lines : List (Supply × String)) :
    (t.after lines).world.session.previousDir =
      (((t.executions lines).filter (·.Moves)).getLast?.map Execution.departure).or
        t.world.session.previousDir := by
  induction lines generalizing t with
  | nil => rfl
  | cons line lines ih =>
    have hline : (t.exec line.1 line.2).2.world.session.previousDir =
        if (⟨t, line.1, line.2⟩ : Execution).Moves then some t.world.tree.currentDirectory
        else t.world.session.previousDir := by
      have hexec := previousDir_exec ⟨line.1, t.options⟩ t.world line.2
      simp only [Execution.Moves, Execution.departure, Execution.world_after, exec_eq, ite_not]
      exact hexec
    rw [after_cons, ih, hline, executions]
    by_cases hm : (⟨t, line.1, line.2⟩ : Execution).Moves
    · rw [if_pos hm, List.filter_cons_of_pos (by simpa using hm), List.getLast?_cons]
      cases (((t.exec line.1 line.2).2.executions lines).filter (·.Moves)).getLast? <;> rfl
    · rw [if_neg hm, List.filter_cons_of_neg (by simpa using hm)]

/-- `cd -` returns to the remembered directory. -/
theorem Execution.returns (e : Execution) (h : e.before.world.tree.Consistent)
    (hd : dispatched? e.before.world.session.aliases e.input = some (.cd, ["-"]))
    (hnormal : ∀ dir ∈ e.before.world.session.previousDir, Path.Normal dir) :
    e.Returns e.before.world.session.previousDir := by
  cases hprevious : e.before.world.session.previousDir with
  | none =>
    have hreturn := exec_return_of_none ⟨e.supply, e.before.options⟩ hd hprevious
    simp only [Returns, result_eq, world_after]
    exact hreturn
  | some dir =>
    have hreturn := exec_return_of_some ⟨e.supply, e.before.options⟩ hd hprevious h
      (hnormal dir hprevious)
    simp only [Returns, result_eq, world_after]
    exact hreturn

/-- A terminal executes lines, and after the last successful `cd` to another directory no line moves
the current directory in another way. Then the session remembers the directory that this `cd` left,
and none if there was no such `cd`, and `cd -` returns to it. -/
theorem previousDir_of_run (o : Options) (s : Supply) (lines : List (Supply × String))
    (h : ∀ e ∈ ((start o s).executions lines).rtakeWhile (¬ ·.LeavesByCd), ¬ e.Moves) :
    let t := (start o s).after lines
    let left? := (((start o s).executions lines).filter (·.LeavesByCd)).getLast?.map
      Execution.departure
    t.world.session.previousDir = left? ∧
      ∀ s' input, dispatched? t.world.session.aliases input = some (.cd, ["-"]) →
        Execution.Returns ⟨t, s', input⟩ left? := by
  intro t left?
  have hsound : (start o s).Sound := sound_start o s
  have hprevious : t.world.session.previousDir = left? := by
    have hsame := getLast?_filter_eq (fun e (he : Execution.LeavesByCd e) => he.2) h
    have hrun := previousDir_after (start o s) lines
    rw [hsame, show (start o s).world.session.previousDir = none from rfl, Option.or_none] at hrun
    exact hrun
  refine ⟨hprevious, fun s' input hd => ?_⟩
  rw [← hprevious]
  refine Execution.returns _ (sound_after hsound lines).tree hd fun dir hdir => ?_
  -- the directory was the current one when some line of the run came
  obtain ⟨e, he, rfl⟩ := Option.map_eq_some_iff.1 (hprevious.symm.trans hdir)
  have hmem := (List.mem_filter.1 (List.mem_of_getLast? he)).1
  exact (sound_of_mem_executions hsound hmem).tree.normal_currentDirectory

/-- The current directory is entered again before the session returns. -/
theorem previousDir_of_run_in_tmp :
    let s : Supply := ⟨.still ⟨0, 0⟩, .counting⟩
    let lines := [(s, "cd /tmp"), (s, "cd .")]
    (∀ e ∈ ((start {} s).executions lines).rtakeWhile (¬ ·.LeavesByCd), ¬ e.Moves) ∧
      ((start {} s).after lines).world.session.previousDir = some "/home/user" ∧
      (((start {} s).after lines).exec s "cd -").2.world.tree.currentDirectory = "/home/user" := by
  intro s lines
  obtain ⟨h, hleft, hd, hthere⟩ :
      (∀ e ∈ ((start {} s).executions lines).rtakeWhile (¬ ·.LeavesByCd), ¬ e.Moves) ∧
      (((start {} s).executions lines).filter (·.LeavesByCd)).getLast?.map Execution.departure =
        some "/home/user" ∧
      dispatched? ((start {} s).after lines).world.session.aliases "cd -" = some (.cd, ["-"]) ∧
      (((start {} s).after lines).world.tree.find? "/home/user").any Node.isDirectory = true := by
    decide
  obtain ⟨hprevious, hreturn⟩ := previousDir_of_run {} s lines h
  have hentered := hreturn s "cd -" hd
  rw [hleft, Execution.Returns, if_pos hthere] at hentered
  dsimp only [Execution.after] at hentered
  exact ⟨h, hprevious.trans hleft, hentered.2.2⟩

/-- A successful `cd` to the current directory is not remembered, and the removal of the current
directory is, without any `cd`. -/
theorem not_previousDir_of_cd :
    (¬ ∀ (o : Options) (s : Supply) (lines : List (Supply × String)),
      ((start o s).after lines).world.session.previousDir =
        (((start o s).executions lines).filter (·.EntersByCd)).getLast?.map Execution.departure) ∧
    ¬ ∀ (o : Options) (s : Supply) (lines : List (Supply × String)),
      ((start o s).after lines).world.session.previousDir =
        (((start o s).executions lines).filter (·.LeavesByCd)).getLast?.map
          Execution.departure := by
  let s : Supply := ⟨.still ⟨0, 0⟩, .counting⟩
  constructor
  · intro h
    have hstays := h {} s [(s, "cd .")]
    revert hstays
    decide
  · intro h
    have hremoved := h {} s [(s, "rm -r .")]
    revert hremoved
    decide

end Terminal

end VirtualShell
