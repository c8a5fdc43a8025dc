import VirtualShell.Proofs.Shell.Replies
import VirtualShell.Proofs.Shell.SavedStates

/-!
# The frame of a line

What a line may change depends on the command that it is given to. A blank line deselects the history
and has no other effect. Any other line is recorded once, with its exit code, and each part of the
world changes only under the commands that are there to change it (`Terminal.frame_of_line`). The
exit code is one of four, unless a `date` takes the session down
(`Terminal.not_known_code_of_line`).
-/

namespace VirtualShell

open FileTree

namespace Command

/-! ## Commands and what they change -/

variable {c : Command}

theorem eq_of_remove_mem_kinds (h : .remove ∈ c.kinds) : c = .rm := by
  cases c <;> simp [kinds] at h ⊢

theorem eq_of_create_mem_kinds (h : .create ∈ c.kinds) : c = .touch ∨ c = .mkdir ∨ c = .echo := by
  cases c <;> simp [kinds] at h ⊢

theorem eq_of_relocate_mem_kinds (h : .relocate ∈ c.kinds) : c = .mv := by
  cases c <;> simp [kinds] at h ⊢

theorem eq_of_write_mem_kinds (h : .write ∈ c.kinds) : c = .echo := by
  cases c <;> simp [kinds] at h ⊢

theorem eq_of_go_mem_kinds (h : .go ∈ c.kinds) : c = .cd := by
  cases c <;> simp [kinds] at h ⊢

/-- No command both creates and removes. -/
theorem create_or_remove_not_mem_kinds (c : Command) : .create ∉ c.kinds ∨ .remove ∉ c.kinds := by
  cases c <;> simp [kinds]

/-- The variables are changed by `export` and by a change of directory alone. -/
theorem SessionChange.env_eq {before after : Session} {tree : FileTree} {args : List String}
    (h : SessionChange before tree c args after) (hc : c ≠ .exports) :
    (after.setCwd tree.currentDirectory).env = (before.setCwd tree.currentDirectory).env := by
  cases h with
  | nothing => rfl
  | directory => rw [Session.setCwd_setCwd]
  | history | aliases | unalias => simp only [Session.env_setCwd, Session.clearHistory]
  | exports => exact absurd rfl hc

theorem SessionChange.aliases_eq {before after : Session} {tree : FileTree} {args : List String}
    (h : SessionChange before tree c args after) (hc : c ≠ .aliases) (hc' : c ≠ .unalias) :
    after.aliases = before.aliases := by
  cases h with
  | nothing | history | exports => rfl
  | directory => rw [Session.aliases_setCwd]
  | aliases => exact absurd rfl hc
  | unalias => exact absurd rfl hc'

end Command

namespace Shell

open Command

variable {aliases : OrderedMap String String} {s : Surroundings} {w : World} {input : String}

/-! ## The answer -/

/-- The line is given to a `date` that takes the session down. -/
def Aborts (aliases : OrderedMap String String) (input : String) : Prop :=
  ∃ args, dispatched? aliases input = some (.date, args) ∧ Unwritable args

/-- How a line that is not blank is answered. -/
structure AnswerFrame (aliases : OrderedMap String String) (input : String) (result : ExecResult) :
    Prop where
  aborted_iff : result.output = .aborted ↔ Aborts aliases input
  /-- A line that does not take the session down is recorded once, with its exit code. -/
  recorded : ¬ Aborts aliases input →
    ∃ name, result.usage = some (name, result.code) ∧ result.code ∈ [0, 1, 2, 127]
  reported : result.damage ≠ [] → Runs .rm aliases input ∨ Text.trim input = catastrophe
  intercepted : Text.trim input = catastrophe → result.damage = [-50]

theorem aborts_iff_of_dispatched {c : Command} {args : List String}
    (hd : dispatched? aliases input = some (c, args)) :
    Aborts aliases input ↔ c = .date ∧ Unwritable args := by
  constructor
  · rintro ⟨args', hdate, hbad⟩
    rw [hd] at hdate
    cases hdate
    exact ⟨rfl, hbad⟩
  · rintro ⟨rfl, hbad⟩
    exact ⟨args, hd, hbad⟩

theorem answerFrame_of_dispatched {c : Command} {args : List String}
    (hd : dispatched? aliases input = some (c, args)) (s : Surroundings) (name : String)
    (v : World) : AnswerFrame aliases input (conclude input (name, c.run s args v)).1 where
  aborted_iff := by
    rw [output_conclude, aborts_iff_of_dispatched hd]
    exact aborted_run_iff args v s
  recorded hno := by
    rw [aborts_iff_of_dispatched hd] at hno
    have hfinished := finished_run args v (fun hc hbad => hno ⟨hc, hbad⟩) s
    exact ⟨name, rfl, hfinished.code⟩
  reported hdamage := by
    left
    by_contra hrm
    refine hdamage (damage_run args v ?_ s)
    rintro rfl
    exact hrm (runs_of_dispatched hd)
  intercepted hcat := absurd hcat (trim_ne_of_dispatched hd).2

theorem answerFrame_of_unclaimed {reply : Reply} (hreply : Unclaimed (Text.trim input) reply)
    (hd : dispatched? aliases input = none) (name : String) (v : World) :
    AnswerFrame aliases input (conclude input (name, reply, v)).1 where
  aborted_iff := by
    refine iff_of_false hreply.output_ne ?_
    rintro ⟨args, hdate, -⟩
    rw [hd] at hdate
    cases hdate
  recorded _ := by
    have hsub : [0, 1, 127] ⊆ [0, 1, 2, 127] := by decide
    exact ⟨name, rfl, hsub hreply.code_mem⟩
  reported hdamage := by
    right
    by_contra hcat
    exact hdamage (hreply.damage_eq.trans (if_neg hcat))
  intercepted hcat := hreply.damage_eq.trans (if_pos hcat)

theorem answerFrame_exec (hblank : Text.trim input ≠ "") :
    AnswerFrame w.session.aliases input (exec s w input).1 := by
  cases hd : dispatched? w.session.aliases input with
  | some p =>
    obtain ⟨name, hexec⟩ := exec_of_dispatched hd s
    rw [hexec]
    exact answerFrame_of_dispatched hd s name _
  | none =>
    obtain ⟨name, reply, hreply, hexec⟩ := exec_of_not_dispatched hblank hd s
    rw [hexec]
    exact answerFrame_of_unclaimed hreply hd name _

/-! ## The tree -/

theorem runs_of_mem_kinds {k : Change.Kind} (h : k ∈ kinds aliases input) :
    ∃ c, Runs c aliases input ∧ k ∈ c.kinds := by
  cases hd : dispatched? aliases input with
  | some p =>
    rw [kinds_of_dispatched hd] at h
    exact ⟨p.1, runs_of_dispatched hd, h⟩
  | none =>
    rw [kinds, hd] at h
    exact absurd h List.not_mem_nil

theorem create_or_remove_not_mem_kinds (aliases : OrderedMap String String) (input : String) :
    .create ∉ kinds aliases input ∨ .remove ∉ kinds aliases input := by
  cases hd : dispatched? aliases input with
  | some p =>
    rw [kinds_of_dispatched hd]
    exact p.1.create_or_remove_not_mem_kinds
  | none =>
    rw [kinds, hd]
    exact Or.inl List.not_mem_nil

/-- Which lines change what of a tree. -/
structure TreeFrame (aliases : OrderedMap String String) (input : String) (t t' : FileTree) :
    Prop where
  removed : ∀ id, (t.node? id).isSome = true → t'.node? id = none → Runs .rm aliases input
  created : ∀ id, t.node? id = none → (t'.node? id).isSome = true →
    Runs .touch aliases input ∨ Runs .mkdir aliases input ∨ Runs .echo aliases input
  path_changed : ∀ id n m, t.node? id = some n → t'.node? id = some m → m.path ≠ n.path →
    Runs .mv aliases input
  text_changed : ∀ id n m, t.node? id = some n → t'.node? id = some m → m.text? ≠ n.text? →
    Runs .echo aliases input
  cwd_changed : t'.cwd ≠ t.cwd → Runs .cd aliases input ∨ Runs .rm aliases input

theorem treeFrame_of_within {t t' : FileTree} (h : Within (kinds aliases input) t t') :
    TreeFrame aliases input t t' where
  removed id hid hgone := by
    by_cases hk : .remove ∈ kinds aliases input
    · obtain ⟨c, hc, hkind⟩ := runs_of_mem_kinds hk
      rwa [eq_of_remove_mem_kinds hkind] at hc
    · have hstays := h.stays hk id hid
      rw [hgone] at hstays
      cases hstays
  created id hnew hid := by
    by_cases hk : .create ∈ kinds aliases input
    · obtain ⟨c, hc, hkind⟩ := runs_of_mem_kinds hk
      rcases eq_of_create_mem_kinds hkind with rfl | rfl | rfl
      · exact Or.inl hc
      · exact Or.inr (Or.inl hc)
      · exact Or.inr (Or.inr hc)
    · have hknown := h.known hk id hid
      rw [hnew] at hknown
      cases hknown
  path_changed id n m hn hm hne := by
    by_cases hk : .relocate ∈ kinds aliases input
    · obtain ⟨c, hc, hkind⟩ := runs_of_mem_kinds hk
      rwa [eq_of_relocate_mem_kinds hkind] at hc
    · exact absurd (h.path_eq hk id n m hn hm) hne
  text_changed id n m hn hm hne := by
    by_cases hk : .write ∈ kinds aliases input
    · obtain ⟨c, hc, hkind⟩ := runs_of_mem_kinds hk
      rwa [eq_of_write_mem_kinds hkind] at hc
    · exact absurd (h.text?_eq hk id n m hn hm) hne
  cwd_changed hne := by
    by_cases hk : .go ∈ kinds aliases input
    · obtain ⟨c, hc, hkind⟩ := runs_of_mem_kinds hk
      exact Or.inl (eq_of_go_mem_kinds hkind ▸ hc)
    by_cases hk' : .remove ∈ kinds aliases input
    · obtain ⟨c, hc, hkind⟩ := runs_of_mem_kinds hk'
      exact Or.inr (eq_of_remove_mem_kinds hkind ▸ hc)
    · exact absurd (h.cwd_eq hk hk') hne

theorem treeFrame_exec (s : Surroundings) (w : World) (input : String) :
    TreeFrame w.session.aliases input w.tree (exec s w input).2.tree :=
  treeFrame_of_within ((evolvesBy_exec s w input).within (create_or_remove_not_mem_kinds _ _))

/-- The intercepted line leaves the tree as it is. -/
theorem tree_exec_catastrophe (h : Text.trim input = catastrophe) :
    (exec s w input).2.tree = w.tree := by
  have hnone : kinds w.session.aliases input = [] := by
    rw [kinds, dispatched?, if_pos (Or.inr h)]
    rfl
  have hevolves := evolvesBy_exec s w input
  rw [hnone] at hevolves
  exact hevolves.eq_of_nil

/-! ## The session -/

/-- Which lines change the aliases and the variables of the session. A line that moves the current
directory sets the two variables for it. -/
structure SessionFrame (before : World) (input : String) (after : World) : Prop where
  aliases_changed : after.session.aliases ≠ before.session.aliases →
    Runs .aliases before.session.aliases input ∨ Runs .unalias before.session.aliases input
  env_eq : ¬ Runs .exports before.session.aliases input → after.session.env =
    if before.tree.currentDirectory = after.tree.currentDirectory then before.session.env
    else (before.session.env.insert "OLDPWD" before.tree.currentDirectory).insert "PWD"
      after.tree.currentDirectory

theorem sessionFrame_exec (hblank : Text.trim input ≠ "") :
    SessionFrame w input (exec s w input).2 := by
  obtain ⟨hcwd, haliases, henv⟩ := recorded_session_frame s w input
  have hnoted : ∀ dir, ((recorded s w input).session.setCwd dir).env =
      if w.tree.currentDirectory = dir then w.session.env
      else (w.session.env.insert "OLDPWD" w.tree.currentDirectory).insert "PWD" dir := by
    intro dir
    rw [Session.env_setCwd, hcwd, henv]
  cases hd : dispatched? w.session.aliases input with
  | some p =>
    obtain ⟨c, args⟩ := p
    obtain ⟨name, hexec⟩ := exec_of_dispatched hd s
    have hchange := c.sessionChange_run s args (recorded s w input)
    have hruns := runs_of_dispatched hd
    rw [hexec]
    refine ⟨fun hne => ?_, fun hno => ?_⟩
    · by_contra hother
      apply hne
      refine (aliases_conclude _ _).trans ((hchange.aliases_eq ?_ ?_).trans haliases)
      · rintro rfl
        exact hother (Or.inl hruns)
      · rintro rfl
        exact hother (Or.inr hruns)
    · rw [env_conclude, tree_conclude, hchange.env_eq, hnoted]
      rintro rfl
      exact hno hruns
  | none =>
    obtain ⟨name, reply, -, hexec⟩ := exec_of_not_dispatched hblank hd s
    rw [hexec]
    refine ⟨fun hne => ?_, fun _ => ?_⟩
    · have hsame := aliases_conclude input (name, reply, recorded s w input)
      exact absurd (hsame.trans haliases) hne
    · rw [env_conclude, tree_conclude, hnoted]

end Shell

namespace Terminal

open Shell

theorem cwd_start (o : Options) (s : Supply) :
    (start o s).world.session.cwd = (start o s).world.tree.currentDirectory := rfl

/-- In a terminal whose session tells the directory of the tree, a blank line has an empty result and
deselects the history. Any other line is answered as its command answers, and changes of the tree
and of the session what its command changes. -/
theorem frame_of_line (t : Terminal) (s : Supply) (input : String)
    (hmirror : t.world.session.cwd = t.world.tree.currentDirectory) :
    let result := (t.exec s input).1
    let t' := (t.exec s input).2
    let before := t.world.session
    t'.options = t.options ∧
    (Text.trim input = "" →
      result = ⟨input, .display "", 0, t.world.tree.currentDirectory, [], none⟩ ∧
      t'.world = { t.world with session := { before with cursor := none } }) ∧
    (Text.trim input ≠ "" → AnswerFrame before.aliases input result ∧
      TreeFrame before.aliases input t.world.tree t'.world.tree ∧
      (Text.trim input = catastrophe → t'.world.tree = t.world.tree) ∧
      SessionFrame t.world input t'.world) := by
  rw [exec_eq]
  dsimp only
  refine ⟨rfl, fun hblank => ?_, fun hblank => ?_⟩
  · rw [exec_blank hblank, ← hmirror]
    exact ⟨rfl, rfl⟩
  · exact ⟨answerFrame_exec hblank, treeFrame_exec _ _ _, tree_exec_catastrophe,
      sessionFrame_exec hblank⟩

/-- The home directory is moved, and the current directory with it. -/
theorem frame_of_line_that_moves_home :
    let s : Supply := ⟨.still ⟨0, 0⟩, .counting⟩
    let t := start {} s
    let input := "mv /home /tmp/h"
    t.world.session.cwd = t.world.tree.currentDirectory ∧ Text.trim input ≠ "" ∧
      AnswerFrame t.world.session.aliases input (t.exec s input).1 ∧
      (t.exec s input).2.world.session.env.get? "PWD" = some "/tmp/h/user" := by
  intro s t input
  have hmirror : t.world.session.cwd = t.world.tree.currentDirectory := cwd_start {} s
  have hblank : Text.trim input ≠ "" := by decide
  have hno : ¬ Runs .exports t.world.session.aliases input := by decide
  have hmoved : (t.exec s input).2.world.tree.currentDirectory = "/tmp/h/user" := by decide
  have hhome : t.world.tree.currentDirectory ≠ "/tmp/h/user" := by decide
  obtain ⟨-, -, hline⟩ := frame_of_line t s input hmirror
  obtain ⟨hanswer, -, -, hsession⟩ := hline hblank
  have henv := hsession.env_eq hno
  rw [hmoved, if_neg hhome] at henv
  refine ⟨hmirror, hblank, hanswer, ?_⟩
  rw [henv, OrderedMap.get?_insert, if_pos rfl]

/-- A line may take the session down. -/
theorem not_known_code_of_line :
    ¬ ∀ (t : Terminal) (s : Supply) (input : String),
      t.world.session.cwd = t.world.tree.currentDirectory → Text.trim input ≠ "" →
      (t.exec s input).1.code ∈ [0, 1, 2, 127] := by
  intro h
  let s : Supply := ⟨.still ⟨0, 0⟩, .counting⟩
  have hcode := h (start {} s) s "date +%#z" (cwd_start {} s) (by decide)
  revert hcode
  decide

end Terminal

end VirtualShell
