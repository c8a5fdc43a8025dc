import VirtualShell.Proofs.Shell.SessionEffects

/-!
# Sessions that agree

Two sessions agree if they have the same directory, variables, aliases and history; they may differ
in the directory before, in the start of the session and in what is selected in the history. A
command that does not look back to these answers alike in worlds that agree, and leaves worlds that
agree (`Command.run_of_agree`); so does a line that is not given to such a command
(`Shell.exec_of_agree`).
-/

namespace VirtualShell

/-- The sessions have the same directory, variables, aliases and history. -/
structure Session.Agree (a b : Session) : Prop where
  cwd : a.cwd = b.cwd
  env : a.env = b.env
  aliases : a.aliases = b.aliases
  history : a.history = b.history

/-- The worlds have the same tree, and their sessions agree. -/
structure World.Agree (w v : World) : Prop where
  tree : w.tree = v.tree
  session : w.session.Agree v.session

namespace Session.Agree

variable {a b : Session} (h : a.Agree b)
include h

theorem setCwd (cwd : String) : (a.setCwd cwd).Agree (b.setCwd cwd) := by
  unfold Session.setCwd
  rw [h.cwd]
  split
  · exact h
  · exact ⟨rfl, by rw [h.env], h.aliases, h.history⟩

theorem record (input : String) (limit : Nat) :
    (a.record input limit).Agree (b.record input limit) := by
  unfold Session.record
  dsimp only
  split
  · exact h
  · exact ⟨h.cwd, h.env, h.aliases, by rw [h.history]⟩

theorem withAliases (aliases : OrderedMap String String) :
    ({ a with aliases } : Session).Agree { b with aliases } :=
  ⟨h.cwd, h.env, rfl, h.history⟩

theorem withEnv (env : OrderedMap String String) :
    ({ a with env } : Session).Agree { b with env } :=
  ⟨h.cwd, rfl, h.aliases, h.history⟩

theorem deselect : (Shell.deselect a).Agree (Shell.deselect b) :=
  ⟨h.cwd, h.env, h.aliases, h.history⟩

theorem clearHistory : a.clearHistory.Agree b.clearHistory :=
  ⟨h.cwd, h.env, h.aliases, rfl⟩

end Session.Agree

namespace Command

/-- The command tells how long the session has lasted, or goes back to the previous directory. -/
def looksBack (c : Command) (args : List String) : Bool :=
  match c with
  | uptime => true
  | cd => args == ["-"]
  | _ => false

theorem changeTo_of_agree {w v : World} (h : w.Agree v) (target shown : String)
    (announce : Bool) : (changeTo w target shown announce).1 = (changeTo v target shown announce).1 ∧
      (changeTo w target shown announce).2.Agree (changeTo v target shown announce).2 := by
  unfold changeTo
  rw [h.tree]
  split
  · exact ⟨rfl, h⟩
  · exact ⟨rfl, rfl, h.session.setCwd _⟩

theorem runCd_of_agree {args : List String} (hargs : args ≠ ["-"]) {w v : World}
    (h : w.Agree v) : (runCd args w).1 = (runCd args v).1 ∧
      (runCd args w).2.Agree (runCd args v).2 := by
  unfold runCd
  split
  · exact changeTo_of_agree h _ _ _
  · next arg =>
    have harg : arg ≠ "-" := fun he => hargs (by rw [he])
    rw [if_neg harg, if_neg harg]
    split
    · exact changeTo_of_agree h _ _ _
    · exact changeTo_of_agree h _ _ _
  · exact ⟨rfl, h⟩

theorem runEcho_of_agree (s : Supply) (args : List String) {w v : World} (h : w.Agree v) :
    (runEcho s args w).1 = (runEcho s args v).1 ∧
      (runEcho s args w).2.Agree (runEcho s args v).2 := by
  unfold runEcho
  rw [h.tree, h.session.env]
  split
  · exact ⟨rfl, h⟩
  · dsimp only
    split
    · exact ⟨rfl, h⟩
    · split
      · exact ⟨rfl, rfl, h.session⟩
      · exact ⟨rfl, h⟩

theorem runHistory_of_agree (args : List String) {w v : World} (h : w.Agree v) :
    (runHistory args w).1 = (runHistory args v).1 ∧
      (runHistory args w).2.Agree (runHistory args v).2 := by
  unfold runHistory
  rw [h.session.history]
  dsimp only
  split
  · exact ⟨rfl, h⟩
  · split
    · exact ⟨rfl, h.tree, h.session.clearHistory⟩
    · split
      · exact ⟨rfl, h⟩
      · exact ⟨rfl, h⟩
  · exact ⟨rfl, h⟩

theorem runAlias_of_agree (args : List String) {w v : World} (h : w.Agree v) :
    (runAlias args w).1 = (runAlias args v).1 ∧
      (runAlias args w).2.Agree (runAlias args v).2 := by
  unfold runAlias
  rw [h.session.aliases]
  split
  · exact ⟨rfl, h⟩
  · obtain ⟨reply, aliases, hrun⟩ :=
      defineAliases_spec v.session.aliases "" 0 (mergeQuoted args)
    rw [hrun w.session h.session.aliases, hrun v.session rfl]
    exact ⟨rfl, h.tree, h.session.withAliases aliases⟩

theorem runUnalias_of_agree (args : List String) {w v : World} (h : w.Agree v) :
    (runUnalias args w).1 = (runUnalias args v).1 ∧
      (runUnalias args w).2.Agree (runUnalias args v).2 := by
  unfold runUnalias
  split
  · exact ⟨rfl, h⟩
  · obtain ⟨reply, aliases, hrun⟩ :=
      foldl_removeAlias_spec (.success "") v.session.aliases args
    rw [hrun w.session h.session.aliases, hrun v.session rfl]
    exact ⟨rfl, h.tree, h.session.withAliases aliases⟩

theorem runExport_of_agree (args : List String) {w v : World} (h : w.Agree v) :
    (runExport args w).1 = (runExport args v).1 ∧
      (runExport args w).2.Agree (runExport args v).2 := by
  unfold runExport
  rw [h.session.env]
  split
  · exact ⟨rfl, h⟩
  · obtain ⟨reply, env, hrun⟩ := setVariables_spec v.session.env args
    rw [hrun w.session h.session.env, hrun v.session rfl]
    exact ⟨rfl, h.tree, h.session.withEnv env⟩

/-- A command that does not look back answers alike in worlds that agree, and leaves worlds that
agree. -/
theorem run_of_agree {c : Command} {args : List String} (hc : c.looksBack args = false)
    (s : Surroundings) {w v : World} (h : w.Agree v) : (c.run s args w).1 = (c.run s args v).1 ∧
      (c.run s args w).2.Agree (c.run s args v).2 := by
  by_cases hstateless : c.isStateless = true
  · obtain ⟨t, a⟩ := w
    obtain ⟨t', b⟩ := v
    obtain ⟨ht, hab⟩ := h
    dsimp only at ht hab
    subst ht
    rw [run_of_isStateless hstateless s args t a b]
    have hb := run_session_of_isStateless hstateless s args ⟨t, b⟩
    exact ⟨rfl, rfl, hb ▸ hab⟩
  cases c with
  | cd => exact runCd_of_agree (by simpa [looksBack] using hc) h
  | uptime => cases hc
  | echo => exact runEcho_of_agree s.supply args h
  | history => exact runHistory_of_agree args h
  | aliases => exact runAlias_of_agree args h
  | unalias => exact runUnalias_of_agree args h
  | exports => exact runExport_of_agree args h
  | env =>
    rw [run, run]
    unfold runEnv
    rw [h.session.env]
    exact ⟨rfl, h⟩
  | pwd | ls | cat | whoami | hostname | uname | date | man | help | head | tail | wc | grep
  | clear | exit | touch | mkdir | rm | mv => exact absurd rfl hstateless

end Command

namespace Shell

/-- The line is not given to a command that looks back. -/
def Quiet (aliases : OrderedMap String String) (input : String) : Prop :=
  ∀ c args, dispatched? aliases input = some (c, args) → c.looksBack args = false

theorem respond_of_agree (s : Surroundings) {w v : World} (h : w.Agree v) {input : String}
    (hblank : Text.trim input ≠ "") (hquiet : Quiet v.session.aliases input) :
    (respond s w (Text.trim input)).1 = (respond s v (Text.trim input)).1 ∧
      (respond s w (Text.trim input)).2.1 = (respond s v (Text.trim input)).2.1 ∧
        (respond s w (Text.trim input)).2.2.Agree (respond s v (Text.trim input)).2.2 := by
  cases hd : dispatched? v.session.aliases input with
  | some p =>
    obtain ⟨name, hrun⟩ := respond_of_dispatched hd s
    rw [hrun w h.session.aliases, hrun v rfl]
    exact ⟨rfl, Command.run_of_agree (hquiet p.1 p.2 hd) s h⟩
  | none =>
    obtain ⟨name, reply, -, hrun⟩ := respond_of_not_dispatched hblank hd s
    rw [hrun w h.session.aliases, hrun v rfl]
    exact ⟨rfl, rfl, h⟩

theorem conclude_of_agree (input : String) {a b : String × Reply × World} (hname : a.1 = b.1)
    (hreply : a.2.1 = b.2.1) (h : a.2.2.Agree b.2.2) :
    (conclude input a).1 = (conclude input b).1 ∧
      (conclude input a).2.Agree (conclude input b).2 := by
  unfold conclude
  dsimp only
  rw [hname, hreply, h.tree]
  exact ⟨rfl, rfl, (h.session.setCwd _).deselect⟩

/-- A line that does not look back gives equal results in worlds with the same tree, variables,
aliases and history, and leaves worlds that agree. The directory of the session does not matter,
since it is taken from the tree first. -/
theorem exec_of_agree (s : Surroundings) {w v : World} {input : String}
    (h : { w with session := { w.session with cwd := w.tree.currentDirectory } }.Agree
      { v with session := { v.session with cwd := v.tree.currentDirectory } })
    (hquiet : Quiet v.session.aliases input) :
    (exec s w input).1 = (exec s v input).1 ∧ (exec s w input).2.Agree (exec s v input).2 := by
  by_cases hblank : Text.trim input = ""
  · rw [exec_blank hblank, exec_blank hblank]
    exact ⟨by rw [show w.tree = v.tree from h.tree], h.tree, h.session.deselect⟩
  · have hrecorded : (recorded s w input).Agree (recorded s v input) := by
      refine ⟨?_, ?_⟩
      · rw [tree_recorded, tree_recorded]
        exact h.tree
      · rw [session_recorded, session_recorded]
        exact h.session.record _ _
    have haliases : (recorded s v input).session.aliases = v.session.aliases := by
      rw [session_recorded, Session.aliases_record]
    rw [← haliases] at hquiet
    obtain ⟨hname, hreply, hafter⟩ := respond_of_agree s hrecorded hblank hquiet
    rw [exec_line hblank, exec_line hblank]
    exact conclude_of_agree input hname hreply hafter

end Shell

end VirtualShell
