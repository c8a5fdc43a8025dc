import VirtualShell.Proofs.Shell.Histories
import VirtualShell.Proofs.Shell.TreeEffects

/-!
# What commands do with the session

Most commands neither look at the session nor change it (`Command.run_of_isStateless`); of the others
each reads and changes its own part of it (`Command.sessionChange_run`). So the history is what the
lines make of it, unless one of them clears it (`Shell.history_exec`), and it stays one that the
shell can hold (`Shell.settled_exec`).
-/

namespace VirtualShell

namespace Session

variable (s : Session) (dir : String)

@[simp] theorem cwd_setCwd : (s.setCwd dir).cwd = dir := by
  unfold setCwd
  split
  · next h => exact h
  · rfl

theorem env_setCwd : (s.setCwd dir).env =
    if s.cwd = dir then s.env else (s.env.insert "OLDPWD" s.cwd).insert "PWD" dir := by
  unfold setCwd
  split <;> rfl

theorem previousDir_setCwd : (s.setCwd dir).previousDir =
    if s.cwd = dir then s.previousDir else some s.cwd := by
  unfold setCwd
  split <;> rfl

@[simp] theorem aliases_setCwd : (s.setCwd dir).aliases = s.aliases := by
  unfold setCwd
  split <;> rfl

@[simp] theorem history_setCwd : (s.setCwd dir).history = s.history := by
  unfold setCwd
  split <;> rfl

@[simp] theorem setCwd_setCwd : (s.setCwd dir).setCwd dir = s.setCwd dir := by
  have hcwd := s.cwd_setCwd dir
  rw [setCwd, if_pos hcwd]

end Session

namespace Command

/-! ## Commands that leave the session alone -/

/-- The command neither looks at the session nor changes it. -/
def isStateless : Command → Bool
  | cd | echo | uptime | history | aliases | unalias | exports | env => false
  | _ => true

/-- A command that leaves the session alone does the same in every session. -/
theorem run_of_isStateless {c : Command} (hc : c.isStateless = true) (s : Surroundings)
    (args : List String) (t : FileTree) (a b : Session) :
    c.run s args ⟨t, a⟩ = ((c.run s args ⟨t, b⟩).1, ⟨(c.run s args ⟨t, b⟩).2.tree, a⟩) := by
  cases c with
  | cd | echo | uptime | history | aliases | unalias | exports | env => cases hc
  | pwd | ls | cat | whoami | hostname | uname | date | man | help | head | tail | wc | grep
  | clear | exit => rfl
  | touch =>
    unfold run runTouch
    dsimp only
    split <;> rfl
  | mkdir =>
    unfold run runMkdir
    dsimp only
    split
    · rfl
    · split <;> rfl
  | rm =>
    unfold run runRm
    dsimp only
    split
    · rfl
    · split
      · split <;> rfl
      · rfl
  | mv =>
    unfold run runMv
    dsimp only
    split
    · rfl
    · rfl
    · rfl
    · split <;> rfl

/-! ## Commands that change one part of it -/

/-- `alias` reads and changes the aliases alone. -/
theorem defineAliases_spec (aliases : OrderedMap String String) (text : String) (code : Nat)
    (args : List String) : ∃ reply aliases', ∀ s : Session, s.aliases = aliases →
      defineAliases s text code args = (reply, { s with aliases := aliases' }) := by
  induction args generalizing aliases text code with
  | nil =>
    refine ⟨.withCode text code, aliases, fun s hs => ?_⟩
    subst hs
    rfl
  | cons arg args ih =>
    cases hsplit : splitAtEquals? arg with
    | some p =>
      obtain ⟨name, value⟩ := p
      by_cases hname : validAliasName name = true
      · obtain ⟨reply, aliases', hrest⟩ :=
          ih (aliases.insert name (stripQuotes value)) text code
        refine ⟨reply, aliases', fun s hs => ?_⟩
        rw [defineAliases]
        simp only [hsplit, hname, if_true]
        exact hrest { s with aliases := s.aliases.insert name (stripQuotes value) } (by rw [hs])
      · refine ⟨.failure "alias" (.invalidArgument ("`" ++ name ++ "': invalid alias name")),
          aliases, fun s hs => ?_⟩
        subst hs
        rw [defineAliases]
        simp only [hsplit, hname]
        rfl
    | none =>
      cases hget : aliases.get? arg with
      | some value =>
        obtain ⟨reply, aliases', hrest⟩ := ih aliases (text ++ aliasLine arg value) code
        refine ⟨reply, aliases', fun s hs => ?_⟩
        rw [defineAliases]
        simp only [hsplit, hs, hget]
        exact hrest s hs
      | none =>
        obtain ⟨reply, aliases', hrest⟩ :=
          ih aliases (text ++ "alias: " ++ arg ++ ": not found\n") 1
        refine ⟨reply, aliases', fun s hs => ?_⟩
        rw [defineAliases]
        simp only [hsplit, hs, hget]
        exact hrest s hs

/-- `unalias` reads and changes the aliases alone. -/
theorem foldl_removeAlias_spec (reply : Reply) (aliases : OrderedMap String String)
    (args : List String) : ∃ reply' aliases', ∀ s : Session, s.aliases = aliases →
      args.foldl removeAlias (reply, s) = (reply', { s with aliases := aliases' }) := by
  induction args generalizing reply aliases with
  | nil =>
    refine ⟨reply, aliases, fun s hs => ?_⟩
    subst hs
    rfl
  | cons arg args ih =>
    obtain ⟨reply₁, aliases₁, hstep⟩ : ∃ reply' aliases', ∀ s : Session, s.aliases = aliases →
        removeAlias (reply, s) arg = (reply', { s with aliases := aliases' }) := by
      unfold removeAlias
      dsimp only
      by_cases hall : arg = "-a"
      · exact ⟨reply, .empty, fun s _ => by rw [if_pos hall]⟩
      · by_cases hhas : aliases.contains arg = true
        · exact ⟨reply, aliases.erase arg, fun s hs => by rw [if_neg hall, hs, if_pos hhas]⟩
        · refine ⟨.withCode (reply.output.text ++ "unalias: " ++ arg ++ ": not found\n") 1,
            aliases, fun s hs => ?_⟩
          subst hs
          rw [if_neg hall, if_neg hhas]
    obtain ⟨reply', aliases', hrest⟩ := ih reply₁ aliases₁
    refine ⟨reply', aliases', fun s hs => ?_⟩
    rw [List.foldl_cons, hstep s hs]
    exact hrest { s with aliases := aliases₁ } rfl

/-- The name that an argument of `export` sets. -/
def exportedName (arg : String) : String := ((splitAtEquals? arg).map Prod.fst).getD arg

/-- What an argument of `export` makes of the variables. -/
def exportInto (env : OrderedMap String String) (arg : String) : OrderedMap String String :=
  match splitAtEquals? arg with
  | some (name, value) => env.insert name value
  | none => env.insertNew arg ""

theorem setVariables_cons (s : Session) (arg : String) (args : List String) :
    setVariables s (arg :: args) =
      if Line.isName (exportedName arg).toList then
        setVariables { s with env := exportInto s.env arg } args
      else (.failure "export" (.invalidArgument ("`" ++ arg ++ "': not a valid identifier")), s) := by
  rw [setVariables, exportedName, exportInto]
  cases splitAtEquals? arg <;> rfl

/-- `export` reads and changes the variables alone. -/
theorem setVariables_spec (env : OrderedMap String String) (args : List String) :
    ∃ reply env', ∀ s : Session, s.env = env →
      setVariables s args = (reply, { s with env := env' }) := by
  induction args generalizing env with
  | nil =>
    refine ⟨.success "", env, fun s hs => ?_⟩
    subst hs
    rfl
  | cons arg args ih =>
    by_cases hname : Line.isName (exportedName arg).toList = true
    · obtain ⟨reply, env', hrest⟩ := ih (exportInto env arg)
      refine ⟨reply, env', fun s hs => ?_⟩
      rw [setVariables_cons, if_pos hname]
      exact hrest { s with env := exportInto s.env arg } (by rw [hs])
    · refine ⟨.failure "export" (.invalidArgument ("`" ++ arg ++ "': not a valid identifier")),
        env, fun s hs => ?_⟩
      subst hs
      rw [setVariables_cons, if_neg hname]

theorem run_session_of_isStateless {c : Command} (hc : c.isStateless = true) (s : Surroundings)
    (args : List String) (w : World) : (c.run s args w).2.session = w.session := by
  have hrun := run_of_isStateless hc s args w.tree w.session w.session
  exact congrArg (fun r => r.2.session) hrun

theorem session_runEcho (s : Supply) (args : List String) (w : World) :
    (runEcho s args w).2.session = w.session := by
  unfold runEcho
  split
  · rfl
  · dsimp only
    split
    · rfl
    · split <;> rfl

/-! ## What a command does to the session -/

/-- What a command makes of the session before, where `tree` is the tree that it leaves. -/
inductive SessionChange (before : Session) (tree : FileTree) :
    Command → List String → Session → Prop
  | nothing {c : Command} {args : List String} (h : c = .history → args ≠ ["-c"]) :
    SessionChange before tree c args before
  | directory (args : List String) :
    SessionChange before tree .cd args (before.setCwd tree.currentDirectory)
  | history : SessionChange before tree .history ["-c"] before.clearHistory
  | aliases (args : List String) (aliases : OrderedMap String String) :
    SessionChange before tree .aliases args { before with aliases }
  | unalias (args : List String) (aliases : OrderedMap String String) :
    SessionChange before tree .unalias args { before with aliases }
  | exports (args : List String) :
    SessionChange before tree .exports args
      { before with env := (setVariables before args).2.env }

theorem sessionChange_changeTo (args : List String) (w : World) (target shown : String)
    (announce : Bool) : SessionChange w.session (changeTo w target shown announce).2.tree .cd args
      (changeTo w target shown announce).2.session := by
  unfold changeTo
  split
  · exact .nothing nofun
  · exact .directory args

theorem sessionChange_runCd (args : List String) (w : World) :
    SessionChange w.session (runCd args w).2.tree .cd args (runCd args w).2.session := by
  unfold runCd
  split
  · exact sessionChange_changeTo _ w _ _ _
  · split_ifs
    · exact sessionChange_changeTo _ w _ _ _
    · split
      · exact sessionChange_changeTo _ w _ _ _
      · exact .nothing nofun
    · exact sessionChange_changeTo _ w _ _ _
  · exact .nothing nofun

theorem sessionChange_runHistory (args : List String) (w : World) :
    SessionChange w.session (runHistory args w).2.tree .history args
      (runHistory args w).2.session := by
  unfold runHistory
  dsimp only
  split
  · exact .nothing fun _ => by simp
  · next arg =>
    split
    · next hclear =>
      subst hclear
      exact .history
    · next hother =>
      have hargs : [arg] ≠ ["-c"] := by simpa using hother
      split
      · exact .nothing fun _ => hargs
      · exact .nothing fun _ => hargs
  · next hmany =>
    refine .nothing fun _ hclear => ?_
    exact hmany "-c" hclear

theorem sessionChange_runAlias (args : List String) (w : World) :
    SessionChange w.session (runAlias args w).2.tree .aliases args
      (runAlias args w).2.session := by
  unfold runAlias
  split
  · exact .nothing nofun
  · obtain ⟨reply, aliases, h⟩ := defineAliases_spec w.session.aliases "" 0 (mergeQuoted args)
    rw [h w.session rfl]
    exact .aliases args aliases

theorem sessionChange_runUnalias (args : List String) (w : World) :
    SessionChange w.session (runUnalias args w).2.tree .unalias args
      (runUnalias args w).2.session := by
  unfold runUnalias
  split
  · exact .nothing nofun
  · obtain ⟨reply, aliases, h⟩ := foldl_removeAlias_spec (.success "") w.session.aliases args
    rw [h w.session rfl]
    exact .unalias args aliases

theorem sessionChange_runExport (args : List String) (w : World) :
    SessionChange w.session (runExport args w).2.tree .exports args
      (runExport args w).2.session := by
  unfold runExport
  split
  · exact .nothing nofun
  · obtain ⟨reply, env, h⟩ := setVariables_spec w.session.env args
    have hchange : SessionChange w.session w.tree .exports args
        { w.session with env := (setVariables w.session args).2.env } := .exports args
    rw [h w.session rfl] at hchange ⊢
    exact hchange

/-- Each command changes its own part of the session, if any. -/
theorem sessionChange_run (c : Command) (s : Surroundings) (args : List String) (w : World) :
    SessionChange w.session (c.run s args w).2.tree c args (c.run s args w).2.session := by
  by_cases hc : c.isStateless = true
  · rw [run_session_of_isStateless hc]
    refine .nothing fun he => ?_
    rw [he] at hc
    cases hc
  cases c with
  | cd => exact sessionChange_runCd args w
  | echo =>
    rw [run, session_runEcho]
    exact .nothing fun h => by cases h
  | uptime | env => exact .nothing fun h => by cases h
  | history => exact sessionChange_runHistory args w
  | aliases => exact sessionChange_runAlias args w
  | unalias => exact sessionChange_runUnalias args w
  | exports => exact sessionChange_runExport args w
  | pwd | ls | cat | whoami | hostname | uname | date | man | help | head | tail | wc | grep
  | clear | exit | touch | mkdir | rm | mv => exact absurd rfl hc

/-! ## The history -/

/-- A command leaves the history as it is, unless it clears it. -/
theorem SessionChange.history_eq {before after : Session} {tree : FileTree} {c : Command}
    {args : List String} (h : SessionChange before tree c args after) :
    after.history = if c = .history ∧ args = ["-c"] then [] else before.history := by
  cases h with
  | nothing h => rw [if_neg fun hclear => h hclear.1 hclear.2]
  | directory => rw [before.history_setCwd, if_neg nofun]
  | history => rfl
  | aliases | unalias | exports => rw [if_neg nofun]

end Command

namespace Shell

/-- The line clears the history. -/
def Clears (aliases : OrderedMap String String) (input : String) : Prop :=
  dispatched? aliases input = some (.history, ["-c"])

instance (aliases : OrderedMap String String) (input : String) :
    Decidable (Clears aliases input) :=
  inferInstanceAs (Decidable (_ = _))

section Conclude

variable (input : String) (answer : String × Reply × World)

theorem history_conclude :
    (conclude input answer).2.session.history = answer.2.2.session.history :=
  answer.2.2.session.history_setCwd _

theorem aliases_conclude :
    (conclude input answer).2.session.aliases = answer.2.2.session.aliases :=
  answer.2.2.session.aliases_setCwd _

theorem env_conclude : (conclude input answer).2.session.env =
    (answer.2.2.session.setCwd answer.2.2.tree.currentDirectory).env := rfl

theorem previousDir_conclude : (conclude input answer).2.session.previousDir =
    (answer.2.2.session.setCwd answer.2.2.tree.currentDirectory).previousDir := rfl

end Conclude

/-- A line is recorded in the history, or clears it. -/
theorem history_exec (s : Surroundings) (w : World) (input : String) :
    (exec s w input).2.session.history =
      if Clears w.session.aliases input then []
      else (w.session.record input s.options.maxHistory).history := by
  have hrecord : ∀ dir, (Session.record { w.session with cwd := dir } (Text.trim input)
      s.options.maxHistory).history = (w.session.record input s.options.maxHistory).history := by
    intro dir
    rw [Session.history_record, Session.history_record, Text.trim_trim]
  by_cases hblank : Text.trim input = ""
  · have hstays : ¬ Clears w.session.aliases input :=
      fun h => (trim_ne_of_dispatched h).1 hblank
    rw [exec_blank hblank, if_neg hstays, Session.record, if_pos hblank]
    rfl
  cases hd : dispatched? w.session.aliases input with
  | some p =>
    obtain ⟨c, args⟩ := p
    obtain ⟨name, hexec⟩ := exec_of_dispatched hd s
    have hchange := (c.sessionChange_run s args (recorded s w input)).history_eq
    have hclears : Clears w.session.aliases input ↔ c = .history ∧ args = ["-c"] := by
      unfold Clears
      rw [hd, Option.some.injEq, Prod.mk.injEq]
    rw [hexec, history_conclude, hchange, session_recorded, hrecord]
    simp only [hclears]
  | none =>
    obtain ⟨name, reply, -, hexec⟩ := exec_of_not_dispatched hblank hd s
    have hstays : ¬ Clears w.session.aliases input := by
      intro h
      unfold Clears at h
      rw [hd] at h
      cases h
    rw [hexec, history_conclude, session_recorded, hrecord, if_neg hstays]

/-- After a line the history is still one that the shell can hold. -/
theorem settled_exec {s : Surroundings} {w : World}
    (h : Settled s.options.maxHistory w.session.history) (input : String) :
    Settled s.options.maxHistory (exec s w input).2.session.history := by
  rw [history_exec]
  split
  · exact settled_nil _
  · exact Session.settled_record h input

end Shell

end VirtualShell
