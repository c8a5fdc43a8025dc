import VirtualShell.Proofs.Shell.Replies
import VirtualShell.Proofs.Shell.SavedStates

/-!
# Usage errors

The exit code 2 says that a command could not use its arguments. A command that reads all of them
before it acts has done nothing by then (`Command.harmless_run`). Two commands read an argument when
its turn comes: `alias` and `export` stop at the first bad name, and what they did before stays. So
a line that ends in a usage error changes no tree and reports no damage, and it changes aliases or
variables only by the good arguments before the bad one (`Terminal.effects_of_usageError`), but
these it does change (`Terminal.not_unchanged_of_usageError`).
-/

namespace VirtualShell

namespace Command

/-! ## Commands that stop at a bad name -/

/-- An argument of `alias` that defines what cannot be the name of an alias. -/
def isBadDefinition (arg : String) : Bool :=
  match splitAtEquals? arg with
  | some (name, _) => !validAliasName name
  | none => false

/-- An argument of `export` that sets what cannot be the name of a variable. -/
def isBadExport (arg : String) : Bool := !Line.isName (exportedName arg).toList

/-- The arguments are some good ones, a bad one and the rest. -/
structure FirstBad (isBad : String → Bool) (args good : List String) : Prop where
  split : ∃ bad rest, args = good ++ bad :: rest ∧ isBad bad = true
  good : ∀ arg ∈ good, isBad arg = false

theorem FirstBad.cons {isBad : String → Bool} {arg : String} {args good : List String}
    (h : FirstBad isBad args good) (harg : isBad arg = false) :
    FirstBad isBad (arg :: args) (arg :: good) := by
  obtain ⟨⟨bad, rest, hsplit, hbad⟩, hgood⟩ := h
  refine ⟨⟨bad, rest, by rw [hsplit]; rfl, hbad⟩, ?_⟩
  intro a ha
  rcases List.mem_cons.1 ha with rfl | ha
  · exact harg
  · exact hgood a ha

theorem FirstBad.nil {isBad : String → Bool} {arg : String} {args : List String}
    (harg : isBad arg = true) : FirstBad isBad (arg :: args) [] :=
  ⟨⟨arg, args, rfl, harg⟩, fun _ h => absurd h List.not_mem_nil⟩

/-- A usage error of `alias` comes from the first bad argument, and those before it have had their
effect. -/
theorem exists_firstBad_of_defineAliases {s : Session} {text : String} {code : Nat}
    {args : List String} (hcode : code ≠ 2) (h : (defineAliases s text code args).1.code = 2) :
    ∃ good, FirstBad isBadDefinition args good ∧ (defineAliases s text code args).1.damage = [] ∧
      (defineAliases s text code args).2 = (defineAliases s text code good).2 := by
  induction args generalizing s text code with
  | nil => exact absurd h hcode
  | cons arg args ih =>
    -- a good argument has its effect, and the rest follows by induction
    have hnext : isBadDefinition arg = false → ∀ (s' : Session) (text' : String) (code' : Nat),
        code' ≠ 2 →
        (∀ rest, defineAliases s text code (arg :: rest) = defineAliases s' text' code' rest) →
        ∃ good, FirstBad isBadDefinition (arg :: args) good ∧
          (defineAliases s text code (arg :: args)).1.damage = [] ∧
          (defineAliases s text code (arg :: args)).2 = (defineAliases s text code good).2 := by
      intro harg s' text' code' hcode' hstep
      rw [hstep] at h ⊢
      obtain ⟨good, hfirst, hdamage, hsame⟩ := ih hcode' h
      refine ⟨arg :: good, hfirst.cons harg, hdamage, ?_⟩
      rw [hstep, hsame]
    cases hsplit : splitAtEquals? arg with
    | none =>
      have harg : isBadDefinition arg = false := by
        rw [isBadDefinition, hsplit]
      cases hget : s.aliases.get? arg with
      | some value =>
        apply hnext harg s (text ++ aliasLine arg value) code hcode
        intro rest
        rw [defineAliases]
        simp only [hsplit, hget]
      | none =>
        apply hnext harg s (text ++ "alias: " ++ arg ++ ": not found\n") 1 (by decide)
        intro rest
        rw [defineAliases]
        simp only [hsplit, hget]
    | some p =>
      have harg : isBadDefinition arg = !validAliasName p.1 := by
        rw [isBadDefinition, hsplit]
      cases hname : validAliasName p.1 with
      | true =>
        rw [hname] at harg
        apply hnext harg { s with aliases := s.aliases.insert p.1 (stripQuotes p.2) } text code hcode
        intro rest
        rw [defineAliases]
        simp only [hsplit, hname, if_true]
      | false =>
        rw [hname] at harg
        have hstop : defineAliases s text code (arg :: args) = (.failure "alias"
            (.invalidArgument ("`" ++ p.1 ++ "': invalid alias name")), s) := by
          rw [defineAliases]
          simp only [hsplit, hname]
          rfl
        rw [hstop]
        exact ⟨[], .nil harg, rfl, rfl⟩

/-- A usage error of `export` comes from the first bad argument, and those before it have had their
effect. -/
theorem exists_firstBad_of_setVariables {s : Session} {args : List String}
    (h : (setVariables s args).1.code = 2) :
    ∃ good, FirstBad isBadExport args good ∧ (setVariables s args).1.damage = [] ∧
      (setVariables s args).2 = (setVariables s good).2 := by
  induction args generalizing s with
  | nil => cases h
  | cons arg args ih =>
    by_cases hname : Line.isName (exportedName arg).toList = true
    · have hstep : ∀ rest, setVariables s (arg :: rest) =
          setVariables { s with env := exportInto s.env arg } rest := by
        intro rest
        rw [setVariables_cons, if_pos hname]
      rw [hstep] at h ⊢
      obtain ⟨good, hfirst, hdamage, hsame⟩ := ih h
      refine ⟨arg :: good, hfirst.cons (by simp [isBadExport, hname]), hdamage, ?_⟩
      rw [hstep, hsame]
    · rw [setVariables_cons, if_neg hname]
      exact ⟨[], .nil (by simpa [isBadExport] using hname), rfl, rfl⟩

/-- What a usage error may leave of the work on earlier arguments. -/
inductive LeftBehind (before : Session) : Command → List String → Session → Prop
  | nothing (c : Command) (args : List String) : LeftBehind before c args before
  | aliases {args good : List String} (hgood : good ≠ [])
    (hargs : FirstBad isBadDefinition (mergeQuoted args) good) :
    LeftBehind before .aliases args
      { before with aliases := (defineAliases before "" 0 good).2.aliases }
  | exports {args good : List String} (hgood : good ≠ [])
    (hargs : FirstBad isBadExport args good) :
    LeftBehind before .exports args { before with env := (setVariables before good).2.env }

theorem LeftBehind.cwd_eq {before after : Session} {c : Command} {args : List String}
    (h : LeftBehind before c args after) : after.cwd = before.cwd := by
  cases h <;> rfl

theorem leftBehind_runAlias {args : List String} {w : World}
    (h : (runAlias args w).1.code = 2) : (runAlias args w).1.damage = [] ∧
      LeftBehind w.session .aliases args (runAlias args w).2.session := by
  unfold runAlias at h ⊢
  split at h
  · cases h
  · next hargs =>
    obtain ⟨good, hfirst, hdamage, hsame⟩ := exists_firstBad_of_defineAliases (by decide) h
    obtain ⟨reply, aliases, hgood⟩ := defineAliases_spec w.session.aliases "" 0 good
    have hsession := hgood w.session rfl
    rw [if_neg hargs]
    dsimp only
    refine ⟨hdamage, ?_⟩
    rw [hsame]
    by_cases hnil : good = []
    · subst hnil
      exact .nothing _ _
    · have hleft : LeftBehind w.session .aliases args
          { w.session with aliases := (defineAliases w.session "" 0 good).2.aliases } :=
        .aliases hnil hfirst
      rw [hsession] at hleft ⊢
      exact hleft

theorem leftBehind_runExport {args : List String} {w : World}
    (h : (runExport args w).1.code = 2) : (runExport args w).1.damage = [] ∧
      LeftBehind w.session .exports args (runExport args w).2.session := by
  unfold runExport at h ⊢
  split at h
  · cases h
  · next hargs =>
    obtain ⟨good, hfirst, hdamage, hsame⟩ := exists_firstBad_of_setVariables h
    obtain ⟨reply, env, hgood⟩ := setVariables_spec w.session.env good
    have hsession := hgood w.session rfl
    rw [if_neg hargs]
    dsimp only
    refine ⟨hdamage, ?_⟩
    rw [hsame]
    by_cases hnil : good = []
    · subst hnil
      exact .nothing _ _
    · have hleft : LeftBehind w.session .exports args
          { w.session with env := (setVariables w.session good).2.env } :=
        .exports hnil hfirst
      rw [hsession] at hleft ⊢
      exact hleft

/-- A usage error of any command. -/
theorem run_of_usageError (c : Command) (s : Surroundings) (args : List String) (w : World)
    (h : (c.run s args w).1.code = 2) : (c.run s args w).2.tree = w.tree ∧
      (c.run s args w).1.damage = [] ∧ LeftBehind w.session c args (c.run s args w).2.session := by
  by_cases hc : c = .aliases
  · subst hc
    exact ⟨tree_runAlias args w, leftBehind_runAlias h⟩
  by_cases hc' : c = .exports
  · subst hc'
    exact ⟨tree_runExport args w, leftBehind_runExport h⟩
  · obtain ⟨hsame, hdamage⟩ := harmless_run args w hc hc' s h
    rw [hsame]
    exact ⟨rfl, hdamage, .nothing _ _⟩

end Command

/-! ## Lines -/

namespace Shell

open Command

/-- A line that ends in a usage error was given to a command. -/
theorem exists_dispatched_of_code {s : Surroundings} {w : World} {input : String}
    (hblank : Text.trim input ≠ "") (h : (respond s w (Text.trim input)).2.1.code = 2) :
    ∃ c args, dispatched? w.session.aliases input = some (c, args) ∧
      (respond s w (Text.trim input)).2 = c.run s args w := by
  cases hd : dispatched? w.session.aliases input with
  | some p =>
    obtain ⟨name, hrun⟩ := respond_of_dispatched hd s
    exact ⟨p.1, p.2, rfl, by rw [hrun w rfl]⟩
  | none =>
    obtain ⟨name, reply, hreply, hrun⟩ := respond_of_not_dispatched hblank hd s
    have hcode := hreply.code_mem
    rw [hrun w rfl] at h
    rw [h] at hcode
    exact absurd hcode (by decide)

theorem session_conclude {input : String} {answer : String × Reply × World}
    (h : answer.2.2.session.cwd = answer.2.2.tree.currentDirectory) :
    (conclude input answer).2.session = deselect answer.2.2.session := by
  unfold conclude Session.setCwd
  dsimp only
  rw [if_pos h]

/-- A line that ends in a usage error was given to a command that changed no tree, reported no damage
and left at most the work on earlier arguments. -/
theorem exec_of_usageError {s : Surroundings} {w : World} {input : String}
    (h : (exec s w input).1.code = 2) :
    (exec s w input).2.tree = w.tree ∧ (exec s w input).1.damage = [] ∧
      ∃ c args left, dispatched? w.session.aliases input = some (c, args) ∧
        LeftBehind (recorded s w input).session c args left ∧
        (exec s w input).2.session = deselect left := by
  have hblank : Text.trim input ≠ "" := by
    intro hblank
    rw [exec_blank hblank] at h
    cases h
  obtain ⟨hcwd, haliases, -⟩ := recorded_session_frame s w input
  have htree := tree_recorded s w input
  rw [exec_line hblank] at h ⊢
  have hcode : (respond s (recorded s w input) (Text.trim input)).2.1.code = 2 := h
  obtain ⟨c, args, hd, hrun⟩ := exists_dispatched_of_code hblank hcode
  rw [hrun] at hcode
  obtain ⟨hkept, hdamage, hleft⟩ := run_of_usageError c s args (recorded s w input) hcode
  rw [haliases] at hd
  rw [htree] at hkept
  rw [← hrun] at hkept hdamage hleft
  generalize respond s (recorded s w input) (Text.trim input) = answer at hkept hdamage hleft
  refine ⟨hkept, hdamage, c, args, answer.2.2.session, hd, hleft, ?_⟩
  apply session_conclude
  rw [hleft.cwd_eq, hcwd, hkept]

end Shell

namespace Terminal

open Shell Command

/-- A line that ends in a usage error changes no tree and reports no damage. It leaves the aliases
and the variables as they are, or it was given to `alias` or `export` with good arguments before a
bad one, and these were carried out. -/
theorem effects_of_usageError (t : Terminal) (s : Supply) (input : String)
    (h : (t.exec s input).1.code = 2) :
    let before := t.world.session
    let after := (t.exec s input).2.world.session
    (t.exec s input).2.world.tree = t.world.tree ∧ (t.exec s input).1.damage = [] ∧
    (after.aliases = before.aliases ∧ after.env = before.env ∨
      (∃ args good, dispatched? before.aliases input = some (.aliases, args) ∧
        FirstBad isBadDefinition (mergeQuoted args) good ∧ good ≠ [] ∧ after.env = before.env ∧
        after.aliases = (defineAliases before "" 0 good).2.aliases) ∨
      ∃ args good, dispatched? before.aliases input = some (.exports, args) ∧
        FirstBad isBadExport args good ∧ good ≠ [] ∧ after.aliases = before.aliases ∧
        after.env = (setVariables before good).2.env) := by
  rw [exec_eq] at h ⊢
  dsimp only at h ⊢
  obtain ⟨htree, hdamage, c, args, left, hd, hleft, hafter⟩ := exec_of_usageError h
  obtain ⟨-, haliases, henv⟩ := recorded_session_frame ⟨s, t.options⟩ t.world input
  rw [hafter]
  refine ⟨htree, hdamage, ?_⟩
  generalize (recorded ⟨s, t.options⟩ t.world input).session = session at haliases henv hleft
  cases hleft with
  | nothing => exact Or.inl ⟨haliases, henv⟩
  | @aliases _ good hgood hargs =>
    obtain ⟨reply, aliases, hdefine⟩ := defineAliases_spec t.world.session.aliases "" 0 good
    refine Or.inr (Or.inl ⟨args, good, hd, hargs, hgood, henv, ?_⟩)
    rw [hdefine t.world.session rfl, hdefine session haliases]
    rfl
  | @exports _ good hgood hargs =>
    obtain ⟨reply, env, hset⟩ := setVariables_spec t.world.session.env good
    refine Or.inr (Or.inr ⟨args, good, hd, hargs, hgood, haliases, ?_⟩)
    rw [hset t.world.session rfl, hset session henv]
    rfl

/-- The first argument of `export` is good and the second is bad. -/
theorem effects_of_usageError_after_export :
    let s : Supply := ⟨.still ⟨0, 0⟩, .counting⟩
    let t := start {} s
    (t.exec s "export A=1 2B=3").1.code = 2 ∧
      (t.exec s "export A=1 2B=3").2.world.tree = t.world.tree ∧
      (t.exec s "export A=1 2B=3").1.damage = [] := by
  intro s t
  have hcode : (t.exec s "export A=1 2B=3").1.code = 2 := by decide
  obtain ⟨htree, hdamage, -⟩ := effects_of_usageError t s "export A=1 2B=3" hcode
  exact ⟨hcode, htree, hdamage⟩

/-- A line that ends in a usage error may have changed the variables. -/
theorem not_unchanged_of_usageError :
    ¬ ∀ (t : Terminal) (s : Supply) (input : String), (t.exec s input).1.code = 2 →
      (t.exec s input).2.world.tree = t.world.tree ∧
      (t.exec s input).2.world.session.aliases = t.world.session.aliases ∧
      (t.exec s input).2.world.session.env = t.world.session.env ∧
      (t.exec s input).1.damage = [] := by
  intro h
  let s : Supply := ⟨.still ⟨0, 0⟩, .counting⟩
  have hcode : ((start {} s).exec s "export A=1 2B=3").1.code = 2 := by decide
  have hset : ((start {} s).exec s "export A=1 2B=3").2.world.session.env.get? "A" = some "1" := by
    decide
  have hunset : (start {} s).world.session.env.get? "A" = none := by decide
  obtain ⟨-, -, henv, -⟩ := h (start {} s) s "export A=1 2B=3" hcode
  rw [henv, hunset] at hset
  cases hset

end Terminal

end VirtualShell
