import VirtualShell.Shell

/-!
# How a line is executed

A line that is not blank is recorded, answered and concluded (`Shell.exec_line`). It is answered by the
command that it is given to (`Shell.exec_of_dispatched`), or by the shell itself, which leaves the
world as it was recorded (`Shell.exec_of_not_dispatched`).
-/

namespace VirtualShell

namespace Shell

variable {s : Surroundings} {w : World} {input : String}

/-! ## Recording and concluding -/

/-- The answer to a line that is not blank, after it was recorded. -/
def respond (s : Surroundings) (w : World) (line : String) : String × Reply × World :=
  if line = catastrophe then ("rm", refuseCatastrophe, w) else dispatch s w line

/-- The world in which a line is answered. -/
def recorded (s : Surroundings) (w : World) (input : String) : World :=
  let session := { w.session with cwd := w.tree.currentDirectory }
  { w with session := session.record (Text.trim input) s.options.maxHistory }

theorem tree_recorded (s : Surroundings) (w : World) (input : String) :
    (recorded s w input).tree = w.tree := by
  simp only [recorded]

theorem session_recorded (s : Surroundings) (w : World) (input : String) :
    (recorded s w input).session = { w.session with cwd := w.tree.currentDirectory }.record
      (Text.trim input) s.options.maxHistory := by
  simp only [recorded]

theorem recorded_session_frame (s : Surroundings) (w : World) (input : String) :
    (recorded s w input).session.cwd = w.tree.currentDirectory ∧
      (recorded s w input).session.aliases = w.session.aliases ∧
      (recorded s w input).session.env = w.session.env := by
  rw [session_recorded, Session.record]
  dsimp only
  split
  · exact ⟨rfl, rfl, rfl⟩
  · exact ⟨rfl, rfl, rfl⟩

theorem exec_blank (h : Text.trim input = "") :
    exec s w input = (⟨input, .display "", 0, w.tree.currentDirectory, [], none⟩,
      { w with session := deselect { w.session with cwd := w.tree.currentDirectory } }) := by
  rw [exec]
  simp only [h, if_true]

/-- What becomes of the answer to a line. -/
def conclude (input : String) (answer : String × Reply × World) : ExecResult × World :=
  let w := answer.2.2
  let cwd := w.tree.currentDirectory
  (⟨input, answer.2.1.output, answer.2.1.code, cwd, answer.2.1.damage,
    some (answer.1, answer.2.1.code)⟩, { w with session := deselect (w.session.setCwd cwd) })

theorem tree_conclude (input : String) (answer : String × Reply × World) :
    (conclude input answer).2.tree = answer.2.2.tree := rfl

theorem output_conclude (input : String) (answer : String × Reply × World) :
    (conclude input answer).1.output = answer.2.1.output := rfl

theorem code_conclude (input : String) (answer : String × Reply × World) :
    (conclude input answer).1.code = answer.2.1.code := rfl

/-- A line is recorded, answered and concluded. -/
theorem exec_line (h : Text.trim input ≠ "") :
    exec s w input = conclude input (respond s (recorded s w input) (Text.trim input)) := by
  simp only [exec, h, if_false, conclude, respond, recorded]

/-! ## Who answers -/

/-- The command that a line is given to, with its arguments; none for a blank line, the intercepted
line and an unknown command. -/
def dispatched? (aliases : OrderedMap String String) (input : String) :
    Option (Command × List String) :=
  let line := Text.trim input
  if line = "" ∨ line = catastrophe then none
  else match Line.expandedTokens aliases line with
    | [] => none
    | typed :: args => (Command.ofName? (Text.lowercase typed)).map (·, args)

/-- The answers of the shell itself: it refuses the intercepted line, has nothing to say to a line
without a word and complains about an unknown command. -/
inductive Unclaimed : String → Reply → Prop
  | intercepted : Unclaimed catastrophe refuseCatastrophe
  | noWord {line : String} (h : line ≠ catastrophe) : Unclaimed line (.success "")
  | unknown {line : String} (h : line ≠ catastrophe) (typed : String) : Unclaimed line
    (.withCode ((ShellError.unknownCommand typed).message ++ "\n")
      (ShellError.unknownCommand typed).exitCode)

theorem Unclaimed.code_mem {line : String} {reply : Reply} (h : Unclaimed line reply) :
    reply.code ∈ [0, 1, 127] := by
  cases h <;> simp [refuseCatastrophe, Reply.success, Reply.withCode, ShellError.exitCode]

theorem Unclaimed.output_ne {line : String} {reply : Reply} (h : Unclaimed line reply) :
    reply.output ≠ .aborted := by
  cases h <;> nofun

theorem Unclaimed.damage_eq {line : String} {reply : Reply} (h : Unclaimed line reply) :
    reply.damage = if line = catastrophe then [catastropheDamage] else [] := by
  cases h with
  | intercepted => rfl
  | noWord hline | unknown hline => exact (if_neg hline).symm

theorem trim_ne_of_dispatched {aliases : OrderedMap String String} {p : Command × List String}
    (h : dispatched? aliases input = some p) :
    Text.trim input ≠ "" ∧ Text.trim input ≠ catastrophe := by
  unfold dispatched? at h
  dsimp only at h
  split at h
  · cases h
  · next hline => exact not_or.1 hline

/-- A line that is given to a command is answered by it. -/
theorem respond_of_dispatched {aliases : OrderedMap String String} {c : Command}
    {args : List String} (h : dispatched? aliases input = some (c, args)) (s : Surroundings) :
    ∃ name, ∀ w : World, w.session.aliases = aliases →
      respond s w (Text.trim input) = (name, c.run s args w) := by
  obtain ⟨hblank, hcat⟩ := trim_ne_of_dispatched h
  unfold dispatched? at h
  simp only [hblank, hcat, or_self, if_false] at h
  split at h
  · cases h
  · next typed args' htokens =>
    obtain ⟨c', hname, hpair⟩ := Option.map_eq_some_iff.1 h
    cases hpair
    refine ⟨Text.lowercase typed, fun w hw => ?_⟩
    subst hw
    rw [respond, if_neg hcat, dispatch, htokens]
    simp only [hname]

/-- A line that is given to no command leaves the world as it was, and its answer depends on the
aliases alone. -/
theorem respond_of_not_dispatched {aliases : OrderedMap String String}
    (hblank : Text.trim input ≠ "") (h : dispatched? aliases input = none) (s : Surroundings) :
    ∃ name reply, Unclaimed (Text.trim input) reply ∧ ∀ w : World, w.session.aliases = aliases →
      respond s w (Text.trim input) = (name, reply, w) := by
  by_cases hcat : Text.trim input = catastrophe
  · rw [hcat]
    exact ⟨"rm", _, .intercepted, fun w _ => if_pos rfl⟩
  unfold dispatched? at h
  simp only [hblank, hcat, or_self, if_false] at h
  split at h
  · next htokens =>
    refine ⟨"", _, .noWord hcat, fun w hw => ?_⟩
    subst hw
    rw [respond, if_neg hcat, dispatch, htokens]
  · next typed args htokens =>
    have hname := Option.map_eq_none_iff.1 h
    refine ⟨Text.lowercase typed, _, .unknown hcat typed, fun w hw => ?_⟩
    subst hw
    rw [respond, if_neg hcat, dispatch, htokens]
    simp only [hname]

/-- A line that is given to a command is executed by it. -/
theorem exec_of_dispatched {c : Command} {args : List String}
    (h : dispatched? w.session.aliases input = some (c, args)) (s : Surroundings) :
    ∃ name, exec s w input = conclude input (name, c.run s args (recorded s w input)) := by
  obtain ⟨name, hrun⟩ := respond_of_dispatched h s
  refine ⟨name, ?_⟩
  rw [exec_line (trim_ne_of_dispatched h).1, hrun _ (recorded_session_frame s w input).2.1]

/-- A line that is given to no command changes nothing but what every line changes. -/
theorem exec_of_not_dispatched (hblank : Text.trim input ≠ "")
    (h : dispatched? w.session.aliases input = none) (s : Surroundings) :
    ∃ name reply, Unclaimed (Text.trim input) reply ∧
      exec s w input = conclude input (name, reply, recorded s w input) := by
  obtain ⟨name, reply, hreply, hrun⟩ := respond_of_not_dispatched hblank h s
  refine ⟨name, reply, hreply, ?_⟩
  rw [exec_line hblank, hrun _ (recorded_session_frame s w input).2.1]

/-- The line is given to a command. -/
def Runs (c : Command) (aliases : OrderedMap String String) (input : String) : Prop :=
  (dispatched? aliases input).map Prod.fst = some c

instance (c : Command) (aliases : OrderedMap String String) (input : String) :
    Decidable (Runs c aliases input) :=
  inferInstanceAs (Decidable (_ = _))

theorem runs_of_dispatched {aliases : OrderedMap String String} {c : Command} {args : List String}
    (h : dispatched? aliases input = some (c, args)) : Runs c aliases input := by
  rw [Runs, h]
  rfl

end Shell

end VirtualShell
