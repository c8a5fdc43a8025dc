import VirtualShell.Proofs.Calendar.Rendering
import VirtualShell.Proofs.Shell.SessionEffects

/-!
# Replies

Whatever its arguments, a command finishes with one of four exit codes (`Command.finished_run`), only
`rm` reports damage (`Command.damage_run`), and a command that refuses its arguments has done nothing
(`Command.harmless_run`). There are exceptions to the first and the last: a format that `date` can
read but not write takes the session down, and `alias` and `export` do part of their work before they
come to a bad name.
-/

namespace VirtualShell

/-- The exit codes of answers: success, failure, arguments refused, unknown command. -/
def exitCodes : List Nat := [0, 1, 2, 127]

theorem ShellError.exitCode_mem (e : ShellError) : e.exitCode ∈ exitCodes := by
  cases e <;> simp [exitCode, exitCodes]

/-- An answer has a known exit code and does not take the session down. -/
structure Reply.Finished (r : Reply) : Prop where
  code : r.code ∈ exitCodes
  output : r.output ≠ .aborted

/-- An answer that reports no damage. -/
structure Reply.Regular (r : Reply) : Prop extends r.Finished where
  damage : r.damage = []

namespace Reply

theorem regular_withCode (text : String) {code : Nat} (h : code ∈ exitCodes) :
    (withCode text code).Regular := ⟨⟨h, nofun⟩, rfl⟩

theorem regular_success (text : String) : (success text).Regular :=
  regular_withCode text (by decide)

theorem regular_failure (command : String) (e : ShellError) : (failure command e).Regular :=
  regular_withCode _ e.exitCode_mem

end Reply

namespace Progress

theorem damage_attempt (p : Progress) (result : Except TreeError FileTree)
    (wording : TreeError → String) : (p.attempt result wording).damage = p.damage := by
  cases result <;> rfl

/-- Damage that no step reports is not reported at all. -/
theorem damage_foldl {σ α : Type} (progress : σ → Progress) {step : σ → α → σ}
    (hstep : ∀ s a, (progress (step s a)).damage = (progress s).damage) (operands : List α) (s : σ) :
    (progress (operands.foldl step s)).damage = (progress s).damage := by
  induction operands generalizing s with
  | nil => rfl
  | cons a operands ih => rw [List.foldl_cons, ih, hstep]

theorem code_reply (p : Progress) : p.reply.code = 0 ∨ p.reply.code = 1 := by
  unfold reply
  dsimp only
  split
  · exact Or.inr rfl
  · exact Or.inl rfl

theorem finished_reply (p : Progress) : p.reply.Finished := by
  refine ⟨?_, nofun⟩
  rcases p.code_reply with h | h <;> rw [h] <;> decide

theorem code_reply_ne_two (p : Progress) : p.reply.code ≠ 2 := by
  rcases p.code_reply with h | h <;> rw [h] <;> decide

end Progress

namespace Command

/-! ## Orderly answers -/

/-- If the answer is a usage error, the world is as before and no damage is reported. -/
def Harmless (w : World) (answer : Reply × World) : Prop :=
  answer.1.code = 2 → answer.2 = w ∧ answer.1.damage = []

/-- An answer is regular, and if it is a usage error, the world is as before. -/
structure Orderly (w : World) (answer : Reply × World) : Prop where
  regular : answer.1.Regular
  kept : answer.1.code = 2 → answer.2 = w

theorem Orderly.harmless {w : World} {answer : Reply × World} (h : Orderly w answer) :
    Harmless w answer :=
  fun hcode => ⟨h.kept hcode, h.regular.damage⟩

section Answers

variable {w : World}

theorem orderly_same {reply : Reply} (h : reply.Regular) : Orderly w (reply, w) := ⟨h, fun _ => rfl⟩

theorem orderly_withCode (text : String) {code : Nat} (h : code ∈ exitCodes) :
    Orderly w (.withCode text code, w) :=
  orderly_same (Reply.regular_withCode text h)

theorem orderly_failure (command : String) (e : ShellError) :
    Orderly w (.failure command e, w) :=
  orderly_same (Reply.regular_failure command e)

theorem orderly_success (text : String) (v : World) : Orderly w (.success text, v) :=
  ⟨Reply.regular_success text, fun h => absurd h (show (0 : Nat) ≠ 2 from by decide)⟩

theorem orderly_finish {p : Progress} (h : p.damage = []) (v : World) :
    Orderly w (p.finish v) :=
  ⟨⟨p.finished_reply, h⟩, fun hcode => absurd hcode p.code_reply_ne_two⟩

theorem orderly_reply {p : Progress} (h : p.damage = []) : Orderly w (p.reply, w) :=
  orderly_same ⟨p.finished_reply, h⟩

end Answers

section Commands

variable (args : List String) (w : World)

theorem orderly_changeTo (target shown : String) (announce : Bool) :
    Orderly w (changeTo w target shown announce) := by
  unfold changeTo
  split
  · exact orderly_withCode _ (by decide)
  · exact orderly_success _ _

theorem orderly_runCd : Orderly w (runCd args w) := by
  unfold runCd
  split
  · exact orderly_changeTo w _ _ _
  · split_ifs
    · exact orderly_changeTo w _ _ _
    · split
      · exact orderly_changeTo w _ _ _
      · exact orderly_withCode _ (by decide)
    · exact orderly_changeTo w _ _ _
  · exact orderly_failure _ _

theorem orderly_runLs (c : Clock) : Orderly w (runLs c args w, w) := by
  unfold runLs
  split
  · exact orderly_failure _ _
  · refine orderly_reply (Progress.damage_foldl id (fun p item => ?_) _ _)
    unfold Listing.operand
    dsimp only
    split
    · rfl
    · split <;> rfl

theorem orderly_runCat : Orderly w (runCat args w, w) := by
  unfold runCat
  dsimp only
  split
  · exact orderly_failure _ _
  · refine orderly_reply (Progress.damage_foldl Prod.fst (fun p file => ?_) _ _)
    unfold showFile
    dsimp only
    split
    · rfl
    · split <;> rfl

theorem orderly_runExcerpt (command : String) (cut : Nat → List Char → List Char) :
    Orderly w (Excerpt.run command cut args w, w) := by
  unfold Excerpt.run
  split
  · exact orderly_failure _ _
  · refine orderly_reply (Progress.damage_foldl Prod.fst (fun p file => ?_) _ _)
    unfold Excerpt.showOne
    dsimp only
    split <;> rfl

theorem orderly_runWc : Orderly w (runWc args w, w) := by
  unfold runWc
  split
  · exact orderly_failure _ _
  · split
    · exact orderly_failure _ _
    · refine orderly_reply (Progress.damage_foldl Prod.fst (fun p file => ?_) _ _)
      unfold Tally.measure
      dsimp only
      split <;> rfl

theorem orderly_runGrep : Orderly w (runGrep args w, w) := by
  unfold runGrep
  split
  · exact orderly_failure _ _
  · split
    · exact orderly_failure _ _
    · refine orderly_withCode _ ?_
      split <;> decide

theorem orderly_runTouch (s : Supply) : Orderly w (runTouch s args w) := by
  unfold runTouch
  split
  · exact orderly_failure _ _
  · refine orderly_finish (Progress.damage_foldl id (fun p file => ?_) _ _) _
    exact p.damage_attempt _ _

theorem orderly_runMkdir (s : Supply) : Orderly w (runMkdir s args w) := by
  unfold runMkdir
  split
  · exact orderly_failure _ _
  · split
    · exact orderly_failure _ _
    · refine orderly_finish (Progress.damage_foldl id (fun p dir => ?_) _ _) _
      exact p.damage_attempt _ _

theorem orderly_runMv (s : Supply) : Orderly w (runMv s args w) := by
  unfold runMv
  split
  · exact orderly_failure _ _
  · exact orderly_failure _ _
  · exact orderly_failure _ _
  · dsimp only
    split
    · exact orderly_withCode _ (by decide)
    · refine orderly_finish (Progress.damage_foldl id (fun p source => ?_) _ _) _
      exact p.damage_attempt _ _

theorem orderly_runEcho (s : Supply) : Orderly w (runEcho s args w) := by
  unfold runEcho
  split
  · exact orderly_failure _ _
  · dsimp only
    split
    · exact orderly_success _ _
    · split
      · exact orderly_success _ _
      · exact orderly_withCode _ (by decide)

theorem orderly_runUname (o : Options) : Orderly w (runUname o args, w) := by
  unfold runUname
  split
  · exact orderly_failure _ _
  · exact orderly_success _ _

theorem orderly_runMan : Orderly w (runMan args, w) := by
  unfold runMan
  split
  · exact orderly_withCode _ (by decide)
  · split
    · exact orderly_success _ _
    · exact orderly_withCode _ (by decide)

theorem orderly_runHelp : Orderly w (runHelp args, w) := by
  unfold runHelp
  split
  · exact orderly_success _ _
  · split
    · exact orderly_success _ _
    · exact orderly_withCode _ (by decide)

theorem orderly_runHistory : Orderly w (runHistory args w) := by
  unfold runHistory
  dsimp only
  split
  · exact orderly_success _ _
  · split
    · exact orderly_success _ _
    · split
      · exact orderly_success _ _
      · exact orderly_failure _ _
  · exact orderly_failure _ _

/-- Every argument of `unalias` is tried, and none of them is refused. -/
theorem regular_foldl_removeAlias {reply : Reply} (h : reply.Regular) (hcode : reply.code ≠ 2)
    (s : Session) : (args.foldl removeAlias (reply, s)).1.Regular ∧
      (args.foldl removeAlias (reply, s)).1.code ≠ 2 := by
  induction args generalizing reply s with
  | nil => exact ⟨h, hcode⟩
  | cons arg args ih =>
    have hstep : (removeAlias (reply, s) arg).1.Regular ∧
        (removeAlias (reply, s) arg).1.code ≠ 2 := by
      unfold removeAlias
      dsimp only
      split_ifs
      · exact ⟨h, hcode⟩
      · exact ⟨h, hcode⟩
      · exact ⟨Reply.regular_withCode _ (by decide), show (1 : Nat) ≠ 2 from by decide⟩
    exact ih hstep.1 hstep.2 _

theorem orderly_runUnalias : Orderly w (runUnalias args w) := by
  unfold runUnalias
  split
  · exact orderly_failure _ _
  · obtain ⟨hregular, hcode⟩ :=
      regular_foldl_removeAlias args (Reply.regular_success "") (by decide) w.session
    exact ⟨hregular, fun h => absurd h hcode⟩

theorem orderly_runEnv : Orderly w (runEnv args w, w) := by
  unfold runEnv
  split
  · exact orderly_failure _ _
  · exact orderly_success _ _

/-- The command gives orderly answers only. -/
def isOrderly : Command → Bool
  | rm | date | aliases | exports => false
  | _ => true

theorem orderly_run {c : Command} (hc : c.isOrderly = true) (s : Surroundings) :
    Orderly w (c.run s args w) := by
  cases c with
  | rm | date | aliases | exports => cases hc
  | cd => exact orderly_runCd args w
  | ls => exact orderly_runLs args w s.supply.clock
  | cat => exact orderly_runCat args w
  | touch => exact orderly_runTouch args w s.supply
  | mkdir => exact orderly_runMkdir args w s.supply
  | mv => exact orderly_runMv args w s.supply
  | echo => exact orderly_runEcho args w s.supply
  | uname => exact orderly_runUname args w s.options
  | history => exact orderly_runHistory args w
  | man => exact orderly_runMan args w
  | help => exact orderly_runHelp args w
  | head | tail => exact orderly_runExcerpt args w _ _
  | wc => exact orderly_runWc args w
  | grep => exact orderly_runGrep args w
  | unalias => exact orderly_runUnalias args w
  | env => exact orderly_runEnv args w
  | pwd | whoami | hostname | uptime => exact orderly_success _ _
  | clear | exit => exact orderly_same ⟨⟨show (0 : Nat) ∈ exitCodes from by decide, nofun⟩, rfl⟩

/-! ## The other commands -/

/-- `rm` finishes, and it removes nothing if it refuses its arguments. -/
theorem runRm_answer : (runRm args w).1.Finished ∧ Harmless w (runRm args w) := by
  have horderly : ∀ {answer : Reply × World}, Orderly w answer →
      answer.1.Finished ∧ Harmless w answer :=
    fun h => ⟨h.regular.toFinished, h.harmless⟩
  unfold runRm
  split
  · exact horderly (orderly_failure _ _)
  · split_ifs
    · exact horderly (orderly_success _ _)
    · exact horderly (orderly_failure _ _)
    · exact ⟨Progress.finished_reply _, fun hcode => absurd hcode (Progress.code_reply_ne_two _)⟩

/-- `date` is given a format that can be read but not written, since it asks for an offset that may
lack its minutes. -/
def Unwritable (args : List String) : Prop :=
  ∃ format pieces, args.foldlM dateArgument "%a %b %e %H:%M:%S UTC %Y" = .ok format ∧
    Calendar.Format.ofText? format = some pieces ∧ .looseOffset ∈ pieces

theorem runDate_of_unwritable (h : Unwritable args) (now : Calendar.Instant) :
    runDate now args = ⟨.aborted, 101, []⟩ := by
  obtain ⟨format, pieces, hformat, hpieces, hloose⟩ := h
  have hnone := Calendar.Format.render?_eq_none_iff (t := now).2 hloose
  simp only [runDate, hformat, hpieces, hnone]

theorem regular_runDate (h : ¬ Unwritable args) (now : Calendar.Instant) :
    (runDate now args).Regular := by
  unfold runDate
  split
  · exact Reply.regular_failure _ _
  · next format hformat =>
    split
    · exact Reply.regular_failure _ _
    · next pieces hpieces =>
      split
      · exact Reply.regular_success _
      · next hnone =>
        exact absurd ⟨format, pieces, hformat, hpieces,
          Calendar.Format.render?_eq_none_iff.1 hnone⟩ h

theorem damage_runDate (now : Calendar.Instant) : (runDate now args).damage = [] := by
  by_cases h : Unwritable args
  · rw [runDate_of_unwritable args h]
  · exact (regular_runDate args h now).damage

theorem regular_defineAliases (s : Session) (text : String) {code : Nat} (h : code ∈ exitCodes) :
    (defineAliases s text code args).1.Regular := by
  induction args generalizing s text code with
  | nil => exact Reply.regular_withCode text h
  | cons arg args ih =>
    unfold defineAliases
    split
    · split
      · exact ih _ _ h
      · exact Reply.regular_failure _ _
    · split
      · exact ih _ _ h
      · exact ih _ _ (by decide)

theorem regular_runAlias : (runAlias args w).1.Regular := by
  unfold runAlias
  split
  · exact Reply.regular_success _
  · exact regular_defineAliases _ _ _ (by decide)

theorem regular_setVariables (s : Session) : (setVariables s args).1.Regular := by
  induction args generalizing s with
  | nil => exact Reply.regular_success ""
  | cons arg args ih =>
    rw [setVariables_cons]
    split
    · exact ih _
    · exact Reply.regular_failure _ _

theorem regular_runExport : (runExport args w).1.Regular := by
  unfold runExport
  split
  · exact Reply.regular_success _
  · exact regular_setVariables _ _

/-! ## All commands -/

/-- A command finishes with one of the known exit codes, unless it is given a format that cannot be
written. -/
theorem finished_run {c : Command} (h : c = .date → ¬ Unwritable args) (s : Surroundings) :
    (c.run s args w).1.Finished := by
  by_cases hc : c.isOrderly = true
  · exact (orderly_run args w hc s).regular.toFinished
  · cases c with
    | rm => exact (runRm_answer args w).1
    | date => exact (regular_runDate args (h rfl) s.supply.now).toFinished
    | aliases => exact (regular_runAlias args w).toFinished
    | exports => exact (regular_runExport args w).toFinished
    | _ => exact absurd rfl hc

/-- The session is taken down by a `date` with a format that cannot be written, and by nothing
else. -/
theorem aborted_run_iff {c : Command} (s : Surroundings) :
    (c.run s args w).1.output = .aborted ↔ c = .date ∧ Unwritable args := by
  constructor
  · intro hout
    by_contra hno
    exact (finished_run args w (fun hc hbad => hno ⟨hc, hbad⟩) s).output hout
  · rintro ⟨rfl, hbad⟩
    rw [run, runDate_of_unwritable args hbad]

/-- No command but `rm` reports damage. -/
theorem damage_run {c : Command} (h : c ≠ .rm) (s : Surroundings) :
    (c.run s args w).1.damage = [] := by
  by_cases hc : c.isOrderly = true
  · exact (orderly_run args w hc s).regular.damage
  · cases c with
    | rm => exact absurd rfl h
    | date => exact damage_runDate args s.supply.now
    | aliases => exact (regular_runAlias args w).damage
    | exports => exact (regular_runExport args w).damage
    | _ => exact absurd rfl hc

/-- A usage error of any command but `alias` and `export` leaves the world as it was. -/
theorem harmless_run {c : Command} (hc : c ≠ .aliases) (hc' : c ≠ .exports) (s : Surroundings) :
    Harmless w (c.run s args w) := by
  by_cases horderly : c.isOrderly = true
  · exact (orderly_run args w horderly s).harmless
  · cases c with
    | rm => exact (runRm_answer args w).2
    | date => exact fun _ => ⟨rfl, damage_runDate args s.supply.now⟩
    | aliases => exact absurd rfl hc
    | exports => exact absurd rfl hc'
    | _ => exact absurd rfl horderly

end Commands

end Command

end VirtualShell
