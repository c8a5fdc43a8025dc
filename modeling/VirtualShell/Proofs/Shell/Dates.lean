import VirtualShell.Proofs.Calendar.Conversions
import VirtualShell.Proofs.Shell.Replies

/-!
# The answers of `date`

`date` shows the time in the format that its arguments choose, or complains about an argument that is
no option or about a format that is none (`Answered`). It does so for every list of arguments and
every reading of the clock, but for the formats with the offset that may lack its minutes: those pass
the reading and cannot be written, and the command does not come to an answer (`answered_of_runDate`).
-/

namespace VirtualShell.Command

open Calendar Calendar.Format

variable {args : List String}

/-! ## The choice of a format -/

/-- The arguments that `date` takes. -/
def IsDateOption (arg : String) : Prop :=
  arg ∈ ["-u", "--utc", "-I", "--iso-8601", "-R", "--rfc-email"] ∨ arg.toList.head? = some '+'

/-- All arguments are options, and together they choose the format. -/
def Chooses (args : List String) (format : String) : Prop :=
  args.foldlM dateArgument "%a %b %e %H:%M:%S UTC %Y" = .ok format

theorem dateArgument_cases (format arg : String) :
    (IsDateOption arg ∧ ∃ format', dateArgument format arg = .ok format') ∨
    (¬ IsDateOption arg ∧
      dateArgument format arg = .error (.invalidArgument ("invalid option '" ++ arg ++ "'"))) := by
  unfold dateArgument IsDateOption
  split_ifs with hutc hiso hmail
  · exact Or.inl ⟨by rcases hutc with rfl | rfl <;> simp, _, rfl⟩
  · exact Or.inl ⟨by rcases hiso with rfl | rfl <;> simp, _, rfl⟩
  · exact Or.inl ⟨by rcases hmail with rfl | rfl <;> simp, _, rfl⟩
  · split
    · next format' harg => exact Or.inl ⟨Or.inr (by rw [harg]; rfl), _, rfl⟩
    · next harg =>
      refine Or.inr ⟨?_, rfl⟩
      rintro (hmem | hplus)
      · simp only [List.mem_cons, List.not_mem_nil, or_false] at hmem
        tauto
      · obtain ⟨rest, hrest⟩ := List.head?_eq_some_iff.1 hplus
        exact harg rest hrest

/-- The arguments choose a format, or one of them is the first that is no option. -/
theorem foldlM_dateArgument_cases (args : List String) (format : String) :
    (∃ format', args.foldlM dateArgument format = .ok format') ∨
    ∃ before arg after, args = before ++ arg :: after ∧ (∀ a ∈ before, IsDateOption a) ∧
      ¬ IsDateOption arg ∧ args.foldlM dateArgument format =
        .error (.invalidArgument ("invalid option '" ++ arg ++ "'")) := by
  induction args generalizing format with
  | nil => exact Or.inl ⟨format, rfl⟩
  | cons arg args ih =>
    rw [List.foldlM_cons]
    rcases dateArgument_cases format arg with ⟨hoption, format', harg⟩ | ⟨hno, harg⟩
    · rw [harg]
      refine (ih format').imp id ?_
      rintro ⟨before, bad, after, rfl, hbefore, hbad, herror⟩
      refine ⟨arg :: before, bad, after, rfl, ?_, hbad, herror⟩
      exact List.forall_mem_cons.2 ⟨hoption, hbefore⟩
    · rw [harg]
      exact Or.inr ⟨[], arg, args, rfl, by simp, hno, rfl⟩

/-! ## The answers -/

/-- An error message of `date`. -/
def dateError (message : String) : Reply := ⟨.display ("date: " ++ message ++ "\n"), 2, []⟩

/-- What `date` may answer: the time in the format that was chosen, or an error that names the first
argument that is no option or the text that is no format. -/
inductive Answered (now : Instant) (args : List String) : Reply → Prop
  | shown {format text : String} {pieces : List Piece} (hformat : Chooses args format)
    (hreads : Reads format.toList pieces) (htext : render? now pieces = some text) :
    Answered now args (.success (text ++ "\n"))
  | noFormat {format : String} (hformat : Chooses args format) (h : ¬ Readable format.toList) :
    Answered now args (dateError ("invalid format '" ++ format ++ "'"))
  | noOption {before after : List String} {arg : String} (hargs : args = before ++ arg :: after)
    (hbefore : ∀ a ∈ before, IsDateOption a) (harg : ¬ IsDateOption arg) :
    Answered now args (dateError ("invalid option '" ++ arg ++ "'"))

theorem Answered.output_ne {now : Instant} {reply : Reply} (h : Answered now args reply) :
    reply.output ≠ .aborted := by
  cases h <;> nofun

/-- The arguments choose a format with the offset that may lack its minutes. -/
def AsksLoosely (args : List String) : Prop :=
  ∃ format, Chooses args format ∧ HoldsLooseOffset format.toList

theorem unwritable_iff : Unwritable args ↔ AsksLoosely args := by
  unfold Unwritable AsksLoosely Chooses
  simp only [holdsLooseOffset_iff, ofText?_eq_some_iff, exists_and_left]

theorem answered_of_not_asksLoosely (h : ¬ AsksLoosely args) (now : Instant) :
    Answered now args (runDate now args) := by
  unfold runDate
  rcases foldlM_dateArgument_cases args "%a %b %e %H:%M:%S UTC %Y" with
    ⟨format, hformat⟩ | ⟨before, arg, after, hargs, hbefore, harg, herror⟩
  · rw [hformat]
    dsimp only
    cases hread : ofText? format with
    | none =>
      refine .noFormat hformat ?_
      rintro ⟨pieces, hreads⟩
      rw [ofText?_eq_some_iff.2 hreads] at hread
      cases hread
    | some pieces =>
      have hreads := ofText?_eq_some_iff.1 hread
      cases htext : render? now pieces with
      | none => exact absurd ⟨format, hformat, (hreads.render?_eq_none_iff now).1 htext⟩ h
      | some text =>
        dsimp only
        rw [htext]
        exact .shown hformat hreads htext
  · rw [herror]
    exact .noOption hargs hbefore harg

/-- Whatever its arguments and the clock, `date` shows the time or complains, unless the format that
was chosen holds the offset that may lack its minutes: then it does not come to an answer. This is the
only offset of this kind, and a format that is read can be written for every instant unless it holds
it. -/
theorem answered_of_runDate (now : Instant) (args : List String) :
    (Answered now args (runDate now args) ↔ ¬ AsksLoosely args) ∧
    (AsksLoosely args → runDate now args = ⟨.aborted, 101, []⟩) ∧
    ∀ format pieces, ofText? format = some pieces →
      ((∃ text, render? now pieces = some text) ↔ ¬ HoldsLooseOffset format.toList) := by
  have habort : AsksLoosely args → runDate now args = ⟨.aborted, 101, []⟩ := fun h =>
    runDate_of_unwritable args (unwritable_iff.2 h) now
  refine ⟨⟨fun hanswer hloose => ?_, fun h => answered_of_not_asksLoosely h now⟩, habort, ?_⟩
  · exact hanswer.output_ne (by rw [habort hloose])
  · intro format pieces hread
    rw [← (ofText?_eq_some_iff.1 hread).render?_eq_none_iff now, ← ne_eq, Option.ne_none_iff_exists']

/-- Behind a percent sign that stands for itself the same characters are shown. -/
theorem answered_of_runDate_with_percent :
    let now : Instant := ⟨0, 0⟩
    Answered now ["-u", "+%Y%%#z"] (runDate now ["-u", "+%Y%%#z"]) ∧
      runDate now ["-u", "+%Y%%#z"] = .success "1970%#z\n" ∧
      AsksLoosely ["-R", "+%Y %#z"] ∧ runDate now ["-R", "+%Y %#z"] = ⟨.aborted, 101, []⟩ := by
  intro now
  have hloose : AsksLoosely ["-R", "+%Y %#z"] := ⟨"%Y %#z", rfl, by decide⟩
  have hplain : ¬ AsksLoosely ["-u", "+%Y%%#z"] := by
    rintro ⟨format, hformat, hholds⟩
    have hsame : format = "%Y%%#z" := (Except.ok.inj hformat).symm
    rw [hsame] at hholds
    exact absurd hholds (by decide)
  exact ⟨(answered_of_runDate now _).1.2 hplain, by decide, hloose,
    (answered_of_runDate now _).2.1 hloose⟩

/-- A format may be read and not be written. -/
theorem not_answered_of_looseOffset :
    ¬ ∀ (now : Instant) (args : List String), (∃ text, runDate now args = .success text) ∨
      ∃ message, runDate now args = dateError message := by
  intro h
  have habort : runDate ⟨0, 0⟩ ["+%#z"] = ⟨.aborted, 101, []⟩ := by decide
  rcases h ⟨0, 0⟩ ["+%#z"] with ⟨text, htext⟩ | ⟨message, hmessage⟩
  · rw [habort] at htext
    cases htext
  · rw [habort] at hmessage
    cases hmessage

end VirtualShell.Command
