import VirtualShell.Proofs.Shell.SavedStates

/-!
# The history of a run

At any time the history is a function of the lines that were executed since it began anew
(`Terminal.history_of_run`). It begins anew when a line clears it, when the terminal is reset and when
a saved state is restored, whose lines then come first.
-/

namespace VirtualShell

open Calendar

namespace Terminal

variable {t t' : Terminal}

/-- The lines with which a step begins the history anew; none if the step goes on with it. -/
def Step.renewal? (t : Terminal) : Step → Option (List String)
  | exec _ input => if Shell.Clears t.world.session.aliases input then some [] else none
  | reset _ => some []
  | restore now text =>
    match t.importState now text with
    | .ok _ => (SavedState.ofText? text).map fun state => state.session.history
    | .error _ => none
  | tree _ | up | down | draft _ => none

/-- The lines that a step adds to the history. -/
def Step.lines : Step → List String
  | exec _ input => [input]
  | _ => []

/-- The lines that the history is made of after a run, where `lines` are those it is made of before:
the lines that were executed since it began anew, behind those with which it began. -/
def collected (t : Terminal) (lines : List String) : List Step → List String
  | [] => lines
  | step :: steps => (step.apply t).collected ((step.renewal? t).getD (lines ++ step.lines)) steps

theorem history_of_importState {now : Instant} {text : String}
    (h : t.importState now text = .ok t') :
    ∃ state, SavedState.ofText? text = some state ∧
      t'.world.session.history = retained t.options.maxHistory state.session.history := by
  unfold importState at h
  split at h
  · cases h
  · next state hstate =>
    split at h
    · cases h
    · next tree _ =>
      cases h
      have hstart : (Session.start t.options tree.currentDirectory now).history =
          retained t.options.maxHistory [] := (retained_nil _).symm
      exact ⟨state, hstate, Session.history_foldl_record hstart state.session.history⟩

/-- A step leaves the history a function of the lines that it is made of. -/
theorem Step.history_apply {lines : List String}
    (h : t.world.session.history = retained t.options.maxHistory lines) (step : Step) :
    (step.apply t).world.session.history =
      retained t.options.maxHistory ((step.renewal? t).getD (lines ++ step.lines)) := by
  have hsame : retained t.options.maxHistory (lines ++ []) = t.world.session.history := by
    rw [List.append_nil, h]
  cases step with
  | exec s input =>
    rw [apply, exec_eq, renewal?]
    dsimp only
    rw [Shell.history_exec]
    split
    · exact (retained_nil _).symm
    · exact Session.history_record_of_retained h input
  | reset s => exact (retained_nil _).symm
  | restore now text =>
    cases ht : t.importState now text with
    | ok t' =>
      obtain ⟨state, hstate, hhistory⟩ := history_of_importState ht
      simp only [apply, renewal?, ht, hstate, Option.map_some, Option.getD_some]
      exact hhistory
    | error e =>
      simp only [apply, renewal?, ht, Option.getD_none]
      exact hsame.symm
  | tree step => exact hsame.symm
  | up => exact (Session.history_up _).trans hsame.symm
  | down => exact (Session.history_down _).trans hsame.symm
  | draft text => exact hsame.symm

theorem history_foldl_apply {lines : List String}
    (h : t.world.session.history = retained t.options.maxHistory lines) (steps : List Step) :
    (steps.foldl Step.apply t).world.session.history =
      retained t.options.maxHistory (t.collected lines steps) := by
  induction steps generalizing t lines with
  | nil => exact h
  | cons step steps ih =>
    have hstep := step.history_apply h
    rw [← step.options_apply t] at hstep
    rw [List.foldl_cons, ih hstep, step.options_apply, collected]

/-- Recording lines one after another, from an empty history on, gives the last ones of their last
occurrences, after they were trimmed and the blank ones dropped. So the history of a terminal after
any run is the same function of the lines that were executed since the history was cleared, the
terminal was reset or a saved state was restored, preceded by the history of this state. -/
theorem history_of_run (o : Options) (s : Supply) (steps : List Step) :
    (∀ (limit : Nat) (lines : List String) (session : Session),
      (lines.foldl (fun (s : Session) line => s.record line limit)
        { session with history := [] }).history = retained limit lines) ∧
    (steps.foldl Step.apply (start o s)).world.session.history =
      retained o.maxHistory ((start o s).collected [] steps) := by
  constructor
  · intro limit lines session
    have hempty : ({ session with history := [] } : Session).history = retained limit [] :=
      (retained_nil limit).symm
    exact Session.history_foldl_record hempty lines
  · have hstart : (start o s).world.session.history = retained o.maxHistory [] :=
      (retained_nil _).symm
    exact history_foldl_apply hstart steps

end Terminal

end VirtualShell
