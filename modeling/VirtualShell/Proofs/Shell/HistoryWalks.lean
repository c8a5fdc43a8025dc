import Mathlib.Data.List.GetD
import VirtualShell.Proofs.Shell.SavedStates
import VirtualShell.Proofs.Shell.Selection

/-!
# Walks over the history

Between two lines the history stands still, and going up and down is a walk over it: the place of the
walk is that of the line that is shown, or the one behind the last line (`Walk`). A walk cannot leave
the lines that it goes over. A terminal answers as the walk does on which it stands
(`Terminal.run_standing`), and each line, each reset and each saved state that is restored starts a
new walk behind the last line (`Terminal.walk_of_run`). A saved state that is refused starts none: the
line that was selected stays so (`Terminal.not_walk_of_refused`).
-/

namespace VirtualShell

open Calendar

/-! ## Walks -/

/-- What can be done between two lines: going up or down and changing the line in the making. -/
inductive Move where
  | up
  | down
  | draft (text : String)

/-- What moves show one after another, and the state after them. -/
def Move.run {σ : Type} (move : σ → Move → Option Shown × σ) (state : σ) :
    List Move → List (Option Shown) × σ
  | [] => ([], state)
  | m :: ms =>
    let rest := run move (move state m).2 ms
    ((move state m).1 :: rest.1, rest.2)

/-- Where each move is answered in the same way, so is a row of moves. -/
theorem Move.run_eq_of_move_eq {σ τ : Type} {move : σ → Move → Option Shown × σ}
    {move' : τ → Move → Option Shown × τ} {f : σ → τ}
    (h : ∀ state m, move' (f state) m = ((move state m).1, f (move state m).2)) (state : σ)
    (ms : List Move) :
    Move.run move' (f state) ms =
      ((Move.run move state ms).1, f (Move.run move state ms).2) := by
  induction ms generalizing state with
  | nil => rfl
  | cons m ms ih =>
    unfold Move.run
    dsimp only
    rw [h, ih]

/-- A walk over some lines, with the line in the making. The place behind the last line is one of its
places. -/
structure Walk (lines : List String) where
  place : Nat
  place_le : place ≤ lines.length
  draft : String

namespace Walk

variable {lines : List String}

/-- A walk starts behind the last line. -/
def fresh (lines : List String) (draft : String) : Walk lines := ⟨lines.length, le_rfl, draft⟩

/-- Up leads to the line before and stays at the first line. Without lines the draft is shown. -/
def up (w : Walk lines) : String × Walk lines :=
  if hlines : 0 < lines.length then
    have hplace : w.place - 1 < lines.length := by
      have := w.place_le
      omega
    (lines[w.place - 1], { w with place := w.place - 1, place_le := hplace.le })
  else (w.draft, w)

/-- Down leads to the next line. From the last line it leads behind it and clears the draft, and there
it shows the draft. -/
def down (w : Walk lines) : String × Walk lines :=
  if hplace : w.place + 1 < lines.length then
    (lines[w.place + 1], { w with place := w.place + 1, place_le := hplace.le })
  else if w.place + 1 = lines.length then ("", fresh lines "")
  else (w.draft, w)

/-- What a move shows, and the walk after it. -/
def move (w : Walk lines) : Move → Option Shown × Walk lines
  | .up => (some (.line w.up.1), w.up.2)
  | .down => (some (.line w.down.1), w.down.2)
  | .draft text => (none, { w with draft := text })

end Walk

/-! ## Sessions on a walk -/

namespace Session

variable (s : Session)

/-- The session at the place of a walk over its history. -/
def standing (w : Walk s.history) : Session :=
  { s with
    cursor := if w.place < s.history.length then some w.place else none
    draft := w.draft }

variable {s}

theorem standing_fresh (h : s.cursor = none) : s.standing (.fresh s.history s.draft) = s := by
  unfold standing Walk.fresh
  rw [if_neg (Nat.lt_irrefl _), ← h]

theorem upPlace?_standing {w : Walk s.history} (h : 0 < s.history.length) :
    (s.standing w).upPlace? = some (w.place - 1) := by
  have hle := w.place_le
  unfold upPlace? standing
  dsimp only
  rw [if_neg (List.length_pos_iff.1 h)]
  by_cases hplace : w.place < s.history.length
  · rw [if_pos hplace]
  · have hbehind : w.place = s.history.length := by omega
    rw [if_neg hplace, hbehind]

theorem downPlace?_standing {w : Walk s.history} :
    (s.standing w).downPlace? =
      if w.place + 1 < s.history.length then some (w.place + 1) else none := by
  unfold downPlace? standing
  dsimp only
  by_cases hplace : w.place < s.history.length
  · rw [if_pos hplace, Option.bind_some]
  · rw [if_neg hplace, Option.bind_none, if_neg (by omega)]

/-- Going up in a session is going up on its walk. -/
theorem up_standing (w : Walk s.history) :
    (s.standing w).up = (.line w.up.1, s.standing w.up.2) := by
  have hle := w.place_le
  rw [up_eq, Walk.up]
  by_cases hlines : 0 < s.history.length
  · have hplace : w.place - 1 < s.history.length := by omega
    rw [upPlace?_standing hlines, Option.elim_some, dif_pos hlines]
    unfold standing
    dsimp only
    rw [if_pos hplace, List.getElem?_eq_getElem hplace]
    rfl
  · have hnil : s.history = [] := List.length_eq_zero_iff.1 (by omega)
    have hnone : (s.standing w).upPlace? = none := if_pos hnil
    rw [hnone, Option.elim_none, dif_neg hlines]
    rfl

/-- Going down in a session is going down on its walk. -/
theorem down_standing (w : Walk s.history) :
    (s.standing w).down = (w.down.1, s.standing w.down.2) := by
  have hle := w.place_le
  rw [down_eq, downPlace?_standing, Walk.down]
  by_cases hnext : w.place + 1 < s.history.length
  · rw [if_pos hnext, Option.elim_some, dif_pos hnext]
    unfold standing
    dsimp only
    rw [if_pos hnext, List.getD_eq_getElem _ _ hnext]
  · rw [if_neg hnext, Option.elim_none, dif_neg hnext]
    by_cases hlast : w.place + 1 = s.history.length
    · -- the last line is shown, so that there is one
      have hselected : ¬ ((s.standing w).cursor = none ∨ (s.standing w).history = []) := by
        have hplace : w.place < s.history.length := by omega
        have hlines : s.history ≠ [] := List.length_pos_iff.1 (by omega)
        simp [standing, hplace, hlines]
      rw [if_neg hselected, if_pos hlast]
      simp [standing, Walk.fresh]
    · have hbehind : (s.standing w).cursor = none := if_neg (by omega)
      rw [if_pos (Or.inl hbehind), if_neg hlast]
      rfl

theorem inRange_standing (w : Walk s.history) : (s.standing w).InRange := by
  intro i hi
  unfold standing at hi
  dsimp only at hi
  split at hi
  · next hplace =>
    cases hi
    exact hplace
  · cases hi

end Session

/-! ## Terminals on a walk -/

theorem Shell.cursor_exec (s : Surroundings) (w : World) (input : String) :
    (exec s w input).2.session.cursor = none := by
  by_cases hblank : Text.trim input = ""
  · rw [exec_blank hblank]
    rfl
  · rw [exec_line hblank]
    rfl

namespace Terminal

variable {t : Terminal}

/-- The terminal at the place of a walk over its history. -/
def standing (t : Terminal) (w : Walk t.world.session.history) : Terminal :=
  { t with world := { t.world with session := t.world.session.standing w } }

/-- What a move shows, and the terminal after it. -/
def move (t : Terminal) : Move → Option Shown × Terminal
  | .up => (some t.up.1, t.up.2)
  | .down => (some (.line t.down.1), t.down.2)
  | .draft text => (none, t.setDraft text)

/-- A terminal on a walk answers as the walk does. -/
theorem move_standing (w : Walk t.world.session.history) (m : Move) :
    (t.standing w).move m = ((w.move m).1, t.standing (w.move m).2) := by
  cases m with
  | up => simp only [move, Terminal.up, standing, Session.up_standing, Walk.move]
  | down => simp only [move, Terminal.down, standing, Session.down_standing, Walk.move]
  | draft text => rfl

theorem run_standing (w : Walk t.world.session.history) (ms : List Move) :
    Move.run move (t.standing w) ms =
      ((Move.run Walk.move w ms).1, t.standing (Move.run Walk.move w ms).2) :=
  Move.run_eq_of_move_eq move_standing w ms

theorem standing_fresh (h : t.world.session.cursor = none) :
    t.standing (.fresh t.world.session.history t.world.session.draft) = t := by
  rw [standing, Session.standing_fresh h]

/-! ## Runs -/

/-- The step ends the walk that is going on: it executes a line, resets the terminal or restores a saved
state that is accepted. -/
def Step.EndsWalk (t : Terminal) : Step → Prop
  | exec _ _ | reset _ => True
  | restore now text => ∃ t', t.importState now text = .ok t'
  | tree _ | up | down | draft _ => False

theorem cursor_of_importState {t' : Terminal} {now : Instant} {text : String}
    (h : t.importState now text = .ok t') : t'.world.session.cursor = none := by
  unfold importState at h
  split at h
  · cases h
  · split at h
    · cases h
    · cases h
      exact Session.cursor_foldl_record _ _ _

/-- After a step that ends the walk no line is selected. -/
theorem Step.EndsWalk.cursor_eq {step : Step} (h : step.EndsWalk t) :
    (step.apply t).world.session.cursor = none := by
  cases step with
  | exec s input =>
    rw [apply, exec_eq]
    dsimp only
    exact Shell.cursor_exec ⟨s, t.options⟩ t.world input
  | reset s => rfl
  | restore now text =>
    obtain ⟨t', ht'⟩ := h
    rw [apply, ht']
    exact cursor_of_importState ht'
  | tree _ | up | down | draft _ => cases h

theorem Step.inRange (h : t.world.session.InRange) (step : Step) :
    (step.apply t).world.session.InRange := by
  by_cases hends : step.EndsWalk t
  · exact Session.inRange_of_none hends.cursor_eq
  cases step with
  | exec s input => exact absurd trivial hends
  | reset s => exact absurd trivial hends
  | restore now text =>
    rw [apply]
    split
    · next t' ht' => exact absurd ⟨t', ht'⟩ hends
    · exact h
  | tree step => exact h
  | up => exact h.up
  | down => exact h.down
  | draft text => exact h

theorem inRange_of_run (h : t.world.session.InRange) (steps : List Step) :
    (steps.foldl Step.apply t).world.session.InRange := by
  induction steps generalizing t with
  | nil => exact h
  | cons step steps ih => exact ih (step.inRange h)

/-- In any run of a terminal, a line, a reset and a saved state that is restored start a new walk behind
the last line of the history that they leave, and moves up, down and to another draft are answered as
on this walk until the next step of another kind. A saved state that is refused leaves the terminal as
it is. At no time a place is read that the history does not have. -/
theorem walk_of_run (o : Options) (s : Supply) (steps : List Step) :
    let t := steps.foldl Step.apply (start o s)
    (∀ step : Step, step.EndsWalk t → ∀ ms,
      let t' := step.apply t
      let walk := Walk.fresh t'.world.session.history t'.world.session.draft
      Move.run move t' ms =
          ((Move.run Walk.move walk ms).1, t'.standing (Move.run Walk.move walk ms).2) ∧
        ∀ place, (Move.run move t' ms).2.world.session.Reads place →
          place < t'.world.session.history.length) ∧
    (∀ now text, ¬ (Step.restore now text).EndsWalk t → (Step.restore now text).apply t = t) ∧
    ∀ place, t.world.session.Reads place → place < t.world.session.history.length := by
  intro t
  refine ⟨fun step hends ms => ?_, fun now text hrefused => ?_, fun place hreads => ?_⟩
  · intro t' walk
    have hrun : Move.run move t' ms =
        ((Move.run Walk.move walk ms).1, t'.standing (Move.run Walk.move walk ms).2) := by
      rw [← run_standing, standing_fresh hends.cursor_eq]
    refine ⟨hrun, fun place hreads => ?_⟩
    rw [hrun] at hreads
    exact (Session.inRange_standing (Move.run Walk.move walk ms).2).lt_of_reads hreads
  · rw [Step.apply]
    split
    · next t' ht' => exact absurd ⟨t', ht'⟩ hrefused
    · rfl
  · have hstart : (start o s).world.session.InRange := Session.inRange_of_none rfl
    exact (inRange_of_run hstart steps).lt_of_reads hreads

/-- A walk over two lines that stops at the first, and ends behind the last with an empty draft. -/
theorem walk_of_run_over_two_lines :
    let s : Supply := ⟨.still ⟨0, 0⟩, .counting⟩
    let t := [Step.exec s "pwd"].foldl Step.apply (start {} s)
    let line := Step.exec s "whoami"
    line.EndsWalk t ∧
      (Move.run move (line.apply t) [.draft "ca", .down, .up, .up, .up, .down, .down, .down]).1 =
        [none, some (.line "ca"), some (.line "whoami"), some (.line "pwd"), some (.line "pwd"),
          some (.line "whoami"), some (.line ""), some (.line "")] := by
  intro s t line
  have hends : line.EndsWalk t := trivial
  obtain ⟨hwalk, -, -⟩ := walk_of_run {} s [.exec s "pwd"]
  obtain ⟨hmoves, -⟩ := hwalk line hends [.draft "ca", .down, .up, .up, .up, .down, .down, .down]
  refine ⟨hends, ?_⟩
  rw [hmoves]
  decide

/-- A saved state that is refused does not start a walk: the line that was selected stays so. -/
theorem not_walk_of_refused :
    ¬ ∀ (o : Options) (s : Supply) (steps : List Step) (now : Instant) (text : String)
      (ms : List Move),
      let t := (Step.restore now text).apply (steps.foldl Step.apply (start o s))
      (Move.run move t ms).1 =
        (Move.run Walk.move (.fresh t.world.session.history t.world.session.draft) ms).1 := by
  intro h
  let s : Supply := ⟨.still ⟨0, 0⟩, .counting⟩
  have hwalk := h {} s [.exec s "pwd", .draft "x", .up] ⟨0, 0⟩ "\x7b" [.down]
  revert hwalk
  decide

end Terminal

end VirtualShell
