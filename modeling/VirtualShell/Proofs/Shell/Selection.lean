import VirtualShell.Proofs.Shell.Histories

/-!
# The selected line of a history

Going up and down reads at most one place of the history (`Session.Reads`). The selected line is kept
as a place beside the history, and nothing keeps the two together but the calls that change them. A
call keeps the selected place in range unless it records a line and leaves room for no more lines than
stand before the selected one (`Session.inRange_apply_iff`). So a run of calls keeps it in range just
if none of them cuts off the selected line (`Session.selected_of_calls`). After a call that does, going
up may read outside of the history, which aborts the program (`Session.not_selected_of_cut`).
-/

namespace VirtualShell

/-- Of distinct lines, at most one is equal to a given line. -/
theorem length_le_length_filter_ne {history : List String} (h : history.Nodup) (line : String) :
    history.length ≤ (history.filter (· ≠ line)).length + 1 := by
  have herase : (history.erase line).length = (history.filter (· ≠ line)).length := by
    rw [h.erase_eq_filter]
    congr 1
    exact List.filter_congr fun x _ => by by_cases hx : x = line <;> simp [hx]
  have hle : history.length - 1 ≤ (history.erase line).length := List.le_length_erase
  omega

namespace Session

variable {s : Session}

/-! ## The place that is read -/

/-- The place of the history that going up reads; none where the draft is shown. -/
def upPlace? (s : Session) : Option Nat :=
  if s.history = [] then none
  else some (match s.cursor with
    | none => s.history.length - 1
    | some i => i - 1)

/-- The place of the history that going down reads; none behind the last line. -/
def downPlace? (s : Session) : Option Nat :=
  s.cursor.bind fun i => if i + 1 < s.history.length then some (i + 1) else none

/-- Going up shows the line at the place that it reads and selects it, or shows the draft. The program
is aborted if there is no such line. -/
theorem up_eq (s : Session) :
    s.up = s.upPlace?.elim (.line s.draft, s) fun i =>
      (s.history[i]?.elim .aborted .line, { s with cursor := some i }) := by
  unfold up upPlace?
  by_cases hnil : s.history = []
  · rw [if_pos (List.isEmpty_iff.2 hnil), if_pos hnil]
    rfl
  · rw [if_neg (mt List.isEmpty_iff.1 hnil), if_neg hnil]
    rfl

/-- Going down shows the line at the place that it reads and selects it. Behind the last line it clears
the draft and selects nothing, and where nothing is selected or there is no line it shows the draft. -/
theorem down_eq (s : Session) :
    s.down = s.downPlace?.elim
      (if s.cursor = none ∨ s.history = [] then (s.draft, s)
        else ("", { s with cursor := none, draft := "" }))
      fun i => (s.history.getD i "", { s with cursor := some i }) := by
  unfold down downPlace?
  cases hcursor : s.cursor with
  | none => rfl
  | some i =>
    by_cases hnil : s.history = []
    · simp [hnil]
    · have hnonempty : ¬ s.history.isEmpty = true := mt List.isEmpty_iff.1 hnil
      dsimp only
      rw [if_neg hnonempty, Option.bind_some]
      by_cases hlast : i + 1 < s.history.length
      · rw [if_neg (Nat.not_le.2 hlast), if_pos hlast]
        rfl
      · rw [if_pos (Nat.not_lt.1 hlast), if_neg hlast, Option.elim_none, if_neg (by simp [hnil])]

/-- Going up or down reads a place of the history. -/
def Reads (s : Session) (place : Nat) : Prop := s.upPlace? = some place ∨ s.downPlace? = some place

/-- No line is selected, or one that the history has. -/
def InRange (s : Session) : Prop := ∀ i ∈ s.cursor, i < s.history.length

instance (s : Session) : Decidable s.InRange := inferInstanceAs (Decidable (∀ i ∈ s.cursor, _))

theorem inRange_of_none (h : s.cursor = none) : s.InRange := by
  intro i hi
  rw [h] at hi
  cases hi

theorem downPlace?_lt {place : Nat} (h : s.downPlace? = some place) :
    place < s.history.length := by
  obtain ⟨i, -, hi⟩ := Option.bind_eq_some_iff.1 h
  split at hi
  · next hlt =>
    cases hi
    exact hlt
  · cases hi

/-- The history is read outside just if it has lines and the selected place lies beyond the place after
the last line. -/
theorem reads_outside_iff : (∃ place, s.Reads place ∧ s.history.length ≤ place) ↔
    s.history ≠ [] ∧ ∃ i ∈ s.cursor, s.history.length < i := by
  constructor
  · rintro ⟨place, hup | hdown, hout⟩
    · unfold upPlace? at hup
      split at hup
      · cases hup
      · next hnil =>
        have hpos := List.length_pos_iff.2 hnil
        refine ⟨hnil, ?_⟩
        cases hcursor : s.cursor with
        | none =>
          simp only [hcursor, Option.some.injEq] at hup
          omega
        | some i =>
          simp only [hcursor, Option.some.injEq] at hup
          exact ⟨i, rfl, by omega⟩
    · exact absurd (downPlace?_lt hdown) (Nat.not_lt.2 hout)
  · rintro ⟨hnil, i, hcursor, hout⟩
    refine ⟨i - 1, Or.inl ?_, by omega⟩
    rw [upPlace?, if_neg hnil, hcursor]

/-- The program is aborted just if the history is read outside, which only going up does. -/
theorem aborted_up_iff : s.up.1 = .aborted ↔ ∃ place, s.Reads place ∧ s.history.length ≤ place := by
  have hline : ∀ i, s.history[i]?.elim Shown.aborted Shown.line = .aborted ↔ s.history.length ≤ i := by
    intro i
    rw [← List.getElem?_eq_none_iff]
    cases s.history[i]? <;> simp
  rw [up_eq]
  cases hplace : s.upPlace? with
  | none =>
    refine iff_of_false (by simp) ?_
    rintro ⟨place, hup | hdown, hout⟩
    · rw [hplace] at hup
      cases hup
    · exact absurd (downPlace?_lt hdown) (Nat.not_lt.2 hout)
  | some i =>
    rw [Option.elim_some, hline]
    constructor
    · exact fun hout => ⟨i, Or.inl hplace, hout⟩
    · rintro ⟨place, hup | hdown, hout⟩
      · rw [hplace] at hup
        cases hup
        exact hout
      · exact absurd (downPlace?_lt hdown) (Nat.not_lt.2 hout)

theorem InRange.lt_of_reads (h : s.InRange) {place : Nat} (hreads : s.Reads place) :
    place < s.history.length := by
  by_contra hout
  obtain ⟨-, i, hcursor, hlt⟩ := reads_outside_iff.1 ⟨place, hreads, Nat.not_lt.1 hout⟩
  exact absurd (h i hcursor) (by omega)

theorem InRange.up (h : s.InRange) : s.up.2.InRange := by
  rw [up_eq]
  cases hplace : s.upPlace? with
  | none => exact h
  | some i =>
    rintro j ⟨⟩
    exact h.lt_of_reads (Or.inl hplace)

theorem InRange.down (h : s.InRange) : s.down.2.InRange := by
  rw [down_eq]
  cases hplace : s.downPlace? with
  | none =>
    rw [Option.elim_none]
    split
    · exact h
    · exact inRange_of_none rfl
  | some i =>
    have hlt := downPlace?_lt hplace
    rintro j ⟨⟩
    exact hlt

/-! ## Runs of calls -/

/-- A call that concerns the history of a session. -/
inductive HistoryCall where
  | record (input : String) (limit : Nat)
  | clear
  | draft (text : String)
  | up
  | down

/-- The session after a call. -/
def HistoryCall.apply (s : Session) : HistoryCall → Session
  | record input limit => s.record input limit
  | clear => s.clearHistory
  | draft text => s.setDraft text
  | up => s.up.2
  | down => s.down.2

/-- The call records a line and leaves room for no more lines than stand before the selected one. -/
def HistoryCall.CutsOff (s : Session) : HistoryCall → Prop
  | record input limit => Text.trim input ≠ "" ∧ ∃ i ∈ s.cursor, limit ≤ i
  | clear | draft _ | up | down => False

theorem cursor_record (s : Session) (input : String) (limit : Nat) :
    (s.record input limit).cursor = s.cursor := by
  unfold record
  dsimp only
  split <;> rfl

theorem cursor_foldl_record (s : Session) (limit : Nat) (lines : List String) :
    (lines.foldl (fun (s : Session) line => s.record line limit) s).cursor = s.cursor := by
  induction lines generalizing s with
  | nil => rfl
  | cons line lines ih => rw [List.foldl_cons, ih, cursor_record]

theorem nodup_apply (h : s.history.Nodup) (call : HistoryCall) : (call.apply s).history.Nodup := by
  cases call with
  | record input limit =>
    rw [HistoryCall.apply, history_record]
    split
    · exact h
    · exact nodup_recordLine h limit _
  | clear => exact List.nodup_nil
  | draft text => exact h
  | up => exact (history_up s).symm ▸ h
  | down => exact (history_down s).symm ▸ h

/-- A call leaves the selected place in range just if it does not cut off the selected line. -/
theorem inRange_apply_iff (h : s.InRange) (hnodup : s.history.Nodup) (call : HistoryCall) :
    (call.apply s).InRange ↔ ¬ call.CutsOff s := by
  cases call with
  | record input limit =>
    unfold InRange HistoryCall.apply HistoryCall.CutsOff
    rw [cursor_record, history_record]
    by_cases hblank : Text.trim input = ""
    · rw [if_pos hblank]
      exact iff_of_true h fun hcut => hcut.1 hblank
    · rw [if_neg hblank, length_recordLine]
      have hroom := length_le_length_filter_ne hnodup (Text.trim input)
      constructor
      · rintro hafter ⟨-, i, hi, hlimit⟩
        have := hafter i hi
        omega
      · intro hkept i hi
        have hbefore := h i hi
        have hlimit : i < limit := Nat.not_le.1 fun hle => hkept ⟨hblank, i, hi, hle⟩
        omega
  | clear => exact iff_of_true (inRange_of_none rfl) id
  | draft text => exact iff_of_true h id
  | up => exact iff_of_true h.up id
  | down => exact iff_of_true h.down id

/-- The session after some calls. -/
def afterCalls (s : Session) (calls : List HistoryCall) : Session := calls.foldl HistoryCall.apply s

theorem afterCalls_concat (s : Session) (calls : List HistoryCall) (call : HistoryCall) :
    s.afterCalls (calls ++ [call]) = call.apply (s.afterCalls calls) := by
  rw [afterCalls, List.foldl_append, afterCalls, List.foldl_cons, List.foldl_nil]

theorem nodup_afterCalls (h : s.history.Nodup) (calls : List HistoryCall) :
    (s.afterCalls calls).history.Nodup := by
  induction calls using List.reverseRecOn with
  | nil => exact h
  | append_singleton calls call ih =>
    rw [afterCalls_concat]
    exact nodup_apply ih call

/-- The selected place stays in range all the time just if no call cuts off the selected line. -/
theorem inRange_afterCalls_iff (h : s.InRange) (hnodup : s.history.Nodup)
    (calls : List HistoryCall) :
    (∀ before, before <+: calls → (s.afterCalls before).InRange) ↔
      ∀ before call, before ++ [call] <+: calls → ¬ call.CutsOff (s.afterCalls before) := by
  constructor
  · intro hall before call hprefix
    have hbefore := hall before ((List.prefix_append before [call]).trans hprefix)
    rw [← inRange_apply_iff hbefore (nodup_afterCalls hnodup before), ← afterCalls_concat]
    exact hall _ hprefix
  · intro hkept before hprefix
    induction before using List.reverseRecOn with
    | nil => exact h
    | append_singleton before call ih =>
      have hbefore := ih ((List.prefix_append before [call]).trans hprefix)
      rw [afterCalls_concat, inRange_apply_iff hbefore (nodup_afterCalls hnodup before)]
      exact hkept before call hprefix

/-- In a run of calls on a fresh session the selected place is in range after every call just if no
call cuts off the selected line. While it is in range, so is every place that is read. However the run
went, only going up may read outside, and it does just if there are lines and the selected place lies
beyond the place after the last line; then the program is aborted, and else never. -/
theorem selected_of_calls (o : Options) (cwd : String) (now : Calendar.Instant)
    (calls : List HistoryCall) :
    let after := (start o cwd now).afterCalls
    ((∀ before, before <+: calls → (after before).InRange) ↔
      ∀ before call, before ++ [call] <+: calls → ¬ call.CutsOff (after before)) ∧
    ((after calls).InRange →
      ∀ place, (after calls).Reads place → place < (after calls).history.length) ∧
    (∀ place, (after calls).downPlace? = some place → place < (after calls).history.length) ∧
    ((∃ place, (after calls).Reads place ∧ (after calls).history.length ≤ place) ↔
      (after calls).history ≠ [] ∧
        ∃ i ∈ (after calls).cursor, (after calls).history.length < i) ∧
    ((after calls).up.1 = .aborted ↔
      ∃ place, (after calls).Reads place ∧ (after calls).history.length ≤ place) := by
  intro after
  have hfresh : (start o cwd now).InRange := inRange_of_none rfl
  have hnodup : (start o cwd now).history.Nodup := List.nodup_nil
  refine ⟨inRange_afterCalls_iff hfresh hnodup calls, ?_, ?_, reads_outside_iff, aborted_up_iff⟩
  · intro h place hreads
    exact h.lt_of_reads hreads
  · intro place hplace
    exact downPlace?_lt hplace

/-- A call that leaves room for fewer lines cuts off the line that is selected. Then the selected place
is out of range, and if the room was for one line, the next step up reads the second and the program is
aborted. -/
theorem not_selected_of_cut :
    (¬ ∀ (o : Options) (cwd : String) (now : Calendar.Instant) (calls : List HistoryCall),
      ((start o cwd now).afterCalls calls).InRange) ∧
    (¬ ∀ (o : Options) (cwd : String) (now : Calendar.Instant) (calls : List HistoryCall)
      (place : Nat), ((start o cwd now).afterCalls calls).Reads place →
        place < ((start o cwd now).afterCalls calls).history.length) ∧
    ((start {} "/" ⟨0, 0⟩).afterCalls [.record "a" 9, .record "b" 9, .record "c" 9, .up,
      .record "d" 1]).up.1 = .aborted := by
  refine ⟨?_, ?_, by decide⟩
  · intro h
    have hcut := h {} "/" ⟨0, 0⟩ [.record "a" 9, .record "b" 9, .up, .record "c" 0]
    revert hcut
    decide
  · intro h
    let calls : List HistoryCall :=
      [.record "a" 9, .record "b" 9, .record "c" 9, .up, .record "d" 1]
    have hplace : ((start {} "/" ⟨0, 0⟩).afterCalls calls).upPlace? = some 1 := by decide
    have hcut := h {} "/" ⟨0, 0⟩ calls 1 (Or.inl hplace)
    revert hcut
    decide

end Session

end VirtualShell
