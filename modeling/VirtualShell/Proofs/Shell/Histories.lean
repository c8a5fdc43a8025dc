import Mathlib.Data.List.DropRight
import Mathlib.Data.List.Nodup
import VirtualShell.Proofs.Text.Numerals
import VirtualShell.Session.History

/-!
# Histories that a shell can hold

The lines of a history are trimmed and not blank, none comes twice, and there are no more than the
limit allows. Recording a line keeps this (`settled_recordLine`). Conversely such a history is what
remains when its lines are recorded again one after another (`foldl_record_of_settled`): no line
is trimmed further, moved or dropped.

Lines drop out of a history one at a time, when they are given again or when there are too many.
What remains in the end is the same as if all lines were looked at together
(`history_foldl_record`): a line that the limit drops early is never missed later, since each line
that comes adds at most one to the last ones.
-/

namespace VirtualShell

namespace Text

/-- A text that does not begin with a blank still does not when the blanks at its end are gone. -/
theorem trimLeft_trimRight_trimLeft (s : List Char) :
    trimLeft (trimRight (trimLeft s)) = trimRight (trimLeft s) := by
  have hhead := List.head?_dropWhile_not isBlank s
  unfold trimLeft at *
  generalize s.dropWhile isBlank = l at hhead ⊢
  cases l with
  | nil => rfl
  | cons c l =>
    have hc : isBlank c = false := by simpa using hhead
    -- the first character stays, whatever is dropped behind it
    have hkeep : ∃ r, trimRight (c :: l) = c :: r := by
      unfold trimRight
      rw [List.reverse_cons, List.dropWhile_append]
      split
      · exact ⟨[], by simp [hc]⟩
      · exact ⟨_, by rw [List.reverse_append]; rfl⟩
    obtain ⟨r, hr⟩ := hkeep
    rw [hr, List.dropWhile_cons_of_neg (by simp [hc])]

theorem trimRight_trimRight (s : List Char) : trimRight (trimRight s) = trimRight s := by
  unfold trimRight
  rw [List.reverse_reverse, dropWhile_of_head?]
  intro a ha
  have hnot := List.head?_dropWhile_not isBlank s.reverse
  rw [ha] at hnot
  simpa using hnot

/-- Trimming a trimmed text changes nothing. -/
theorem trim_trim (s : String) : trim (trim s) = trim s := by
  simp only [trim, String.toList_ofList, trimLeft_trimRight_trimLeft, trimRight_trimRight]

end Text

/-- A history that a shell with a given limit can hold. -/
structure Settled (limit : Nat) (history : List String) : Prop where
  trimmed : ∀ line ∈ history, Text.trim line = line
  nonblank : ∀ line ∈ history, line ≠ ""
  nodup : history.Nodup
  length_le : history.length ≤ limit

variable {limit : Nat} {history : List String}

theorem settled_nil (limit : Nat) : Settled limit [] :=
  ⟨by simp, by simp, List.nodup_nil, Nat.zero_le _⟩

/-! ## Recording one line -/

theorem mem_of_mem_recordLine {line x : String} (h : x ∈ recordLine limit history line) :
    x ∈ history ∨ x = line := by
  have hx := List.mem_of_mem_drop h
  rw [List.mem_append, List.mem_filter, List.mem_singleton] at hx
  exact hx.imp_left And.left

theorem nodup_recordLine (h : history.Nodup) (limit : Nat) (line : String) :
    (recordLine limit history line).Nodup := by
  refine (List.drop_sublist _ _).nodup (List.nodup_append.2 ⟨h.filter _, List.nodup_singleton line, ?_⟩)
  intro a ha b hb hab
  rw [List.mem_singleton] at hb
  rw [List.mem_filter] at ha
  simp [hab, hb] at ha

theorem length_recordLine (limit : Nat) (history : List String) (line : String) :
    (recordLine limit history line).length =
      min limit ((history.filter (· ≠ line)).length + 1) := by
  unfold recordLine
  dsimp only
  rw [List.length_drop, List.length_append, List.length_singleton]
  omega

/-- A line that is recorded goes to the end, and what falls out at the front does not matter. -/
theorem settled_recordLine (h : Settled limit history) {line : String}
    (htrim : Text.trim line = line) (hne : line ≠ "") :
    Settled limit (recordLine limit history line) := by
  refine ⟨fun x hx => ?_, fun x hx => ?_, nodup_recordLine h.nodup limit line, ?_⟩
  · rcases mem_of_mem_recordLine hx with hx | rfl
    · exact h.trimmed x hx
    · exact htrim
  · rcases mem_of_mem_recordLine hx with hx | rfl
    · exact h.nonblank x hx
    · exact hne
  · rw [length_recordLine]
    exact Nat.min_le_left _ _

/-! ## All lines at once -/

section Retained

variable {line : String} {lines : List String}

/-- With one line more, it comes last, and its earlier occurrence does not count. -/
theorem lastOccurrences_concat (lines : List String) (line : String) :
    lastOccurrences (lines ++ [line]) = (lastOccurrences lines).filter (· ≠ line) ++ [line] := by
  induction lines with
  | nil => rfl
  | cons a rest ih =>
    rw [List.cons_append, lastOccurrences, lastOccurrences, ih]
    by_cases ha : a ∈ rest
    · have hlater : a ∈ rest ++ [line] := List.mem_append_left _ ha
      rw [if_pos ha, if_pos hlater]
    · rw [if_neg ha]
      by_cases hline : a = line
      · simp [hline]
      · have hnever : a ∉ rest ++ [line] := by simp [ha, hline]
        rw [if_neg hnever, List.filter_cons_of_pos (by simpa using hline), List.cons_append]

theorem mem_of_mem_lastOccurrences (h : line ∈ lastOccurrences lines) : line ∈ lines := by
  induction lines with
  | nil => exact h
  | cons a rest ih =>
    rw [lastOccurrences] at h
    split at h
    · exact List.mem_cons_of_mem a (ih h)
    · rcases List.mem_cons.1 h with rfl | h
      · exact List.mem_cons_self
      · exact List.mem_cons_of_mem a (ih h)

theorem nodup_lastOccurrences (lines : List String) : (lastOccurrences lines).Nodup := by
  induction lines with
  | nil => exact List.nodup_nil
  | cons a rest ih =>
    rw [lastOccurrences]
    split
    · exact ih
    · next ha => exact List.nodup_cons.2 ⟨fun h => ha (mem_of_mem_lastOccurrences h), ih⟩

theorem filter_ne_of_not_mem (h : line ∉ lines) : lines.filter (· ≠ line) = lines := by
  rw [List.filter_eq_self]
  intro a ha
  have hne : a ≠ line := fun he => h (he ▸ ha)
  simpa using hne

/-- Of distinct lines, the last ones after one was taken out are found among one more of the last
ones before. -/
theorem rtake_filter_rtake_succ (h : lines.Nodup) (limit : Nat) :
    ((lines.rtake (limit + 1)).filter (· ≠ line)).rtake limit =
      (lines.filter (· ≠ line)).rtake limit := by
  induction lines using List.reverseRecOn generalizing limit with
  | nil => simp
  | append_singleton rest a ih =>
    obtain ⟨hrest, -, hdisjoint⟩ := List.nodup_append.1 h
    have ha : a ∉ rest := fun hmem => hdisjoint a hmem a (List.mem_singleton_self a) rfl
    rw [List.rtake_concat_succ, List.filter_append, List.filter_append]
    by_cases hline : a = line
    · -- the line that goes is the last one, and nothing else is touched
      subst hline
      have htaken : a ∉ rest.rtake limit := fun hmem => ha (List.mem_of_mem_drop hmem)
      have hnone : [a].filter (· ≠ a) = [] := by simp
      rw [hnone, List.append_nil, List.append_nil, filter_ne_of_not_mem htaken,
        filter_ne_of_not_mem ha]
      simp [List.rtake_eq_reverse_take_reverse, List.take_take]
    · have hkept : [a].filter (· ≠ line) = [a] := by simp [hline]
      rw [hkept]
      cases limit with
      | zero => rw [List.rtake_zero, List.rtake_zero]
      | succ limit => rw [List.rtake_concat_succ, List.rtake_concat_succ, ih hrest]

theorem retained_eq (limit : Nat) (input : List String) :
    retained limit input =
      (lastOccurrences ((input.map Text.trim).filter (· ≠ ""))).rtake limit := rfl

@[simp] theorem retained_nil (limit : Nat) : retained limit [] = [] := by
  simp [retained_eq, lastOccurrences]

/-- With one line of input more, what is kept of all lines is what is kept of those before it,
with this line recorded. -/
theorem retained_concat (limit : Nat) (input : List String) (line : String) :
    retained limit (input ++ [line]) =
      if Text.trim line = "" then retained limit input
      else recordLine limit (retained limit input) (Text.trim line) := by
  rw [retained_eq, retained_eq, List.map_append, List.filter_append]
  generalize (input.map Text.trim).filter (· ≠ "") = lines
  have hrecord : ∀ history, recordLine limit history (Text.trim line) =
      (history.filter (· ≠ Text.trim line) ++ [Text.trim line]).rtake limit := fun _ => rfl
  by_cases hblank : Text.trim line = ""
  · simp [hblank]
  · have hkept : ([line].map Text.trim).filter (· ≠ "") = [Text.trim line] := by simp [hblank]
    rw [if_neg hblank, hkept, lastOccurrences_concat, hrecord]
    cases limit with
    | zero => rw [List.rtake_zero, List.rtake_zero]
    | succ limit =>
      rw [List.rtake_concat_succ, List.rtake_concat_succ,
        rtake_filter_rtake_succ (nodup_lastOccurrences lines)]

end Retained

namespace Session

theorem history_record (s : Session) (input : String) (limit : Nat) :
    (s.record input limit).history =
      if Text.trim input = "" then s.history
      else recordLine limit s.history (Text.trim input) := by
  unfold record
  dsimp only
  split <;> rfl

/-- A session that holds what is kept of some lines holds what is kept of more lines after these were
recorded too. -/
theorem history_record_of_retained {s : Session} {lines : List String}
    (h : s.history = retained limit lines) (input : String) :
    (s.record input limit).history = retained limit (lines ++ [input]) := by
  rw [history_record, retained_concat, h]

theorem history_foldl_record {s : Session} {lines : List String}
    (h : s.history = retained limit lines) (input : List String) :
    (input.foldl (fun (s : Session) line => s.record line limit) s).history =
      retained limit (lines ++ input) := by
  induction input generalizing s lines with
  | nil => rw [List.foldl_nil, List.append_nil, h]
  | cons line input ih =>
    rw [List.foldl_cons, ih (history_record_of_retained h line), List.append_assoc,
      List.singleton_append]

theorem history_up (s : Session) : s.up.2.history = s.history := by
  unfold up
  split <;> rfl

theorem history_down (s : Session) : s.down.2.history = s.history := by
  unfold down
  split
  · rfl
  · split
    · rfl
    · split <;> rfl

theorem aliases_record (s : Session) (input : String) (limit : Nat) :
    (s.record input limit).aliases = s.aliases := by
  unfold record
  dsimp only
  split <;> rfl

theorem settled_record {s : Session} (h : Settled limit s.history) (input : String) :
    Settled limit (s.record input limit).history := by
  unfold record
  dsimp only
  split
  · exact h
  · next hne => exact settled_recordLine h (Text.trim_trim input) hne

theorem settled_foldl_record {s : Session} (h : Settled limit s.history) (lines : List String) :
    Settled limit (lines.foldl (fun (s : Session) line => s.record line limit) s).history := by
  induction lines generalizing s with
  | nil => exact h
  | cons line lines ih => exact ih (settled_record h line)

/-- A new line is put behind the others when there is room for it. -/
theorem record_of_not_mem {s : Session} {line : String} (htrim : Text.trim line = line)
    (hne : line ≠ "") (hnew : line ∉ s.history) (hroom : s.history.length < limit) :
    s.record line limit = { s with history := s.history ++ [line] } := by
  have hfilter : s.history.filter (· ≠ line) = s.history := filter_ne_of_not_mem hnew
  have hdrop : (s.history ++ [line]).length - limit = 0 := by
    rw [List.length_append, List.length_singleton]
    omega
  simp only [record, htrim, hne, if_false, VirtualShell.recordLine, hfilter, hdrop, List.drop_zero]

/-- Recording the lines of a history again, one after another, gives that history. -/
theorem foldl_record_of_settled {s : Session} (h : Settled limit (s.history ++ history)) :
    history.foldl (fun (s : Session) line => s.record line limit) s =
      { s with history := s.history ++ history } := by
  induction history generalizing s with
  | nil => simp
  | cons line rest ih =>
    have hmem : line ∈ s.history ++ line :: rest := by simp
    have hnew : line ∉ s.history := by
      intro hl
      exact (List.nodup_append.1 h.nodup).2.2 line hl line List.mem_cons_self rfl
    have hroom : s.history.length < limit := by
      have hlen := h.length_le
      rw [List.length_append, List.length_cons] at hlen
      omega
    rw [List.foldl_cons, record_of_not_mem (h.trimmed line hmem) (h.nonblank line hmem) hnew hroom,
      ih (by simpa using h)]
    simp

end Session

end VirtualShell
