import VirtualShell.Command.Grep
import VirtualShell.Proofs.Pattern.Literals
import VirtualShell.Proofs.Shell.Searches

/-!
# Searches for plain texts

With `-F` no sign of a pattern means anything: the pattern can always be read, unless it is too large, as
the sequence of its own characters (`compile_plain`), and the lines that are selected are those that hold
the text (`select_literal`), or with `-v` the others. So for every text `grep -F` is a search for a
substring (`holding_of_runGrep`).
-/

namespace VirtualShell

namespace Command

namespace Search

open Text Pattern

variable {s : Search} {w : World} {pattern : String} {args : List String}

/-- A plain text is a pattern, whatever signs it has, and it can only be too large. -/
theorem compile_plain (hplain : s.plain = true) : s.compile pattern =
    if (literal pattern.toList).size + 3 * Regex.stateSize ≤ Regex.sizeLimit
      then .ok (literal pattern.toList)
      else .error (.malformedPattern pattern PatternError.tooLarge.message) := by
  have hread := read_quote pattern.toList
  rw [anyCase] at hread
  rw [compile, hplain, if_pos rfl, hread]
  by_cases hfits : (literal pattern.toList).size + 3 * Regex.stateSize ≤ Regex.sizeLimit
  · rw [if_pos hfits, if_pos hfits]
  · rw [if_neg hfits, if_neg hfits]

/-- The lines of a text that hold another text, or those that do not, with their numbers. -/
def holding (s : Search) (pattern text : String) : List (Nat × List Char) :=
  ((lines text.toList).zipIdx.map fun item => (item.2 + 1, item.1)).filter fun item =>
    decide (Holds pattern.toList item.2) != s.invert

theorem select_literal (pattern text : String) :
    s.select (literal pattern.toList) text.toList = s.holding pattern text := by
  refine List.filter_congr fun item _ => ?_
  rw [Bool.eq_iff_iff.2 (matchesLine_literal.trans decide_eq_true_iff.symm)]

/-- A search for a plain text whose machine is not too large: the pattern can be read, with the flag for
letters in both cases as well as with the directive for it in front, and of each file that can be read
just the lines are shown that hold the text, in their order. -/
theorem holding_of_runGrep (hargs : ofArgs args = .ok (pattern, s)) (hplain : s.plain = true)
    (hfits : (literal pattern.toList).size + 3 * Regex.stateSize ≤ Regex.sizeLimit) :
    s.compile pattern = .ok (literal pattern.toList) ∧
    Pattern.read {} ("(?i)".toList ++ quote pattern.toList) = .ok (literal pattern.toList) ∧
    (∀ line, (literal pattern.toList).matchesLine line = true ↔ Holds pattern.toList line) ∧
    ∃ code, runGrep args w = .withCode (String.join (s.operands.map fun file =>
        match w.tree.read file with
        | .error e => complaint "grep" file e
        | .ok text => s.shown file (s.holding pattern text))) code ∧
      (code = 0 ↔ (∀ file ∈ s.operands, ∃ text, w.tree.read file = .ok text) ∧
        ∃ file ∈ s.operands, ∃ text, w.tree.read file = .ok text ∧ s.holding pattern text ≠ []) := by
  have hcompile : s.compile pattern = .ok (literal pattern.toList) := by
    rw [compile_plain hplain, if_pos hfits]
  have hread : Pattern.read {} ("(?i)".toList ++ quote pattern.toList) =
      .ok (literal pattern.toList) := by
    rw [read_directive_quote, read_quote, if_pos hfits]
  refine ⟨hcompile, hread, fun line => matchesLine_literal, ?_⟩
  simp only [← select_literal]
  exact runGrep_of_ofArgs hargs hcompile

/-- A text of signs that are not taken for operators, in an accented word that has no other case. -/
theorem holding_of_runGrep_of_signs :
    let w : World := ⟨oneFile "1 É.B|$&#\n2 aé.b|$&#\né.b|$\n3 É.b|$&#é.B|$&#", default⟩
    let s : Search := { start with plain := true, numbers := true, operands := ["/x"] }
    ofArgs ["-nF", "é.B|$&#", "/x"] = .ok ("é.B|$&#", s) ∧
      (literal "é.B|$&#".toList).size + 3 * Regex.stateSize ≤ Regex.sizeLimit ∧
      runGrep ["-nF", "é.B|$&#", "/x"] w = .withCode "2:2 aé.b|$&#\n4:3 É.b|$&#é.B|$&#\n" 0 := by
  intro w s
  have hargs : ofArgs ["-nF", "é.B|$&#", "/x"] = .ok ("é.B|$&#", s) := by decide
  have hfits : (literal "é.B|$&#".toList).size + 3 * Regex.stateSize ≤ Regex.sizeLimit :=
    Nat.le_trans (Nat.add_le_add_right (size_literal_le _) _) (by decide)
  obtain ⟨-, -, -, code, hrun, hcode⟩ := holding_of_runGrep (w := w) hargs rfl hfits
  have hread : ∀ file ∈ s.operands, ∃ text, w.tree.read file = .ok text ∧
      s.holding "é.B|$&#" text ≠ [] := by
    have hx : w.tree.read "/x" = .ok "1 É.B|$&#\n2 aé.b|$&#\né.b|$\n3 É.b|$&#é.B|$&#" := by decide
    rintro file hfile
    obtain rfl := List.mem_singleton.1 hfile
    exact ⟨_, hx, by decide⟩
  have hzero : code = 0 := hcode.2 ⟨fun file hfile => (hread file hfile).imp fun _ => And.left,
    "/x", by simp [s], hread "/x" (by simp [s])⟩
  refine ⟨hargs, hfits, ?_⟩
  rw [hrun, hzero]
  exact congrArg (Reply.withCode · 0) (by decide)

end Search

end Command

end VirtualShell
