import VirtualShell.Text.Numeral
import VirtualShell.Tree.Edit

/-!
# Fresh ids

An id source that counts: it reads every id in use as a decimal number, whatever its characters
are, and takes the number after the largest. Main statement: the id is not in use.
-/

namespace VirtualShell

namespace NodeId

/-- The id that shows a number. -/
def ofNumber (n : Nat) : NodeId := ⟨Text.decimal n⟩

/-- The number that an id shows; for an id with other characters than digits, some number. -/
def number (id : NodeId) : Nat := Text.digitsValue id.text.toList

theorem number_ofNumber (n : Nat) : (ofNumber n).number = n := by
  simp [ofNumber, number, Text.decimal, Text.digitsValue, Nat.ofDigitChars_ten_toDigits]

/-- The largest number among some ids. -/
def maxNumber (ids : List NodeId) : Nat := ids.foldr (fun id m => max id.number m) 0

theorem number_le_maxNumber {id : NodeId} {ids : List NodeId} (h : id ∈ ids) :
    id.number ≤ maxNumber ids := by
  induction ids with
  | nil => simp at h
  | cons a ids ih =>
    simp only [maxNumber, List.foldr_cons]
    rcases List.mem_cons.1 h with rfl | h
    · exact Nat.le_max_left _ _
    · exact Nat.le_trans (ih h) (Nat.le_max_right _ _)

end NodeId

namespace IdSource

/-- Gives the number after the largest in use. -/
def counting : IdSource where
  pick used := .ofNumber (NodeId.maxNumber used + 1)
  pick_fresh used h := by
    have := NodeId.number_le_maxNumber h
    rw [NodeId.number_ofNumber] at this
    omega

/-- Gives what another source gives when some further ids are taken too. -/
def avoiding (taken : List NodeId) (source : IdSource) : IdSource where
  pick used := source.pick (taken ++ used)
  pick_fresh used h := source.pick_fresh (taken ++ used) (List.mem_append_right _ h)

end IdSource

end VirtualShell
