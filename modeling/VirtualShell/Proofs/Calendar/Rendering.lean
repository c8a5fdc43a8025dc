import VirtualShell.Calendar.Format

/-!
# Formats that cannot be written

Almost every format that can be read can also be written for every instant. The only exception is a
format with an offset that may lack its minutes (`Format.render?_eq_none_iff`).
-/

namespace VirtualShell.Calendar.Format

theorem pieceText?_eq_none_iff {t : Instant} {piece : Piece} :
    pieceText? t piece = none ↔ .looseOffset = piece := by
  cases piece <;> simp [pieceText?]

/-- The pieces that cannot be written are the offsets that may lack their minutes. -/
theorem render?_eq_none_iff {t : Instant} {pieces : List Piece} :
    render? t pieces = none ↔ .looseOffset ∈ pieces := by
  rw [render?, Option.map_eq_none_iff]
  induction pieces with
  | nil => simp
  | cons piece pieces ih =>
    rw [List.mapM_cons, List.mem_cons, ← pieceText?_eq_none_iff (t := t), ← ih]
    cases pieceText? t piece with
    | none => simp
    | some text => cases pieces.mapM (pieceText? t) <;> simp

end VirtualShell.Calendar.Format
