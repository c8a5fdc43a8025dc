import VirtualShell.Text.Blank

/-!
# The tokens of a line

A line is cut at its blanks. Between two quotation marks blanks do not cut, and the marks
themselves are dropped; a quoted run makes a token even when it is empty. There are no escapes,
and a quotation that is not closed reaches to the end of the line.
-/

namespace VirtualShell.Line

open Text

/-- What is known in the middle of a line: whether a quotation is open, and the token begun, if
there is one. -/
structure Scan where
  quoted : Bool
  token : Option (List Char)
  deriving DecidableEq, Repr

/-- Before the first character of a line. -/
def Scan.start : Scan := ⟨false, none⟩

/-- The tokens of the rest of a line. -/
def tokensFrom : Scan → List Char → List (List Char)
  | s, [] => s.token.toList
  | s, c :: r =>
    if c = '"' then tokensFrom ⟨!s.quoted, some (s.token.getD [])⟩ r
    else if isBlank c && !s.quoted then s.token.toList ++ tokensFrom ⟨false, none⟩ r
    else tokensFrom ⟨s.quoted, some (s.token.getD [] ++ [c])⟩ r

/-- The tokens of a line. -/
def tokens (line : List Char) : List (List Char) := tokensFrom .start line

/-- The tokens of a line, as strings. -/
def tokenize (line : String) : List String := (tokens line.toList).map String.ofList

end VirtualShell.Line
