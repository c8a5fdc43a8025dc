import VirtualShell.Session.Basic
import VirtualShell.Text.Blank

/-!
# The history of a session

Recording lines and walking over them. A line that is given again moves to the end; the oldest
lines fall out when there are too many. `retained` says for a whole list of lines at once what
remains of it.
-/

namespace VirtualShell

/-- A list with one line more: the line goes to the end, also if it was there before, and only
the last `limit` lines stay. -/
def recordLine (limit : Nat) (history : List String) (line : String) : List String :=
  let all := history.filter (· ≠ line) ++ [line]
  all.drop (all.length - limit)

/-- The last occurrence of every line of a list, in order. -/
def lastOccurrences : List String → List String
  | [] => []
  | line :: rest => if line ∈ rest then lastOccurrences rest else line :: lastOccurrences rest

/-- What a history of at most `limit` lines keeps of some lines of input. -/
def retained (limit : Nat) (input : List String) : List String :=
  let kept := lastOccurrences ((input.map Text.trim).filter (· ≠ ""))
  kept.drop (kept.length - limit)

/-- What is shown when an earlier line is selected. -/
inductive Shown where
  | line (text : String)
  /-- There is no such line, and the program is aborted. -/
  | aborted
  deriving DecidableEq, Repr

/-- The text that is shown, which is empty when the program is aborted. -/
def Shown.text : Shown → String
  | line text => text
  | aborted => ""

instance : Coe Shown String := ⟨Shown.text⟩

namespace Session

/-- Records a line of input without the blanks around it; a blank line is not recorded. -/
def record (s : Session) (input : String) (limit : Nat) : Session :=
  let line := Text.trim input
  if line = "" then s else { s with history := recordLine limit s.history line }

def clearHistory (s : Session) : Session := { s with history := [], cursor := none }

def setDraft (s : Session) (draft : String) : Session := { s with draft }

/-- Selects the line before the selected one, or the last if none is. The first line stays selected.
The place may be one that the history does not have, to which only recording with a smaller limit
leads: then the program is aborted when it reads the line, with the place selected. -/
def up (s : Session) : Shown × Session :=
  if s.history.isEmpty then (.line s.draft, s)
  else
    let i := match s.cursor with
      | none => s.history.length - 1
      | some i => i - 1
    (s.history[i]?.elim .aborted .line, { s with cursor := some i })

/-- Selects the line after the selected one. After the last line nothing is selected and the
draft is cleared. -/
def down (s : Session) : String × Session :=
  match s.cursor with
  | none => (s.draft, s)
  | some i =>
    if s.history.isEmpty then (s.draft, s)
    else if i + 1 ≥ s.history.length then ("", { s with cursor := none, draft := "" })
    else (s.history.getD (i + 1) "", { s with cursor := some (i + 1) })

end Session

end VirtualShell
