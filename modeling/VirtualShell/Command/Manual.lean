import VirtualShell.Command.Basic
import VirtualShell.Command.Table
import VirtualShell.Text.Lines
import VirtualShell.Text.Numeral

/-!
# The manual

`help` lists the commands by category or tells of one; `man` shows a manual page.
-/

namespace VirtualShell.Command

/-- The list of all commands. -/
def overview : String :=
  let line (c : Command) := "    " ++ Text.padRight 10 c.name ++ " " ++ c.summary ++ "\n"
  let group (g : String × List Command) :=
    "  " ++ g.1 ++ ":\n" ++ String.join (g.2.map line) ++ "\n"
  "Available commands:\n\n" ++ String.join (categories.map group) ++
    "Use 'man <command>' for details on a specific command.\n"

def runHelp (args : List String) : Reply :=
  match args with
  | [] => .success overview
  | topic :: _ =>
    match ofName? topic with
    | some c => .success (c.name ++ " - " ++ c.summary ++ "\n\nUsage: " ++ c.usage ++ "\n")
    | none => .withCode ("help: no help topics match '" ++ topic ++ "'\n") 1

/-- The manual page of a command. -/
def page (c : Command) : String :=
  let lines := (Text.lines c.usage.toList).map fun l => "    " ++ String.ofList l ++ "\n"
  "NAME\n    " ++ c.name ++ " - " ++ c.summary ++ "\n\nSYNOPSIS\n" ++ String.join lines

def runMan (args : List String) : Reply :=
  match args with
  | [] => .withCode "What manual page do you want?\n" 1
  | topic :: _ =>
    match ofName? topic with
    | some c => .success c.page
    | none => .withCode ("No manual entry for " ++ topic ++ "\n") 1

end VirtualShell.Command
