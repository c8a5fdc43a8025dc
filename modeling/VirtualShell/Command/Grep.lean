import VirtualShell.Command.Basic
import VirtualShell.Pattern.Match
import VirtualShell.Pattern.Reader
import VirtualShell.Text.Lines
import VirtualShell.Text.Numeral

/-!
# Searching

`grep` shows the lines of files that match a pattern, always without regard to the case of ASCII
letters.
-/

namespace VirtualShell.Command

open Pattern

/-- What `grep` was asked for. -/
structure Search where
  pattern : Option String
  invert : Bool
  countOnly : Bool
  numbers : Bool
  /-- The pattern is a plain text. -/
  plain : Bool
  operands : List String
  deriving DecidableEq, Repr

namespace Search

/-- Before the first argument. -/
def start : Search := ⟨none, false, false, false, false, []⟩

/-- Takes one option letter. -/
def letter (s : Search) (c : Char) : Except ShellError Search :=
  match c with
  | 'i' => .ok s
  | 'E' => .ok s
  | 'v' => .ok { s with invert := true }
  | 'c' => .ok { s with countOnly := true }
  | 'n' => .ok { s with numbers := true }
  | 'F' => .ok { s with plain := true }
  | c => .error (.badOption c.toString)

/-- Takes one argument that stands for itself. -/
def argument (s : Search) (arg : String) : Except ShellError Search :=
  match arg with
  | "--invert-match" => .ok { s with invert := true }
  | "--count" => .ok { s with countOnly := true }
  | "--line-number" => .ok { s with numbers := true }
  | "--fixed-strings" => .ok { s with plain := true }
  | "--ignore-case" => .ok s
  | arg =>
    match optionLetters? arg with
    | some cs => cs.foldlM letter s
    | none => .ok { s with operands := s.operands ++ [arg] }

/-- Reads the arguments one by one. -/
def readArgs (s : Search) : List String → Except ShellError Search
  | [] => .ok s
  | arg :: rest =>
    if arg = "-e" then
      match rest with
      | [] => .error (.invalidArgument "option requires an argument -- 'e'")
      | pattern :: rest => readArgs { s with pattern := some pattern } rest
    else match s.argument arg with
      | .ok s => readArgs s rest
      | .error e => .error e

/-- Reads the arguments: the pattern, which is the first operand if no option gave it, and the
search with the files as its operands. -/
def ofArgs (args : List String) : Except ShellError (String × Search) := do
  let s ← readArgs start args
  let (pattern, s) ← (match s.pattern, s.operands with
    | some pattern, _ => .ok (pattern, s)
    | none, pattern :: files => .ok (pattern, { s with operands := files })
    | none, [] => .error (.invalidArgument "usage: grep [-n] [-v] [-c] PATTERN FILE...")
    : Except ShellError (String × Search))
  if s.operands.isEmpty then .error (.invalidArgument "missing file operand")
  else return (pattern, s)

/-- The machine for the pattern. -/
def compile (s : Search) (pattern : String) : Except ShellError Regex :=
  let source := if s.plain then Pattern.quote pattern.toList else pattern.toList
  match Pattern.read { ignoreCase := true } source with
  | .ok p => .ok p
  | .error e => .error (.malformedPattern pattern e.message)

/-- The selected lines of a text with their numbers, from one. -/
def select (s : Search) (p : Regex) (text : List Char) : List (Nat × List Char) :=
  ((Text.lines text).zipIdx.map fun item => (item.2 + 1, item.1)).filter fun item =>
    p.matchesLine item.2 != s.invert

/-- What is shown of the selected lines of a file. -/
def shown (s : Search) (file : String) (selected : List (Nat × List Char)) : String :=
  let name := if s.operands.length > 1 then file ++ ":" else ""
  if s.countOnly then name ++ Text.decimal selected.length ++ "\n"
  else String.join (selected.map fun item =>
    name ++ (if s.numbers then Text.decimal item.1 ++ ":" else "") ++
      String.ofList item.2 ++ "\n")

/-- Searches one file. The flag says whether some line was selected so far. -/
def searchFile (s : Search) (p : Regex) (state : Progress × Bool) (file : String) :
    Progress × Bool :=
  let (progress, found) := state
  match progress.tree.read file with
  | .error e => (progress.complain (complaint "grep" file e), found)
  | .ok text =>
    let selected := s.select p text.toList
    (progress.say (s.shown file selected), found || !selected.isEmpty)

end Search

/-- Searches all files. The exit code is zero if some line was selected and all files could be
read. -/
def runGrep (args : List String) (w : World) : Reply :=
  match Search.ofArgs args with
  | .error e => .failure "grep" e
  | .ok (pattern, s) =>
    match s.compile pattern with
    | .error e => .failure "grep" e
    | .ok p =>
      let (progress, found) := s.operands.foldl (s.searchFile p) (.start w.tree, false)
      .withCode progress.text (if found && !progress.failed then 0 else 1)

end VirtualShell.Command
