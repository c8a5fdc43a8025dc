import VirtualShell.Command.Basic
import VirtualShell.Text.Blank
import VirtualShell.Text.Lines
import VirtualShell.Text.Numeral

/-!
# Commands that cut and count texts

`head`, `tail` and `wc`.
-/

namespace VirtualShell.Command

/-! ## The beginnings and ends of files -/

/-- What `head` and `tail` were asked for. -/
structure Excerpt where
  lines : Nat
  operands : List String
  deriving DecidableEq, Repr

namespace Excerpt

/-- Reads a number of lines. -/
def count (value : String) : Except ShellError Nat :=
  match Text.readCount? value with
  | some n => .ok n
  | none => .error (.invalidArgument ("invalid number of lines: '" ++ value ++ "'"))

/-- The number of lines that is attached to an option. -/
def attached? (arg : String) : Option String :=
  match Path.stripFront? "--lines=" arg with
  | some value => some value
  | none =>
    match Path.stripFront? "-n" arg with
    | some value => some value
    | none =>
      match optionLetters? arg with
      | some cs => if cs.all Char.isDigit then some (String.ofList cs) else none
      | none => none

/-- Reads the arguments one by one. -/
def readArgs (e : Excerpt) : List String → Except ShellError Excerpt
  | [] => .ok e
  | arg :: rest =>
    if arg = "-n" ∨ arg = "--lines" then
      match rest with
      | [] => .error (.invalidArgument "option requires an argument -- 'n'")
      | value :: rest => do readArgs { e with lines := ← count value } rest
    else match attached? arg with
      | some value => do readArgs { e with lines := ← count value } rest
      | none =>
        match optionLetters? arg with
        | some cs => .error (.badOption (String.ofList cs))
        | none => readArgs { e with operands := e.operands ++ [arg] } rest

/-- Reads the arguments; ten lines are the default, and there must be a file. -/
def ofArgs (args : List String) : Except ShellError Excerpt := do
  let e ← readArgs ⟨10, []⟩ args
  if e.operands.isEmpty then .error (.invalidArgument "missing file operand") else return e

/-- Shows the excerpt of one file. Where there are several, each has a heading. The number is that
of the files shown so far. -/
def showOne (e : Excerpt) (command : String) (cut : Nat → List Char → List Char)
    (state : Progress × Nat) (file : String) : Progress × Nat :=
  let (p, shown) := state
  match p.tree.read file with
  | .error err => (p.complain (complaint command file err), shown)
  | .ok text =>
    let heading :=
      if e.operands.length > 1 then
        (if shown > 0 then "\n" else "") ++ "==> " ++ file ++ " <==\n"
      else ""
    (p.say (heading ++ String.ofList (cut e.lines text.toList)), shown + 1)

/-- Shows the excerpts of all files. -/
def run (command : String) (cut : Nat → List Char → List Char) (args : List String) (w : World) :
    Reply :=
  match ofArgs args with
  | .error err => .failure command err
  | .ok e => (e.operands.foldl (e.showOne command cut) (.start w.tree, 0)).1.reply

end Excerpt

def runHead (args : List String) (w : World) : Reply := Excerpt.run "head" Text.head args w

def runTail (args : List String) (w : World) : Reply := Excerpt.run "tail" Text.tail args w

/-! ## Counts -/

/-- The counts of a text. -/
structure Counts where
  lines : Nat
  words : Nat
  chars : Nat
  deriving DecidableEq, Repr

namespace Counts

/-- The lines, words and characters of a text. A last line without a line feed is a line. -/
def ofText (s : List Char) : Counts := ⟨(Text.lines s).length, (Text.words s).length, s.length⟩

def zero : Counts := ⟨0, 0, 0⟩

def add (a b : Counts) : Counts := ⟨a.lines + b.lines, a.words + b.words, a.chars + b.chars⟩

end Counts

/-- What `wc` was asked for. -/
structure Tally where
  lines : Bool
  words : Bool
  chars : Bool
  operands : List String

namespace Tally

/-- Takes one option letter. -/
def letter (t : Tally) (c : Char) : Except ShellError Tally :=
  match c with
  | 'l' => .ok { t with lines := true }
  | 'w' => .ok { t with words := true }
  | 'c' => .ok { t with chars := true }
  | 'm' => .ok { t with chars := true }
  | c => .error (.badOption c.toString)

/-- Takes one argument. -/
def argument (t : Tally) (arg : String) : Except ShellError Tally :=
  match optionLetters? arg with
  | some cs => cs.foldlM letter t
  | none => .ok { t with operands := t.operands ++ [arg] }

/-- All counts, if none was asked for. -/
def orAll (t : Tally) : Tally :=
  if t.lines || t.words || t.chars then t
  else { t with lines := true, words := true, chars := true }

/-- The columns that are shown of some counts. -/
def columns (t : Tally) (c : Counts) : List Nat :=
  (if t.lines then [c.lines] else []) ++ (if t.words then [c.words] else []) ++
    if t.chars then [c.chars] else []

/-- A row: the columns, right-aligned, and a name. -/
def row (t : Tally) (width : Nat) (c : Counts) (name : String) : String :=
  String.intercalate " " ((t.columns c).map fun n => Text.padLeft width ' ' (Text.decimal n)) ++
    " " ++ name ++ "\n"

/-- The common width of the columns: that of the largest total, and seven at least where there is
more than one file. -/
def width (several : Bool) (total : Counts) : Nat :=
  [total.lines, total.words, total.chars].foldl
    (fun w n => max w (Text.decimal n).length) (if several then 7 else 0)

/-- Reads one file and adds its counts to the list, or complains. -/
def measure (state : Progress × List (Counts × String)) (file : String) :
    Progress × List (Counts × String) :=
  let (p, rows) := state
  match p.tree.read file with
  | .ok text => (p, rows ++ [(.ofText text.toList, file)])
  | .error e => (p.complain (complaint "wc" file e), rows)

/-- The rows of the files, and that of the total if there is more than one. -/
def report (t : Tally) (rows : List (Counts × String)) : String :=
  let total := rows.foldl (fun sum r => sum.add r.1) .zero
  let several : Bool := rows.length > 1
  let width := width several total
  String.join (rows.map fun r => t.row width r.1 r.2) ++
    if several then t.row width total "total" else ""

end Tally

def runWc (args : List String) (w : World) : Reply :=
  match args.foldlM Tally.argument ⟨false, false, false, []⟩ with
  | .error e => .failure "wc" e
  | .ok t =>
    if t.operands.isEmpty then .failure "wc" (.invalidArgument "missing file operand")
    else
      let (p, rows) := t.operands.foldl Tally.measure (.start w.tree, [])
      (p.say (t.orAll.report rows)).reply

end VirtualShell.Command
