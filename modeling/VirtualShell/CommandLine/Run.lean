import VirtualShell.CommandLine.Arguments
import VirtualShell.Host.StateFile
import VirtualShell.Options.Config
import VirtualShell.Terminal
import VirtualShell.Text.Lines

/-!
# Runs

A run of the program from its start to its exit code: the options are read and the saved state is
restored, the lines of a script or of the input are executed, and the state is saved. The lines of
a script are all there at once; those of the input come one at a time, each after a prompt. What
the run takes from outside is a supply for the start and one for each line, by their number.
-/

namespace VirtualShell.CommandLine

/-! ## One line -/

/-- What clears the screen. -/
def clearScreen : String := "\x1B[2J\x1B[H"

/-- How it goes on after a line. -/
inductive Next where
  | nextLine
  /-- The session ends. -/
  | finish
  /-- The session breaks off, and nothing of it is kept. -/
  | breakOff
  deriving DecidableEq, Repr

/-- The exit code of a run that breaks off. -/
def breakOffCode : Nat := 101

/-- The object that is printed for a line. -/
def objectText (r : ExecResult) : String :=
  (Json.Value.record [("cwd", .text r.cwd), ("exitCode", .count r.code),
    ("output", .text r.output.text)]).toText ++ "\n"

/-- What is printed for a line. -/
def printed (json : Bool) (r : ExecResult) : String :=
  if json then objectText r
  else match r.output with
    | .display text => text
    | .clearScreen => clearScreen
    | .requestExit => ""
    | .aborted => ""

/-- A line that was executed. -/
structure Executed where
  text : String
  code : Nat
  next : Next
  terminal : Terminal

/-- Executes a line. -/
def execute (json : Bool) (s : Supply) (t : Terminal) (line : String) : Executed :=
  let (r, t) := t.exec s line
  match r.output with
  | .aborted => ⟨"", breakOffCode, .breakOff, t⟩
  | .requestExit => ⟨printed json r, r.code, .finish, t⟩
  | _ => ⟨printed json r, r.code, .nextLine, t⟩

/-- The prompt, which is left out when objects are printed. -/
def promptText (json : Bool) (t : Terminal) : String := if json then "" else t.prompt

/-! ## All lines -/

/-- How a session ended. -/
structure Ending where
  stdout : String
  code : Nat
  /-- The terminal, unless the session broke off. -/
  terminal : Option Terminal

/-- Prints a text before. -/
def Ending.after (text : String) (e : Ending) : Ending := { e with stdout := text ++ e.stdout }

/-- Ends the session after a line if it does not go on. -/
def Executed.andThen (e : Executed) (goOn : Ending) : Ending :=
  match e.next with
  | .nextLine => goOn.after e.text
  | .finish => ⟨e.text, e.code, some e.terminal⟩
  | .breakOff => ⟨e.text, e.code, none⟩

/-- Executes the lines of a script. `i` is the number of the next line and `last` the exit code of
the line before it. -/
def batch (json : Bool) (supply : Nat → Supply) (i : Nat) (t : Terminal) (last : Nat) :
    List String → Ending
  | [] => ⟨"", last, some t⟩
  | line :: lines =>
    let e := execute json (supply i) t line
    e.andThen (batch json supply (i + 1) e.terminal e.code lines)

/-- Executes the lines that come in, with a prompt before each of them and before the end of the
input. -/
def interactive (json : Bool) (supply : Nat → Supply) (i : Nat) (t : Terminal) (last : Nat)
    (input : List Char) : Ending :=
  match _h : Text.takeLine? input with
  | none => ⟨promptText json t, last, some t⟩
  | some (line, rest) =>
    let e := execute json (supply i) t (String.ofList line)
    (e.andThen (interactive json supply (i + 1) e.terminal e.code rest)).after (promptText json t)
termination_by input.length
decreasing_by exact Text.length_lt_of_takeLine? _h

/-! ## The whole run -/

/-- The options to start with; `none` if their file cannot be read or understood. -/
def options? (h : Host) : Option String → Option Options
  | none => some {}
  | some path =>
    match h.read (.ofText path) with
    | .ok text => Options.ofConfig? text
    | .error _ => none

/-- Takes over the text of a saved state. A text that is no good is passed over. -/
def restore (now : Calendar.Instant) (t : Terminal) (text : String) : Terminal :=
  match t.importState now text with
  | .ok t => t
  | .error _ => t

/-- The file that the arguments name for the state. -/
def Arguments.stateFile? (a : Arguments) : Option StateFile :=
  a.state.map fun path => ⟨.ofText path⟩

/-- The terminal to start with. -/
def startTerminal (a : Arguments) (o : Options) (s : Supply) (h : Host) : Terminal :=
  let t := Terminal.start o s
  match a.stateFile? with
  | none => t
  | some f =>
    match f.load h with
    | .ok (some text) => restore s.now t text
    | _ => t

/-- The host after the state was saved. That saving fails has no effect on the run. -/
def saveTerminal (a : Arguments) (h : Host) (t : Option Terminal) : Host :=
  match a.stateFile?, t with
  | some f, some t => (f.save h t.exportState).1
  | _, _ => h

/-- What a run leaves behind. -/
structure Outcome where
  stdout : String
  code : Nat
  host : Host

/-- The exit code of a run that does not begin. -/
def usageCode : Nat := 2

/-- The session of a run. -/
def session (a : Arguments) (supply : Nat → Supply) (t : Terminal) (input : String) : Ending :=
  match a.script with
  | some script => batch a.json supply 1 t 0 ((Text.lines script.toList).map String.ofList)
  | none => interactive a.json supply 1 t 0 input.toList

/-- A run with given arguments and input. -/
def run (supply : Nat → Supply) (h : Host) (args : List String) (input : String) : Outcome :=
  match Request.ofArguments? args with
  | none => ⟨"", usageCode, h⟩
  | some .help => ⟨helpText, 0, h⟩
  | some .version => ⟨versionText, 0, h⟩
  | some (.run a) =>
    match options? h a.config with
    | none => ⟨"", usageCode, h⟩
    | some o =>
      let e := session a supply (startTerminal a o (supply 0) h) input
      ⟨e.stdout, e.code, saveTerminal a h e.terminal⟩

end VirtualShell.CommandLine
