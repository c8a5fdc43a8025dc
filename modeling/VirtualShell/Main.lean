import Std.Time.DateTime.Timestamp
import VirtualShell.CommandLine.Run
import VirtualShell.Tree.Fresh

/-!
# The program

A run on the real clock and the real files. Lines are read and executed one by one, so that each
output appears before the next line is read; what is done with a line, with the arguments and with
the saved state is decided by the pure part.
-/

namespace VirtualShell.CommandLine

/-- A supply for the present moment, at which its clock stands still. -/
def presentSupply : IO Supply := do
  let t ← Std.Time.Timestamp.now
  return ⟨.still ⟨t.toSecondsSinceUnixEpoch.val, t.val.nano.val.toNat⟩, .counting⟩

/-- Prints a text at once. -/
def printNow (text : String) : IO Unit := do
  let out ← IO.getStdout
  out.putStr text
  out.flush

/-- What a session leaves: the exit code, and the terminal unless the session broke off. -/
abbrev Left := Nat × Option Terminal

/-- Executes a line and prints what it gives, and goes on if the session does. -/
def runLine (json : Bool) (t : Terminal) (line : String) (goOn : Terminal → Nat → IO Left) :
    IO Left := do
  let e := execute json (← presentSupply) t line
  printNow e.text
  match e.next with
  | .nextLine => goOn e.terminal e.code
  | .finish => return (e.code, some e.terminal)
  | .breakOff => return (e.code, none)

/-- Executes the lines of a script. -/
def runScript (json : Bool) (t : Terminal) (last : Nat) : List String → IO Left
  | [] => return (last, some t)
  | line :: lines => runLine json t line fun t code => runScript json t code lines

/-- Executes the lines that are typed in. -/
partial def runInput (json : Bool) (t : Terminal) (last : Nat) : IO Left := do
  printNow (promptText json t)
  match ← (← IO.getStdin).getLine.toBaseIO with
  | .error e =>
    IO.eprintln ("Error: cannot read input: " ++ toString e)
    return (1, some t)
  | .ok input =>
    match Text.takeLine? input.toList with
    | none => return (last, some t)
    | some (line, _) => runLine json t (String.ofList line) (runInput json)

/-- Reads a file; `none` if that fails. -/
def readText? (path : String) : IO (Option String) := do
  match ← (IO.FS.readFile path).toBaseIO with
  | .ok text => return some text
  | .error _ => return none

/-- Reads the options to start with; `none` if their file cannot be read or understood. -/
def readOptions? : Option String → IO (Option Options)
  | none => return some {}
  | some path => return (← readText? path).bind Options.ofConfig?

/-- Takes one step on the real files. -/
def performStep : HostStep → IO Unit
  | .ensureDirectory path => IO.FS.createDirAll path.toText
  | .write path text => IO.FS.writeFile path.toText text
  | .renameFile source target => IO.FS.rename source.toText target.toText

/-- Saves the state in its file. A failure is only mentioned. -/
def saveState (f : StateFile) (t : Terminal) : IO Unit := do
  match ← ((f.saveSteps t.exportState).forM performStep).toBaseIO with
  | .ok _ => return ()
  | .error e => IO.eprintln ("Error: cannot save state: " ++ toString e)

/-- A run that begins. -/
def runSession (a : Arguments) (o : Options) : IO Nat := do
  let s ← presentSupply
  let fresh := Terminal.start o s
  let saved ← match a.state with
    | none => pure none
    | some path => readText? path
  let t := (saved.map (restore s.now fresh)).getD fresh
  let (code, left) ← match a.script with
    | some script => runScript a.json t 0 ((Text.lines script.toList).map String.ofList)
    | none => runInput a.json t 0
  match a.stateFile?, left with
  | some f, some t => saveState f t
  | _, _ => pure ()
  return code

end VirtualShell.CommandLine

open VirtualShell CommandLine in
/-- The program. Its exit code is that of the last line. -/
def main (args : List String) : IO UInt32 := do
  match Request.ofArguments? args with
  | none =>
    IO.eprintln ("error: invalid arguments; try '" ++ programName ++ " --help'")
    return usageCode.toUInt32
  | some .help => printNow helpText; return 0
  | some .version => printNow versionText; return 0
  | some (.run a) =>
    match ← readOptions? a.config with
    | none =>
      IO.eprintln "Error: invalid config"
      return usageCode.toUInt32
    | some o => return (← runSession a o).toUInt32
