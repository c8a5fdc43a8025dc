/-!
# Arguments

What the program is called with. An option that takes a value finds it in the same argument or in
the next one; no option may come twice, and nothing but options is accepted.
-/

namespace VirtualShell.CommandLine

/-- The arguments that a run is started with. -/
structure Arguments where
  /-- The lines to execute in place of those that are typed in. -/
  script : Option String := none
  /-- The file with the options. -/
  config : Option String := none
  /-- The file that keeps the state. -/
  state : Option String := none
  /-- Print an object for each line in place of its output. -/
  json : Bool := false
  deriving DecidableEq, Repr

/-- What is asked of the program. -/
inductive Request where
  | run (a : Arguments)
  | help
  | version
  deriving DecidableEq, Repr

/-- An argument that has a value. -/
inductive Setting where
  | script
  | config
  | state
  deriving DecidableEq, Repr

/-- The value of a setting. -/
def Arguments.get (a : Arguments) : Setting → Option String
  | .script => a.script
  | .config => a.config
  | .state => a.state

/-- Gives a setting its value, unless it has one. -/
def Arguments.set? (a : Arguments) (s : Setting) (value : String) : Option Arguments :=
  if (a.get s).isSome then none
  else some (match s with
    | .script => { a with script := some value }
    | .config => { a with config := some value }
    | .state => { a with state := some value })

/-- What one argument says. -/
inductive Word where
  | setting (s : Setting) (value : Option String)
  | json
  | help
  | version
  /-- Two dashes: no option comes after them. -/
  | stop
  | unknown
  deriving DecidableEq, Repr

/-- The word of an option with a long name, which follows two dashes. An equals sign divides the
name from a value. -/
def Word.ofLong (s : List Char) : Word :=
  let name := String.ofList (s.takeWhile (· ≠ '='))
  let value := match s.dropWhile (· ≠ '=') with
    | [] => none
    | _ :: v => some (String.ofList v)
  match name, value with
  | "config", v => .setting .config v
  | "state", v => .setting .state v
  | "json", none => .json
  | "help", none => .help
  | "version", none => .version
  | _, _ => .unknown

/-- The word of an option with a short name, which follows one dash. A value follows the name, with
or without an equals sign. -/
def Word.ofShort : List Char → Word
  | 'h' :: _ => .help
  | 'V' :: _ => .version
  | ['c'] => .setting .script none
  | 'c' :: '=' :: v => .setting .script (some (String.ofList v))
  | 'c' :: v => .setting .script (some (String.ofList v))
  | _ => .unknown

/-- What an argument says. -/
def Word.ofArgument (arg : String) : Word :=
  match arg.toList with
  | ['-', '-'] => .stop
  | '-' :: '-' :: s => .ofLong s
  | '-' :: s => .ofShort s
  | _ => .unknown

/-- An argument that can be the value of the option before it. -/
def isValue (arg : String) : Bool := arg == "-" || arg.toList.head? != some '-'

/-- Reads the arguments from left to right. `awaited` is the setting whose value comes next. -/
def readFrom (a : Arguments) (awaited : Option Setting) : List String → Option Request
  | [] => if awaited.isSome then none else some (.run a)
  | arg :: args =>
    match awaited with
    | some s =>
      if isValue arg then (a.set? s arg).bind fun a => readFrom a none args else none
    | none =>
      match Word.ofArgument arg with
      | .setting s (some v) => (a.set? s v).bind fun a => readFrom a none args
      | .setting s none => readFrom a (some s) args
      | .json => if a.json then none else readFrom { a with json := true } none args
      | .help => some .help
      | .version => some .version
      | .stop => if args.isEmpty then some (.run a) else none
      | .unknown => none

/-- Reads the arguments; `none` if they cannot be understood. -/
def Request.ofArguments? (args : List String) : Option Request := readFrom {} none args

/-- The name of the program. -/
def programName : String := "sim-terminal"

/-- The answer to the request for the version. -/
def versionText : String := programName ++ " 0.1.0\n"

/-- The answer to the request for help. -/
def helpText : String :=
  "A simulated terminal over an in-memory file system\n\n" ++
  "Usage: " ++ programName ++ " [OPTIONS]\n\n" ++
  "Options:\n" ++
  "  -c <COMMAND>           Run these lines instead of starting the interactive prompt\n" ++
  "      --config <CONFIG>  TOML file with terminal options\n" ++
  "      --state <STATE>    JSON file holding the file system and session between runs\n" ++
  "      --json             Output one JSON object per command (output, exitCode, cwd)\n" ++
  "  -h, --help             Print help\n" ++
  "  -V, --version          Print version\n"

end VirtualShell.CommandLine
