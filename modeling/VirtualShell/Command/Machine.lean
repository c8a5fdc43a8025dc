import VirtualShell.Calendar.Format
import VirtualShell.Command.Basic

/-!
# Commands on the machine

`whoami`, `hostname`, `uname`, `date` and `uptime`.
-/

namespace VirtualShell.Command

open Calendar

def runWhoami (o : Options) : Reply := .success (o.user ++ "\n")

def runHostname (o : Options) : Reply := .success (o.hostname ++ "\n")

/-! ## The system's name -/

/-- What `uname` was asked for. -/
structure SystemInfo where
  kernel : Bool
  node : Bool
  release : Bool
  version : Bool
  machine : Bool
  deriving DecidableEq, Repr

namespace SystemInfo

/-- Takes one option letter. -/
def letter (i : SystemInfo) (c : Char) : Except ShellError SystemInfo :=
  match c with
  | 'a' => .ok ⟨true, true, true, true, true⟩
  | 's' => .ok { i with kernel := true }
  | 'n' => .ok { i with node := true }
  | 'r' => .ok { i with release := true }
  | 'v' => .ok { i with version := true }
  | 'm' => .ok { i with machine := true }
  | c => .error (.badOption c.toString)

/-- Takes one argument. -/
def argument (i : SystemInfo) (arg : String) : Except ShellError SystemInfo :=
  match arg.toList with
  | '-' :: cs => cs.foldlM letter i
  | _ => .error (.invalidArgument ("extra operand '" ++ arg ++ "'"))

/-- The parts that are shown; the kernel's name if nothing else is. -/
def parts (i : SystemInfo) (o : Options) : List String :=
  (if i.kernel || !(i.node || i.release || i.version || i.machine) then ["SimOS"] else []) ++
    (if i.node then [o.hostname] else []) ++
    (if i.release then ["2.4.0-sim"] else []) ++
    (if i.version then ["#1 SMP PREEMPT"] else []) ++
    if i.machine then ["x86_64"] else []

end SystemInfo

def runUname (o : Options) (args : List String) : Reply :=
  match args.foldlM SystemInfo.argument ⟨false, false, false, false, false⟩ with
  | .error e => .failure "uname" e
  | .ok i => .success (String.intercalate " " (i.parts o) ++ "\n")

/-! ## The time -/

/-- Takes one argument of `date`: the last format counts. -/
def dateArgument (format arg : String) : Except ShellError String :=
  if arg = "-u" ∨ arg = "--utc" then .ok format
  else if arg = "-I" ∨ arg = "--iso-8601" then .ok "%Y-%m-%d"
  else if arg = "-R" ∨ arg = "--rfc-email" then .ok "%a, %d %b %Y %H:%M:%S +0000"
  else match arg.toList with
    | '+' :: format => .ok (String.ofList format)
    | _ => .error (.invalidArgument ("invalid option '" ++ arg ++ "'"))

/-- Shows the time in a format. A format that is read but cannot be written takes the session
down. -/
def runDate (now : Instant) (args : List String) : Reply :=
  match args.foldlM dateArgument "%a %b %e %H:%M:%S UTC %Y" with
  | .error e => .failure "date" e
  | .ok format =>
    match Format.ofText? format with
    | none => .failure "date" (.invalidArgument ("invalid format '" ++ format ++ "'"))
    | some pieces =>
      match Format.render? now pieces with
      | some text => .success (text ++ "\n")
      | none => ⟨.aborted, 101, []⟩

/-- A length of time in minutes, hours and days. -/
def uptimeText (totalMinutes : Nat) : String :=
  let days := totalMinutes / 1440
  let hours := totalMinutes / 60 % 24
  let minutes := totalMinutes % 60
  let clock :=
    if hours = 0 then Text.decimal minutes ++ " min"
    else Text.decimal hours ++ ":" ++ twoDigits minutes
  match days with
  | 0 => clock
  | 1 => "1 day, " ++ clock
  | n => Text.decimal n ++ " days, " ++ clock

def runUptime (now : Instant) (w : World) : Reply :=
  let minutes := (now.since w.session.startedAt / (60 * nanosPerSecond : Nat)).toNat
  .success (" " ++ Format.write "%H:%M:%S" now ++ " up " ++ uptimeText minutes ++
    ",  1 user,  load average: 0.00, 0.01, 0.05\n")

end VirtualShell.Command
