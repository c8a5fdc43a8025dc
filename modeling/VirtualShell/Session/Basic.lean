import VirtualShell.Calendar.Instant
import VirtualShell.Options
import VirtualShell.Path

/-!
# Sessions

What the shell remembers between two lines, and the prompt that it shows.
-/

namespace VirtualShell

open Calendar

/-- The memory of a shell. -/
structure Session where
  /-- The path of the current directory, as the shell last saw it. -/
  cwd : String
  /-- The directory before the last change of directory. -/
  previousDir : Option String
  env : OrderedMap String String
  aliases : OrderedMap String String
  /-- The lines that were given, oldest first. -/
  history : List String
  /-- The position in the history that is selected. -/
  cursor : Option Nat
  /-- The line in the making, shown when no line of the history is selected. -/
  draft : String
  startedAt : Instant
  deriving DecidableEq, Inhabited

namespace Session

/-- A fresh session: the standard variables, then those of the options. -/
def start (o : Options) (cwd : String) (now : Instant) : Session where
  cwd := cwd
  previousDir := none
  env := o.env.entries.foldl (fun m e => m.insert e.1 e.2)
    (.ofList [("HOME", Path.home), ("USER", o.user), ("HOSTNAME", o.hostname), ("PWD", cwd)])
  aliases := o.aliases
  history := []
  cursor := none
  draft := ""
  startedAt := now

/-- Takes note of the current directory. If it is another one, the old one is kept, also in the
environment. -/
def setCwd (s : Session) (cwd : String) : Session :=
  if s.cwd = cwd then s
  else { s with
    cwd
    env := (s.env.insert "OLDPWD" s.cwd).insert "PWD" cwd
    previousDir := some s.cwd }

end Session

/-- The prompt: user, host and directory, the home directory as a tilde. -/
def prompt (user hostname cwd home : String) : String :=
  user ++ "@" ++ hostname ++ ":" ++ Path.tilde cwd home ++ "$ "

end VirtualShell
