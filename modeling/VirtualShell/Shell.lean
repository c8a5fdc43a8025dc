import VirtualShell.Command.Run
import VirtualShell.Line.Alias

/-!
# Executing a line

A line is recorded in the history, its leading alias is expanded, and its first token names the
command that runs on the others. One line is never given to a command: the attempt to remove
everything is intercepted and reported as the gravest damage.
-/

namespace VirtualShell

/-- What became of a line. -/
structure ExecResult where
  input : String
  output : Output
  code : Nat
  /-- The current directory afterwards. -/
  cwd : String
  damage : List Int
  /-- The name and exit code that usage statistics get; none for a blank line. -/
  usage : Option (String × Nat)
  deriving DecidableEq, Repr

namespace Shell

/-- The line that is intercepted. -/
def catastrophe : String := "rm -rf /"

/-- The damage that the intercepted line is reported to do. -/
def catastropheDamage : Int := -50

/-- The answer to the intercepted line. -/
def refuseCatastrophe : Reply :=
  ⟨.display ("rm: refusing to remove '/'\nWARNING: system integrity critically damaged (" ++
    Text.decimalInt catastropheDamage ++ ")\n"), 1, [catastropheDamage]⟩

/-- Runs the command that a trimmed line names. The first part of the result is the name for the
statistics. -/
def dispatch (s : Surroundings) (w : World) (line : String) : String × Reply × World :=
  match Line.expandedTokens w.session.aliases line with
  | [] => ("", .success "", w)
  | typed :: args =>
    let name := Text.lowercase typed
    match Command.ofName? name with
    | some c => (name, c.run s args w)
    | none =>
      let e := ShellError.unknownCommand typed
      (name, .withCode (e.message ++ "\n") e.exitCode, w)

/-- Forgets which line of the history is selected. -/
def deselect (session : Session) : Session := { session with cursor := none }

/-- Executes a line of input. -/
def exec (s : Surroundings) (w : World) (input : String) : ExecResult × World :=
  let line := Text.trim input
  let session := { w.session with cwd := w.tree.currentDirectory }
  if line = "" then
    (⟨input, .display "", 0, w.tree.currentDirectory, [], none⟩,
      { w with session := deselect session })
  else
    let w := { w with session := session.record line s.options.maxHistory }
    let (name, reply, w) :=
      if line = catastrophe then ("rm", refuseCatastrophe, w) else dispatch s w line
    let cwd := w.tree.currentDirectory
    (⟨input, reply.output, reply.code, cwd, reply.damage, some (name, reply.code)⟩,
      { w with session := deselect (w.session.setCwd cwd) })

end Shell

end VirtualShell
