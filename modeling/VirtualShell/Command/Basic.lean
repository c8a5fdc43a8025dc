import VirtualShell.Session.History
import VirtualShell.Tree.Edit

/-!
# What commands work on and what they answer

A command takes its arguments and the world, that is the tree and the session, and gives a reply
and a changed world. The reply says what is displayed, with which exit code, and which damage to
the integrity of the system is to be reported.
-/

namespace VirtualShell

/-- Why a command refuses its arguments or fails as a whole. -/
inductive ShellError where
  | unknownCommand (name : String)
  | malformedPattern (pattern reason : String)
  | invalidArgument (text : String)
  | tree (e : TreeError)
  deriving DecidableEq, Repr

namespace ShellError

/-- The wording of an error. -/
def message : ShellError → String
  | unknownCommand name => name ++ ": command not found"
  | malformedPattern pattern reason => "invalid pattern '" ++ pattern ++ "': " ++ reason
  | invalidArgument text => text
  | tree e => e.message

/-- The exit code that an error leads to. -/
def exitCode : ShellError → Nat
  | unknownCommand _ => 127
  | malformedPattern _ _ => 2
  | invalidArgument _ => 2
  | tree _ => 1

/-- An option that the command does not have. -/
def badOption (option : String) : ShellError :=
  .invalidArgument ("invalid option -- '" ++ option ++ "'")

end ShellError

/-- What a command hands to the terminal. -/
inductive Output where
  | display (text : String)
  | clearScreen
  | requestExit
  /-- The command could not finish and takes the session down with it. -/
  | aborted
  deriving DecidableEq, Repr

/-- The displayed text, empty for signals. -/
def Output.text : Output → String
  | display text => text
  | _ => ""

/-- The outcome of a command. -/
structure Reply where
  output : Output
  code : Nat
  /-- The reported changes of integrity, in order; negative for damage. -/
  damage : List Int
  deriving DecidableEq, Repr

namespace Reply

def success (text : String) : Reply := ⟨.display text, 0, []⟩

def withCode (text : String) (code : Nat) : Reply := ⟨.display text, code, []⟩

/-- The command's name before the error, with the error's exit code. -/
def failure (command : String) (e : ShellError) : Reply :=
  .withCode (command ++ ": " ++ e.message ++ "\n") e.exitCode

end Reply

/-- A complaint about an operand, which is shown as it was typed. -/
def complaint (command operand : String) (e : TreeError) : String :=
  command ++ ": " ++ operand ++ ": " ++ e.reason ++ "\n"

/-- The tree and the session. -/
structure World where
  tree : FileTree
  session : Session

/-- What stays fixed while a line is executed. -/
structure Surroundings where
  supply : Supply
  options : Options

/-- The letters of an argument that is a cluster of options: a dash with something behind it. -/
def optionLetters? (arg : String) : Option (List Char) :=
  match arg.toList with
  | '-' :: c :: cs => some (c :: cs)
  | _ => none

/-- How far a command has come that treats its operands one after another. -/
structure Progress where
  tree : FileTree
  /-- The number of changes that were made. The next one is made in the turn of this number. -/
  turn : Nat
  text : String
  failed : Bool
  damage : List Int

namespace Progress

/-- Before the first operand. -/
def start (t : FileTree) : Progress := ⟨t, 0, "", false, []⟩

/-- Shows a text. -/
def say (p : Progress) (text : String) : Progress := { p with text := p.text ++ text }

/-- Shows a complaint, after which the command cannot succeed any more. -/
def complain (p : Progress) (text : String) : Progress :=
  { p with text := p.text ++ text, failed := true }

/-- Takes over the tree that an operation gives, or complains about its refusal. -/
def attempt (p : Progress) (result : Except TreeError FileTree) (wording : TreeError → String) :
    Progress :=
  match result with
  | .ok t => { p with tree := t, turn := p.turn + 1 }
  | .error e => p.complain (wording e)

/-- The reply after the last operand. -/
def reply (p : Progress) : Reply := ⟨.display p.text, if p.failed then 1 else 0, p.damage⟩

/-- The reply after the last operand, and the world with the changed tree. -/
def finish (p : Progress) (w : World) : Reply × World := (p.reply, { w with tree := p.tree })

end Progress

end VirtualShell
