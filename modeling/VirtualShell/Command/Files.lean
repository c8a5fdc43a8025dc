import VirtualShell.Command.Basic
import VirtualShell.Text.Lines
import VirtualShell.Text.Numeral

/-!
# Commands on files

`cat`, `touch`, `rm` and `mv`. Operands are treated one after another, each on the tree that the
one before it left; a failure does not stop those behind it.
-/

namespace VirtualShell.Command

/-! ## Showing files -/

/-- A text with its lines numbered from a first number on, and the number after the last. -/
def numberLines (first : Nat) (text : String) : String × Nat :=
  let lines := Text.lines text.toList
  let numbered := lines.zipIdx.map fun item =>
    Text.padLeft 6 ' ' (Text.decimal (first + item.2)) ++ "\t" ++ String.ofList item.1
  let ending := if text.toList.getLast? = some '\n' then "\n" else ""
  (String.intercalate "\n" numbered ++ ending, first + lines.length)

/-- Shows one file. The number is that of the next line. -/
def showFile (numbers : Bool) (state : Progress × Nat) (file : String) : Progress × Nat :=
  let (p, next) := state
  match p.tree.read file with
  | .error e => (p.complain (complaint "cat" file e), next)
  | .ok text =>
    if numbers then
      let (shown, next) := numberLines next text
      (p.say shown, next)
    else (p.say text, next)

/-- An argument that asks `cat` for line numbers. -/
def asksNumbers (arg : String) : Bool := arg == "-n" || arg == "--number"

def runCat (args : List String) (w : World) : Reply :=
  let files := args.filter (!asksNumbers ·)
  if files.isEmpty then .failure "cat" (.invalidArgument "missing file operand")
  else (files.foldl (showFile (args.any asksNumbers)) (.start w.tree, 1)).1.reply

/-! ## Touching files -/

/-- Sets the time of a node, or creates an empty file. -/
def touchFile (s : Supply) (p : Progress) (file : String) : Progress :=
  let path := p.tree.resolve file
  let s := s.turn p.turn
  let result :=
    if (p.tree.find? path).isSome then p.tree.touch s path
    else (·.1) <$> p.tree.createFile s (Path.basename path) (Path.dirname path) ""
  p.attempt result fun e => "touch: cannot touch '" ++ file ++ "': " ++ e.reason ++ "\n"

def runTouch (s : Supply) (args : List String) (w : World) : Reply × World :=
  if args.isEmpty then (.failure "touch" (.invalidArgument "missing file operand"), w)
  else (args.foldl (touchFile s) (.start w.tree)).finish w

/-! ## Removing files -/

/-- The change of integrity for a removal at, beneath or above the system's directory. -/
def systemDamage : Int := -15

/-- The change of integrity for a removal at, beneath or above the home directory. -/
def homeDamage : Int := -5

/-- The directory of the system. -/
def systemDir : String := "/system"

/-- One path lies at or beneath the other. -/
def onOneLine (a b : String) : Bool := Path.isWithin a b || Path.isWithin b a

/-- The damage that removing a path does; the system's directory comes first. -/
def damageOf (path : String) : Option Int :=
  if onOneLine path systemDir then some systemDamage
  else if onOneLine path Path.home then some homeDamage
  else none

/-- What `rm` was asked for. -/
structure Removal where
  recursive : Bool
  force : Bool
  operands : List String

namespace Removal

/-- Takes one option letter. -/
def letter (r : Removal) (c : Char) : Except ShellError Removal :=
  match c with
  | 'r' => .ok { r with recursive := true }
  | 'R' => .ok { r with recursive := true }
  | 'f' => .ok { r with force := true }
  | c => .error (.badOption c.toString)

/-- Takes one argument. -/
def argument (r : Removal) (arg : String) : Except ShellError Removal :=
  if arg = "--recursive" then .ok { r with recursive := true }
  else if arg = "--force" then .ok { r with force := true }
  else match optionLetters? arg with
    | some cs => cs.foldlM letter r
    | none => .ok { r with operands := r.operands ++ [arg] }

/-- Removes one operand. Damage is reported before the removal is tried, and never for the root,
which cannot be removed. -/
def remove (r : Removal) (p : Progress) (operand : String) : Progress :=
  let path := p.tree.resolve operand
  let cannot (why : String) := "rm: cannot remove '" ++ operand ++ "': " ++ why ++ "\n"
  match p.tree.find? path with
  | none => if r.force then p else p.complain (cannot "No such file or directory")
  | some n =>
    if n.isDirectory && !r.recursive then p.complain (cannot "Is a directory")
    else
      let damage := if n.parent.isNone then [] else (damageOf path).toList
      let p := { p with damage := p.damage ++ damage }
      p.attempt ((·.1) <$> p.tree.delete path) fun e => cannot e.reason

end Removal

def runRm (args : List String) (w : World) : Reply × World :=
  match args.foldlM Removal.argument ⟨false, false, []⟩ with
  | .error e => (.failure "rm" e, w)
  | .ok r =>
    if r.operands.isEmpty then
      if r.force then (.success "", w)
      else (.failure "rm" (.invalidArgument "missing operand"), w)
    else (r.operands.foldl r.remove (.start w.tree)).finish w

/-! ## Moving files -/

/-- Moves one source into a directory, or to a path of its own. -/
def moveOne (s : Supply) (dest destPath : String) (intoDir : Bool) (p : Progress)
    (source : String) : Progress :=
  let s := s.turn p.turn
  let result :=
    if intoDir then p.tree.move s source destPath
    else p.tree.moveAs s source (Path.dirname destPath) (Path.basename destPath)
  p.attempt result fun e =>
    "mv: cannot move '" ++ source ++ "' to '" ++ dest ++ "': " ++ e.reason ++ "\n"

/-- Moves all operands but the last to the last. Whether that is a directory is settled before the
first move. -/
def runMv (s : Supply) (args : List String) (w : World) : Reply × World :=
  match args, args.getLast? with
  | [], _ => (.failure "mv" (.invalidArgument "missing file operand"), w)
  | [source], _ =>
    (.failure "mv" (.invalidArgument
      ("missing destination file operand after '" ++ source ++ "'")), w)
  | _, none => (.failure "mv" (.invalidArgument "missing file operand"), w)
  | args, some dest =>
    let sources := args.dropLast
    let destPath := w.tree.resolve dest
    let intoDir := (w.tree.find? destPath).any Node.isDirectory
    if sources.length > 1 && !intoDir then
      (.withCode ("mv: target '" ++ dest ++ "' is not a directory\n") 1, w)
    else (sources.foldl (moveOne s dest destPath intoDir) (.start w.tree)).finish w

end VirtualShell.Command
