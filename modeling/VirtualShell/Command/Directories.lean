import VirtualShell.Calendar.Format
import VirtualShell.Command.Basic

/-!
# Commands on directories

`pwd`, `cd`, `ls` and `mkdir`.
-/

namespace VirtualShell.Command

open Calendar

/-! ## The current directory -/

def runPwd (w : World) : Reply := .success (w.tree.currentDirectory ++ "\n")

/-- Changes to a directory, which is shown as `shown` if that is not possible. With `announce` the
new directory is displayed. -/
def changeTo (w : World) (target shown : String) (announce : Bool) : Reply × World :=
  match w.tree.changeDirectory target with
  | .error e => (.withCode (complaint "cd" shown e) 1, w)
  | .ok t =>
    let dir := t.currentDirectory
    (.success (if announce then dir ++ "\n" else ""), ⟨t, w.session.setCwd dir⟩)

/-- Changes the directory: to the home directory without an operand, to the previous one for a
dash. -/
def runCd (args : List String) (w : World) : Reply × World :=
  match args with
  | [] => changeTo w Path.home Path.home false
  | [arg] =>
    if arg = "" then changeTo w Path.home arg false
    else if arg = "-" then
      match w.session.previousDir with
      | some dir => changeTo w dir arg true
      | none => (.withCode "cd: OLDPWD not set\n" 1, w)
    else changeTo w arg arg false
  | _ => (.failure "cd" (.invalidArgument "too many arguments"), w)

/-! ## Listings -/

/-- What `ls` was asked for. -/
structure Listing where
  all : Bool
  long : Bool
  operands : List String

namespace Listing

/-- Takes one option letter. -/
def letter (l : Listing) (c : Char) : Except ShellError Listing :=
  match c with
  | 'a' => .ok { l with all := true }
  | 'l' => .ok { l with long := true }
  | c => .error (.badOption c.toString)

/-- Takes one argument. -/
def argument (l : Listing) (arg : String) : Except ShellError Listing :=
  match optionLetters? arg with
  | some cs => cs.foldlM letter l
  | none => .ok { l with operands := l.operands ++ [arg] }

/-- Reads the arguments of `ls`. -/
def ofArgs (args : List String) : Except ShellError Listing :=
  args.foldlM argument ⟨false, false, []⟩

/-- Half a year, as long listings count it: 180 days in nanoseconds. -/
def halfYear : Int := 180 * 86400 * nanosPerSecond

/-- The time column: with the time of day if the node is younger than half a year, else with the
year. -/
def timeText (now modified : Instant) : String :=
  Format.write (if now.since modified < halfYear then "%b %e %H:%M" else "%b %e  %Y") modified

/-- A line of a long listing. -/
def longLine (now : Instant) (n : Node) (name : String) : String :=
  let m := n.metadata
  m.permissions ++ " 1 " ++ m.owner ++ " " ++ m.group ++ " " ++
    Text.padLeft 5 ' ' (Text.decimal m.size) ++ " " ++ timeText now m.modified ++ " " ++ name ++
    "\n"

/-- A line of a listing. -/
def line (l : Listing) (now : Instant) (n : Node) (name : String) : String :=
  if l.long then longLine now n name else name ++ "\n"

/-- The entries of a directory that are listed, by name. -/
def entries (l : Listing) (t : FileTree) (d : Node) : List Node :=
  ((t.childNodes d).filter fun n => l.all || !n.isHidden).mergeSort fun a b => a.name ≤ b.name

/-- The listing of a directory. Each line is made in a turn of its own. -/
def body (l : Listing) (c : Clock) (t : FileTree) (d : Node) : String :=
  let entries := l.entries t d
  (if l.long then "total " ++ Text.decimal entries.length ++ "\n" else "") ++
    String.join (entries.zipIdx.map fun item => l.line (c.turn item.2).now item.1 item.1.name)

/-- Lists one operand, the `index`-th, in its turn. Where several are listed, directories have a
heading. -/
def operand (l : Listing) (c : Clock) (several : Bool) (p : Progress)
    (item : String × Nat) : Progress :=
  let (path, index) := item
  let c := c.turn index
  match p.tree.find? path with
  | none => p.complain ("ls: cannot access '" ++ path ++ "': " ++
      (TreeError.notFound path).reason ++ "\n")
  | some n =>
    if n.isFile then p.say (l.line c.now n path)
    else
      let heading :=
        if several then (if index > 0 then "\n" else "") ++ path ++ ":\n" else ""
      p.say (heading ++ l.body c p.tree n)

end Listing

def runLs (c : Clock) (args : List String) (w : World) : Reply :=
  match Listing.ofArgs args with
  | .error e => .failure "ls" e
  | .ok l =>
    let operands := if l.operands.isEmpty then ["."] else l.operands
    (operands.zipIdx.foldl (l.operand c (operands.length > 1)) (.start w.tree)).reply

/-! ## New directories -/

/-- What `mkdir` was asked for. -/
structure DirectoryRequest where
  parents : Bool
  operands : List String

/-- Takes one argument. -/
def DirectoryRequest.argument (r : DirectoryRequest) (arg : String) :
    Except ShellError DirectoryRequest :=
  if arg = "-p" ∨ arg = "--parents" then .ok { r with parents := true }
  else match optionLetters? arg with
    | some cs => .error (.badOption (String.ofList cs))
    | none => .ok { r with operands := r.operands ++ [arg] }

/-- Makes one directory, or all that are missing on the way to it. -/
def DirectoryRequest.make (r : DirectoryRequest) (s : Supply) (p : Progress) (dir : String) :
    Progress :=
  let path := p.tree.resolve dir
  let s := s.turn p.turn
  let result :=
    if r.parents then p.tree.createPath s path
    else (·.1) <$> p.tree.createDirectory s (Path.basename path) (Path.dirname path)
  p.attempt result fun e =>
    "mkdir: cannot create directory '" ++ dir ++ "': " ++ e.reason ++ "\n"

def runMkdir (s : Supply) (args : List String) (w : World) : Reply × World :=
  match args.foldlM DirectoryRequest.argument ⟨false, []⟩ with
  | .error e => (.failure "mkdir" e, w)
  | .ok r =>
    if r.operands.isEmpty then (.failure "mkdir" (.invalidArgument "missing operand"), w)
    else (r.operands.foldl (r.make s) (.start w.tree)).finish w

end VirtualShell.Command
