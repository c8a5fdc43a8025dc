import VirtualShell.Path

/-!
# Paths of the host

How the host reads the text of a path, and the paths that are derived from one: the directories on
the way to it and a file beside it with another extension. Unlike a path of the simulated tree, a
path of the host keeps its `..` parts, for what they mean depends on what is there. The moves of a
path are what the host does to follow it.
-/

namespace VirtualShell

/-- A path of the host. -/
structure HostPath where
  absolute : Bool
  /-- The names and `..` parts, in order. -/
  parts : List String
  /-- The text ends in a slash or a dot, so that only a directory can be meant. -/
  directory : Bool
  deriving DecidableEq, Repr

namespace HostPath

/-- Reads the text of a path. Empty and `.` segments say nothing, except at the end. -/
def ofText (text : String) : HostPath :=
  let segs := Path.segments text
  let isPart (s : String) : Bool := s ≠ "" && s ≠ "."
  ⟨text.toList.head? == some '/', segs.filter isPart,
    text ≠ "" && (segs.getLast?).all fun s => !isPart s⟩

/-- A text of a path. -/
def toText (p : HostPath) : String :=
  let body := String.intercalate "/" p.parts
  if p.absolute then "/" ++ body ++ (if p.directory && !p.parts.isEmpty then "/" else "")
  else if p.directory then (if p.parts.isEmpty then "." else body ++ "/")
  else body

/-- The path of the empty text, which names nothing. -/
def isEmpty (p : HostPath) : Bool := !p.absolute && p.parts.isEmpty && !p.directory

/-- The longest name that the host takes, in bytes. -/
def nameLimit : Nat := 255

/-- The length at which the host takes no path any more, in bytes. -/
def lengthLimit : Nat := 4096

/-- The length of a path, in bytes. -/
def length (p : HostPath) : Nat :=
  p.parts.foldr (fun s n => s.utf8ByteSize + 1 + n) 0 - (if p.absolute then 0 else 1)

/-- The host looks at a path at all: it is not too long and holds no null character. -/
def isLegal (p : HostPath) : Bool :=
  p.length < lengthLimit && p.parts.all fun s => !s.toList.contains '\x00'

/-- One move on the way that a path says. -/
inductive Move where
  /-- Stays in a directory. -/
  | stay
  /-- Goes to the directory above. -/
  | up
  /-- Goes to what has a name in the directory. -/
  | down (name : String)
  deriving DecidableEq, Repr

/-- The move that a part of a path says. -/
def Move.ofPart (part : String) : Move := if part = ".." then .up else .down part

/-- The moves of a path. One that asks for a directory stays there in the end. -/
def moves (p : HostPath) : List Move :=
  p.parts.map .ofPart ++ if p.directory then [.stay] else []

/-- The directory that the last part of a path is a name in. -/
def folder (p : HostPath) : HostPath := ⟨p.absolute, p.parts.dropLast, true⟩

/-- The path of the first parts. -/
def upTo (p : HostPath) (n : Nat) : HostPath := ⟨p.absolute, p.parts.take n, p.absolute && n = 0⟩

/-- The path without its last part. -/
def parent (p : HostPath) : HostPath := p.upTo (p.parts.length - 1)

/-- The paths of the first parts, the shortest first and the path itself last. -/
def ancestry (p : HostPath) : List HostPath :=
  (List.range p.parts.length).map fun i => p.upTo (i + 1)

/-- The name of the file that a path names. -/
def fileName? (p : HostPath) : Option String := p.parts.getLast?.filter (· ≠ "..")

/-- A file name without its extension: the part before the last point, unless nothing is left. -/
def stem (name : String) : String :=
  match name.toList.reverse.dropWhile (· ≠ '.') with
  | _ :: c :: cs => String.ofList (c :: cs).reverse
  | _ => name

/-- The path of a file beside that of `p`, with another extension. A path that ends in no file name
stays as it is. -/
def withExtension (p : HostPath) (extension : String) : HostPath :=
  match p.fileName? with
  | some name => ⟨p.absolute, p.parts.dropLast ++ [stem name ++ "." ++ extension], false⟩
  | none => p

end HostPath

end VirtualShell
