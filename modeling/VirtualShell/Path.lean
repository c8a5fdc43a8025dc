/-!
# Paths

Absolute paths in normal form, and how a path that a user types is read against a working
directory and a home directory. Everything here is a function of the texts alone and looks at no
tree.

A path is cut at its slashes into segments. Normalising drops empty and `.` segments and lets
`..` take back the segment before it, but never climbs above the root.
-/

namespace VirtualShell.Path

/-- The home directory of the simulated user. -/
def home : String := "/home/user"

/-- The segments of a path, between and around its slashes. -/
def segments (path : String) : List String := (path.toList.splitOn '/').map String.ofList

/-- What one more segment does to the segments kept so far. -/
def visit (kept : List String) (segment : String) : List String :=
  if segment = "" ∨ segment = "." then kept
  else if segment = ".." then kept.dropLast
  else kept ++ [segment]

/-- The segments that remain after `.` and `..` are resolved. -/
def resolveDots (segs : List String) : List String := segs.foldl visit []

/-- The absolute path with the given segments. -/
def ofSegments : List String → String
  | [] => "/"
  | segs => String.ofList (segs.flatMap fun s => '/' :: s.toList)

/-- The normal form of an absolute path. -/
def normalize (path : String) : String := ofSegments (resolveDots (segments path))

/-- Reads typed input against a working directory and a home directory. The empty input and `.`
mean the working directory as it stands. -/
def resolve (cwd home input : String) : String :=
  if input = "" ∨ input = "." then cwd
  else if input = "~" then normalize home
  else match input.toList with
    | '~' :: '/' :: rest => normalize (home ++ "/" ++ String.ofList rest)
    | '/' :: _ => normalize input
    | _ => normalize (cwd ++ "/" ++ input)

/-- The directory part of a path. -/
def dirname (path : String) : String := ofSegments (resolveDots (segments path)).dropLast

/-- The last segment of a path, empty for the root. -/
def basename (path : String) : String := (resolveDots (segments path)).getLast?.getD ""

/-- A name put beneath a directory. -/
def join (parent name : String) : String :=
  if parent = "/" then "/" ++ name else parent ++ "/" ++ name

/-- The rest of a text after a given beginning. -/
def stripFront? (front text : String) : Option String :=
  if front.toList.isPrefixOf text.toList then
    some (String.ofList (text.toList.drop front.toList.length))
  else none

/-- The path is the ancestor or lies beneath it. -/
def isWithin (path ancestor : String) : Bool :=
  ancestor == "/" || path == ancestor ||
    match stripFront? ancestor path with
    | some rest => rest.toList.head? == some '/'
    | none => false

/-- A path with the home directory written as a tilde. -/
def tilde (path home : String) : String :=
  if path = home then "~"
  else match stripFront? home path with
    | some rest => if rest.toList.head? = some '/' ∧ home ≠ "/" then "~" ++ rest else path
    | none => path

end VirtualShell.Path
