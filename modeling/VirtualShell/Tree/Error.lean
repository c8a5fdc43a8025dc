/-!
# Why the tree refuses

The causes for which an operation on the tree is refused, their wording, and the defects for which
a stored tree is not accepted. A cause is shown in two ways: `message` names the path, `reason`
leaves it to a caller that names the operand itself.
-/

namespace VirtualShell

/-- Why an operation on the tree was refused. -/
inductive TreeError where
  | notFound (path : String)
  | alreadyExists (path : String)
  | notADirectory (path : String)
  | isADirectory (path : String)
  | readOnly (path : String)
  /-- The operation is not allowed on the root directory. -/
  | isRoot (operation : String)
  | invalidName (name : String)
  /-- A directory cannot move beneath itself. -/
  | intoItself (source dest : String)
  | malformed (reason : String)
  deriving DecidableEq, Repr

namespace TreeError

/-- The wording of a refusal without the path it is about. -/
def reason : TreeError → String
  | notFound _ => "No such file or directory"
  | alreadyExists _ => "File exists"
  | notADirectory _ => "Not a directory"
  | isADirectory _ => "Is a directory"
  | readOnly _ => "Read-only file system"
  | isRoot operation => "cannot " ++ operation ++ " the root directory"
  | invalidName _ => "Invalid file name"
  | intoItself source dest =>
    "cannot move '" ++ source ++ "' to a subdirectory of itself, '" ++ dest ++ "'"
  | malformed reason => "malformed snapshot: " ++ reason

/-- The full wording of a refusal. -/
def message (e : TreeError) : String :=
  match e with
  | notFound path => path ++ ": " ++ e.reason
  | alreadyExists path => path ++ ": " ++ e.reason
  | notADirectory path => path ++ ": " ++ e.reason
  | isADirectory path => path ++ ": " ++ e.reason
  | readOnly path => path ++ ": " ++ e.reason
  | invalidName name => "'" ++ name ++ "': " ++ e.reason
  | isRoot _ => e.reason
  | intoItself _ _ => e.reason
  | malformed _ => e.reason

end TreeError

/-- Why a stored tree is not a tree. -/
inductive Defect where
  | keyMismatch (key id : String)
  | noRoot
  | badRoot
  | noParent (path : String)
  | danglingParent (path : String)
  | parentNotADirectory (path : String)
  | badName (name : String)
  | stalePath (path : String)
  | listedTimes (path : String) (times : Nat)
  | missingChild (path child : String)
  | foreignChild (path child : String)
  | duplicateName (path : String)
  | unreachable
  | badCurrentDirectory
  deriving DecidableEq, Repr

/-- The wording of a defect. -/
def Defect.message : Defect → String
  | keyMismatch key id => "node keyed as " ++ key ++ " has id " ++ id
  | noRoot => "root id does not name a node"
  | badRoot => "root must be a parentless directory at /"
  | noParent path => path ++ " has no parent"
  | danglingParent path => path ++ " has a dangling parent"
  | parentNotADirectory path => "parent of " ++ path ++ " is not a directory"
  | badName name => (TreeError.invalidName name).message
  | stalePath path => "stale path " ++ path
  | listedTimes path times => path ++ " is listed " ++ toString times ++ " times by its parent"
  | missingChild path child => path ++ " lists a missing child " ++ child
  | foreignChild path child => path ++ " lists " ++ child ++ " which belongs elsewhere"
  | duplicateName path => "duplicate name " ++ path
  | unreachable => "tree contains unreachable nodes"
  | badCurrentDirectory => "current directory is not a directory"

/-- The refusal that reports a defect. -/
def Defect.toError (d : Defect) : TreeError := .malformed d.message

end VirtualShell
