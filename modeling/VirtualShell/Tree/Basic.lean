import VirtualShell.Calendar.Instant
import VirtualShell.OrderedMap
import VirtualShell.Path

/-!
# The tree of files

A tree is a map from ids to nodes with the ids of its root and of the current directory. A node
knows its parent and a directory lists its children, both by id; besides, every node holds its
own absolute path. That these agree is `FileTree.Consistent`, in the next module.

Lookup by path compares the stored paths, in node order. The structural walk `FileTree.walk?`
says what it should find: the children's names followed from the root.
-/

namespace VirtualShell

open Calendar

/-- The identity of a node, kept for its whole life. -/
structure NodeId where
  text : String
  deriving DecidableEq, Repr, Inhabited

/-- What a node holds: a text, or its children in the order in which they came. -/
inductive Content where
  | file (text : String)
  | directory (children : List NodeId)
  deriving DecidableEq, Repr, Inhabited

/-- What a long listing shows of a node. -/
structure Metadata where
  permissions : String
  owner : String
  group : String
  size : Nat
  created : Instant
  modified : Instant
  deriving DecidableEq, Repr, Inhabited

/-- A file or a directory. -/
structure Node where
  id : NodeId
  name : String
  /-- The absolute path, kept in step with the parents' names. -/
  path : String
  parent : Option NodeId
  content : Content
  metadata : Metadata
  readOnly : Bool
  deriving DecidableEq, Repr, Inhabited

namespace Node

def isDirectory (n : Node) : Bool :=
  match n.content with
  | .directory _ => true
  | .file _ => false

def isFile (n : Node) : Bool := !n.isDirectory

/-- The text of a file. -/
def text? (n : Node) : Option String :=
  match n.content with
  | .file text => some text
  | .directory _ => none

/-- The children's ids, none for a file. -/
def children (n : Node) : List NodeId :=
  match n.content with
  | .directory children => children
  | .file _ => []

/-- Hidden nodes are left out of plain listings. -/
def isHidden (n : Node) : Bool := n.name.toList.head? == some '.'

/-- Changes the list of children of a directory; a file stays as it is. -/
def mapChildren (f : List NodeId → List NodeId) (n : Node) : Node :=
  match n.content with
  | .directory children => { n with content := .directory (f children) }
  | .file _ => n

end Node

/-- A name that can stand between two slashes of a path. -/
def validName (name : String) : Bool :=
  name != "" && name != "." && name != ".." && !name.toList.contains '/'

/-- Nodes by id, the root's id and the current directory's id. -/
structure FileTree where
  nodes : OrderedMap NodeId Node
  root : NodeId
  cwd : NodeId
  deriving DecidableEq, Repr, Inhabited

namespace FileTree

/-- The node with a given id. -/
def node? (t : FileTree) (id : NodeId) : Option Node := t.nodes.get? id

/-- All nodes, in node order. -/
def allNodes (t : FileTree) : List Node := t.nodes.values

/-- The ids in use. -/
def ids (t : FileTree) : List NodeId := t.nodes.keys

/-- The path of the current directory. -/
def currentDirectory (t : FileTree) : String :=
  match t.node? t.cwd with
  | some n => n.path
  | none => "/"

/-- Reads typed input against the current directory and the home directory. -/
def resolve (t : FileTree) (input : String) : String :=
  Path.resolve t.currentDirectory Path.home input

/-- The node whose stored path is the given one. -/
def lookup? (t : FileTree) (path : String) : Option Node :=
  t.allNodes.find? fun n => n.path = path

/-- The node that typed input names. -/
def find? (t : FileTree) (input : String) : Option Node := t.lookup? (t.resolve input)

/-- The child of a node with a given name. -/
def child? (t : FileTree) (n : Node) (name : String) : Option Node :=
  (n.children.filterMap t.node?).find? fun c => c.name = name

/-- Follows names from a node down the children's lists. -/
def descend? (t : FileTree) (n : Node) : List String → Option Node
  | [] => some n
  | name :: names => do (t.descend? (← t.child? n name) names)

/-- The node at the end of a path, found by walking down from the root. -/
def walk? (t : FileTree) (path : String) : Option Node := do
  t.descend? (← t.node? t.root) ((Path.segments path).filter (· ≠ ""))

/-- The children of a node, in the order in which they came. -/
def childNodes (t : FileTree) (n : Node) : List Node := n.children.filterMap t.node?

/-- Visits the nodes of a work list and all that lies beneath them, parents first and children in
their order. At most `fuel` ids are taken from the list. -/
def preorder (t : FileTree) : Nat → List NodeId → List NodeId
  | 0, _ => []
  | _, [] => []
  | fuel + 1, id :: work =>
    match t.node? id with
    | some n => id :: t.preorder fuel (n.children ++ work)
    | none => t.preorder fuel work

/-- The ids of a node and of all that lies beneath it. In a consistent tree there are no more of
them than nodes. -/
def subtree (t : FileTree) (id : NodeId) : List NodeId := t.preorder t.nodes.size [id]

end FileTree

end VirtualShell
