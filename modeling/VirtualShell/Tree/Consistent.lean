import VirtualShell.Tree.Basic
import VirtualShell.Tree.Error

/-!
# Consistent trees

What it means that ids, parents, children, names and stored paths agree, and the check that a
stored tree passes before it is taken. The check reports the first defect it meets, in the order
keys, root, parents node by node, children node by node, reachability, current directory.
-/

namespace VirtualShell

namespace FileTree

/-- A node is reached from another by going to children any number of times. -/
inductive Reaches (t : FileTree) : NodeId → NodeId → Prop
  | refl (a : NodeId) : Reaches t a a
  | step {a b c : NodeId} {n : Node} :
    Reaches t a b → t.node? b = some n → c ∈ n.children → Reaches t a c

/-- Keys, parents, children, names and paths tell of one tree. -/
structure Consistent (t : FileTree) : Prop where
  /-- Every node is filed under its own id. -/
  key_eq_id : ∀ id n, t.node? id = some n → n.id = id
  /-- The root is a directory without a parent, at the path of the root. -/
  root_ok : ∃ n, t.node? t.root = some n ∧ n.parent = none ∧ n.path = "/" ∧ n.isDirectory
  /-- Every other node has an existing directory as its parent. -/
  parent_ok : ∀ id n, t.node? id = some n → id ≠ t.root →
    ∃ p d, n.parent = some p ∧ t.node? p = some d ∧ d.isDirectory
  /-- A node lists each child once. -/
  children_nodup : ∀ id n, t.node? id = some n → n.children.Nodup
  /-- A directory lists exactly the nodes whose parent it is. -/
  child_iff_parent : ∀ id n, t.node? id = some n → n.isDirectory → ∀ c,
    c ∈ n.children ↔ ∃ m, t.node? c = some m ∧ m.parent = some id
  /-- Names below the root can stand in a path. -/
  name_ok : ∀ id n, t.node? id = some n → id ≠ t.root → validName n.name
  /-- Siblings have different names. -/
  sibling_names : ∀ id m id' m', t.node? id = some m → t.node? id' = some m' →
    m.parent = m'.parent → m.parent ≠ none → m.name = m'.name → id = id'
  /-- A stored path is the parent's path with the name put beneath it. -/
  path_ok : ∀ id n, t.node? id = some n → ∀ p d, n.parent = some p → t.node? p = some d →
    n.path = Path.join d.path n.name
  /-- Every node lies beneath the root. -/
  reachable : ∀ id n, t.node? id = some n → t.Reaches t.root id
  /-- The current directory is an existing directory. -/
  cwd_ok : ∃ n, t.node? t.cwd = some n ∧ n.isDirectory

/-- The defect of a binding whose key is not the node's id. -/
def keyDefect? (binding : NodeId × Node) : Option Defect :=
  if binding.1 = binding.2.id then none
  else some (.keyMismatch binding.1.text binding.2.id.text)

/-- The defect of the root. -/
def rootDefect? (t : FileTree) : Option Defect :=
  match t.node? t.root with
  | none => some .noRoot
  | some n =>
    if n.parent.isNone && n.path == "/" && n.isDirectory then none else some .badRoot

/-- The defect of a node seen from its parent. -/
def parentDefect? (t : FileTree) (n : Node) : Option Defect :=
  match n.parent with
  | none => if n.id = t.root then none else some (.noParent n.path)
  | some p =>
    match t.node? p with
    | none => some (.danglingParent n.path)
    | some d =>
      let times := d.children.count n.id
      if !d.isDirectory then some (.parentNotADirectory n.path)
      else if !validName n.name then some (.badName n.name)
      else if n.path ≠ Path.join d.path n.name then some (.stalePath n.path)
      else if times ≠ 1 then some (.listedTimes n.path times)
      else none

/-- The first defect among the children of a node, given the names of those before. -/
def childDefect? (t : FileTree) (n : Node) (names : List String) : List NodeId → Option Defect
  | [] => none
  | id :: rest =>
    match t.node? id with
    | none => some (.missingChild n.path id.text)
    | some c =>
      if c.parent ≠ some n.id then some (.foreignChild n.path c.path)
      else if c.name ∈ names then some (.duplicateName c.path)
      else t.childDefect? n (c.name :: names) rest

/-- The defect of a tree in which the walk from the root does not meet as many nodes as there
are. One visit more than there are nodes settles it. -/
def reachDefect? (t : FileTree) : Option Defect :=
  if (t.preorder (t.nodes.size + 1) [t.root]).length = t.nodes.size then none
  else some .unreachable

/-- The defect of the current directory. -/
def cwdDefect? (t : FileTree) : Option Defect :=
  match t.node? t.cwd with
  | some n => if n.isDirectory then none else some .badCurrentDirectory
  | none => some .badCurrentDirectory

/-- The first defect of a tree; `none` if it is consistent. -/
def defect? (t : FileTree) : Option Defect :=
  (t.nodes.entries.findSome? keyDefect?)
    |>.or t.rootDefect?
    |>.or (t.allNodes.findSome? t.parentDefect?)
    |>.or (t.allNodes.findSome? fun n => t.childDefect? n [] n.children)
    |>.or t.reachDefect?
    |>.or t.cwdDefect?

end FileTree

end VirtualShell
