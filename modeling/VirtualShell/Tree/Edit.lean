import VirtualShell.Tree.Basic
import VirtualShell.Tree.Error

/-!
# Reading and changing the tree

The operations on a tree. Each reads its paths against the current directory, then checks all that
it needs, and only then changes the tree, so that a refusal leaves the tree as it was. What an
operation takes from outside, the time and ids for new nodes, is a `Supply`. The time is read anew for
each change that is made.
-/

namespace VirtualShell

open Calendar

/-- A source of ids for new nodes: whatever ids are in use, it gives another one. -/
structure IdSource where
  pick : List NodeId → NodeId
  pick_fresh : ∀ used, pick used ∉ used

/-- The clock while something is done. What is done in turns reads it anew at each turn, and a turn may
be done in turns as well: a reading is named by the numbers of the turns that lead to it. -/
structure Clock where
  reading : List Nat → Instant

namespace Clock

/-- A clock that stands still. -/
def still (now : Instant) : Clock := ⟨fun _ => now⟩

instance : Coe Instant Clock := ⟨still⟩

/-- The first reading. -/
def now (c : Clock) : Instant := c.reading []

/-- The clock during a turn. -/
def turn (c : Clock) (i : Nat) : Clock := ⟨fun turns => c.reading (i :: turns)⟩

end Clock

/-- What operations take from outside. -/
structure Supply where
  clock : Clock
  ids : IdSource

namespace Supply

/-- The time at which something is done that is not done in turns. -/
def now (s : Supply) : Instant := s.clock.now

/-- The supply of a turn. -/
def turn (s : Supply) (i : Nat) : Supply := { s with clock := s.clock.turn i }

end Supply

namespace Metadata

/-- The metadata of a new file or directory. -/
def forContent (content : Content) (now : Instant) : Metadata :=
  match content with
  | .file text => ⟨"-rw-r--r--", "user", "user", text.utf8ByteSize, now, now⟩
  | .directory _ => ⟨"drwxr-xr-x", "user", "user", 0, now, now⟩

end Metadata

namespace FileTree

/-- Changes the node with a given id. -/
def modifyNode (t : FileTree) (id : NodeId) (f : Node → Node) : FileTree :=
  { t with nodes := t.nodes.modify id f }

/-! ## Reading -/

/-- The children of the directory that typed input names. -/
def list (t : FileTree) (path : String) : Except TreeError (List Node) :=
  match t.find? path with
  | none => .error (.notFound (t.resolve path))
  | some n =>
    if n.isDirectory then .ok (t.childNodes n) else .error (.notADirectory (t.resolve path))

/-- The text of the file that typed input names. -/
def read (t : FileTree) (path : String) : Except TreeError String :=
  match t.find? path with
  | none => .error (.notFound (t.resolve path))
  | some n =>
    match n.content with
    | .file text => .ok text
    | .directory _ => .error (.isADirectory (t.resolve path))

/-! ## The current directory -/

/-- Makes the directory that typed input names the current one. -/
def changeDirectory (t : FileTree) (path : String) : Except TreeError FileTree :=
  match t.find? path with
  | none => .error (.notFound (t.resolve path))
  | some n =>
    if n.isDirectory then .ok { t with cwd := n.id }
    else .error (.notADirectory (t.resolve path))

/-! ## New nodes -/

/-- Puts a new node beneath a directory, at the end of its children and of the node order. The
caller has checked that the name is valid and free. -/
def attach (t : FileTree) (s : Supply) (parent : NodeId) (parentPath name : String)
    (content : Content) (readOnly : Bool) : FileTree × Node :=
  let id := s.ids.pick t.ids
  let node : Node :=
    { id, name, path := Path.join parentPath name, parent := some parent, content,
      metadata := .forContent content s.now, readOnly }
  let listed := t.modifyNode parent (·.mapChildren (· ++ [id]))
  ({ listed with nodes := listed.nodes.insertNew id node }, node)

/-- Creates a node with a given name in the directory that `parent` names. -/
def createEntry (t : FileTree) (s : Supply) (name parent : String) (content : Content) :
    Except TreeError (FileTree × Node) :=
  let parentPath := t.resolve parent
  if !validName name then .error (.invalidName name)
  else match t.lookup? parentPath with
    | none => .error (.notFound parentPath)
    | some d =>
      if !d.isDirectory then .error (.notADirectory parentPath)
      else if (t.lookup? (Path.join parentPath name)).isSome then
        .error (.alreadyExists (Path.join parentPath name))
      else .ok (t.attach s d.id parentPath name content false)

/-- Creates a file. -/
def createFile (t : FileTree) (s : Supply) (name parent text : String) :
    Except TreeError (FileTree × Node) :=
  t.createEntry s name parent (.file text)

/-- Creates an empty directory. -/
def createDirectory (t : FileTree) (s : Supply) (name parent : String) :
    Except TreeError (FileTree × Node) :=
  t.createEntry s name parent (.directory [])

/-- The missing directories on the way down from `current`, each with the path of its parent. The
way ends at a file, which is a refusal. -/
def missingBelow (t : FileTree) (current : String) :
    List String → Except TreeError (List (String × String))
  | [] => .ok []
  | name :: rest =>
    let next := Path.join current name
    match t.lookup? next with
    | some n => if n.isDirectory then t.missingBelow next rest else .error (.notADirectory next)
    | none => .ok (chain current (name :: rest))
where
  /-- Every name of a list with the path of the names before it. -/
  chain (current : String) : List String → List (String × String)
    | [] => []
    | name :: rest => (current, name) :: chain (Path.join current name) rest

/-- Creates directories, each with the path of its parent, from the `i`-th turn on. -/
def createAll (s : Supply) (i : Nat) (t : FileTree) :
    List (String × String) → Except TreeError FileTree
  | [] => .ok t
  | (parent, name) :: rest => do
    let (t, _) ← t.createDirectory (s.turn i) name parent
    createAll s (i + 1) t rest

/-- Creates the directory that typed input names and all that are missing above it, the uppermost
first. -/
def createPath (t : FileTree) (s : Supply) (path : String) : Except TreeError FileTree := do
  let names := (Path.segments (t.resolve path)).filter (· ≠ "")
  let missing ← t.missingBelow "/" names
  t.createAll s 0 missing

/-! ## Removal -/

/-- Takes a node and all beneath it out of the tree. If the current directory was among them, the
parent becomes the current one. -/
def detach (t : FileTree) (parent id : NodeId) : FileTree :=
  let doomed := t.subtree id
  { t with
      nodes := (t.nodes.filterKeys fun k => !doomed.contains k).modify parent
        (·.mapChildren (·.filter (· ≠ id)))
      cwd := if doomed.contains t.cwd then parent else t.cwd }

/-- Removes what typed input names and all beneath it, and says how many nodes went. A read-only
node anywhere among them, the first in preorder being named, forbids it. -/
def delete (t : FileTree) (path : String) : Except TreeError (FileTree × Nat) :=
  match t.find? path with
  | none => .error (.notFound (t.resolve path))
  | some n =>
    match n.parent with
    | none => .error (.isRoot "delete")
    | some parent =>
      let doomed := t.subtree n.id
      match (doomed.filterMap t.node?).find? (·.readOnly) with
      | some locked => .error (.readOnly locked.path)
      | none => .ok (t.detach parent n.id, doomed.length)

/-! ## Moving -/

/-- Takes the front `old` off a path and puts `new` in its place; other paths stay. -/
def rebase (old new path : String) : String :=
  match Path.stripFront? old path with
  | some rest => new ++ rest
  | none => path

/-- Gives a node a new name and parent, and every path beneath it a new front. -/
def relocate (t : FileTree) (now : Instant) (id oldParent newParent : NodeId)
    (oldPath newPath name : String) : FileTree :=
  let listed :=
    if oldParent = newParent then t
    else (t.modifyNode oldParent (·.mapChildren (·.filter (· ≠ id)))).modifyNode newParent
      (·.mapChildren (· ++ [id]))
  let moved := listed.subtree id
  { listed with
      nodes := listed.nodes.mapValues fun k n =>
        let n :=
          if k = id then
            { n with parent := some newParent, name,
                     metadata := { n.metadata with modified := now } }
          else n
        if moved.contains k then { n with path := rebase oldPath newPath n.path } else n }

/-- Moves what `source` names into the directory that `dest` names, under a new name. -/
def moveAs (t : FileTree) (s : Supply) (source dest name : String) : Except TreeError FileTree :=
  let src := t.resolve source
  let dst := t.resolve dest
  match t.lookup? src with
  | none => .error (.notFound src)
  | some n =>
    match n.parent with
    | none => .error (.isRoot "move")
    | some oldParent =>
      if n.readOnly then .error (.readOnly src)
      else if !validName name then .error (.invalidName name)
      else match t.lookup? dst with
        | none => .error (.notFound dst)
        | some d =>
          let newPath := Path.join dst name
          if !d.isDirectory then .error (.notADirectory dst)
          else if Path.isWithin dst src then .error (.intoItself src dst)
          else if (t.lookup? newPath).isSome then .error (.alreadyExists newPath)
          else .ok (t.relocate s.now n.id oldParent d.id src newPath name)

/-- Moves what `source` names into a directory, under the name it has. -/
def move (t : FileTree) (s : Supply) (source dest : String) : Except TreeError FileTree :=
  let src := t.resolve source
  match t.lookup? src with
  | none => .error (.notFound src)
  | some n =>
    if n.parent.isNone then .error (.isRoot "move") else t.moveAs s src dest n.name

/-- Gives what typed input names a new name in its directory. -/
def rename (t : FileTree) (s : Supply) (path name : String) : Except TreeError FileTree :=
  let src := t.resolve path
  t.moveAs s src (Path.dirname src) name

/-! ## Changing a node in place -/

/-- Replaces the text of the file that typed input names. -/
def write (t : FileTree) (s : Supply) (path text : String) : Except TreeError FileTree :=
  let resolved := t.resolve path
  match t.lookup? resolved with
  | none => .error (.notFound resolved)
  | some n =>
    if !n.isFile then .error (.isADirectory resolved)
    else if n.readOnly then .error (.readOnly resolved)
    else .ok (t.modifyNode n.id fun n =>
      { n with content := .file text,
               metadata := { n.metadata with size := text.utf8ByteSize, modified := s.now } })

/-- Sets the modification time of what typed input names. -/
def touch (t : FileTree) (s : Supply) (path : String) : Except TreeError FileTree :=
  let resolved := t.resolve path
  match t.lookup? resolved with
  | none => .error (.notFound resolved)
  | some n =>
    if n.readOnly then .error (.readOnly resolved)
    else .ok (t.modifyNode n.id fun n =>
      { n with metadata := { n.metadata with modified := s.now } })

end FileTree

end VirtualShell
