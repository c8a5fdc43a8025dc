import VirtualShell.Terminal

/-!
# Work in place

The operations once more, as work on a tree or a terminal that changes write by write. A refusal
undoes nothing: what was written before it stays written. So here it matters that all checks come
before the first write, which in `FileTree.Work.createPath` and `Terminal.restore` is not plain from
their text: both go on with steps that have refusals of their own.
-/

namespace VirtualShell

namespace FileTree

/-- Work on a tree, which may end in a refusal. -/
abbrev Work (α : Type) := EStateM TreeError FileTree α

namespace Work

/-- The node at a path in normal form. -/
def node (path : String) : Work Node := do
  match (← get).lookup? path with
  | some n => return n
  | none => throw (.notFound path)

/-- Refuses if a condition holds. -/
def refuseIf (condition : Bool) (e : TreeError) : Work Unit :=
  if condition then throw e else return ()

/-- The parent of a node that is not the root. -/
def parentOf (n : Node) (operation : String) : Work NodeId :=
  match n.parent with
  | some p => return p
  | none => throw (.isRoot operation)

/-- Changes the list of children of a directory. -/
def relist (id : NodeId) (f : List NodeId → List NodeId) : Work Unit :=
  modify (·.modifyNode id (·.mapChildren f))

def changeDirectory (path : String) : Work Unit := do
  let resolved := (← get).resolve path
  let n ← node resolved
  refuseIf (!n.isDirectory) (.notADirectory resolved)
  modify fun t => { t with cwd := n.id }

/-- Lists a new node in its directory, then adds it. -/
def attach (s : Supply) (parent : NodeId) (parentPath name : String) (content : Content)
    (readOnly : Bool) : Work Node := do
  let id := s.ids.pick (← get).ids
  let n : Node :=
    { id, name, path := Path.join parentPath name, parent := some parent, content,
      metadata := .forContent content s.now, readOnly }
  relist parent (· ++ [id])
  modify fun t => { t with nodes := t.nodes.insertNew id n }
  return n

def createEntry (s : Supply) (name parent : String) (content : Content) : Work Node := do
  refuseIf (!validName name) (.invalidName name)
  let parentPath := (← get).resolve parent
  let d ← node parentPath
  refuseIf (!d.isDirectory) (.notADirectory parentPath)
  let path := Path.join parentPath name
  refuseIf ((← get).lookup? path).isSome (.alreadyExists path)
  attach s d.id parentPath name content false

def createFile (s : Supply) (name parent text : String) : Work Node :=
  createEntry s name parent (.file text)

def createDirectory (s : Supply) (name parent : String) : Work Node :=
  createEntry s name parent (.directory [])

/-- Creates directories, each with the path of its parent, from the `i`-th turn on. -/
def createAll (s : Supply) (i : Nat) : List (String × String) → Work Unit
  | [] => return ()
  | (parent, name) :: rest => do
    let _ ← createDirectory (s.turn i) name parent
    createAll s (i + 1) rest

/-- Finds what is missing on the way, then creates it directory by directory. -/
def createPath (s : Supply) (path : String) : Work Unit := do
  let t ← get
  match t.missingBelow "/" ((Path.segments (t.resolve path)).filter (· ≠ "")) with
  | .error e => throw e
  | .ok missing => createAll s 0 missing

/-- The writes of a removal: the current directory if it is among the nodes to go, these one by one,
and the list of the directory that held their top. -/
def detach (parent id : NodeId) (doomed : List NodeId) : Work Unit := do
  if doomed.contains (← get).cwd then modify fun t => { t with cwd := parent }
  doomed.forM fun k => modify fun t => { t with nodes := t.nodes.erase k }
  relist parent (·.filter (· ≠ id))

def delete (path : String) : Work Nat := do
  let t ← get
  let n ← node (t.resolve path)
  let parent ← parentOf n "delete"
  let doomed := t.subtree n.id
  match (doomed.filterMap t.node?).find? (·.readOnly) with
  | some locked => throw (.readOnly locked.path)
  | none =>
    detach parent n.id doomed
    return doomed.length

/-- The writes of a move: the lists of both directories, the node itself, then path by path the
nodes beneath it. -/
def relocate (s : Supply) (id oldParent newParent : NodeId) (oldPath newPath name : String) :
    Work Unit := do
  if oldParent ≠ newParent then
    relist oldParent (·.filter (· ≠ id))
    relist newParent (· ++ [id])
  let moved := (← get).subtree id
  modify (·.modifyNode id fun n =>
    { n with parent := some newParent, name, metadata := { n.metadata with modified := s.now } })
  moved.forM fun k => modify (·.modifyNode k fun n =>
    { n with path := rebase oldPath newPath n.path })

def moveAs (s : Supply) (source dest name : String) : Work Unit := do
  let src := (← get).resolve source
  let dst := (← get).resolve dest
  let n ← node src
  let oldParent ← parentOf n "move"
  refuseIf n.readOnly (.readOnly src)
  refuseIf (!validName name) (.invalidName name)
  let d ← node dst
  refuseIf (!d.isDirectory) (.notADirectory dst)
  refuseIf (Path.isWithin dst src) (.intoItself src dst)
  let newPath := Path.join dst name
  refuseIf ((← get).lookup? newPath).isSome (.alreadyExists newPath)
  relocate s n.id oldParent d.id src newPath name

def move (s : Supply) (source dest : String) : Work Unit := do
  let src := (← get).resolve source
  let n ← node src
  refuseIf n.parent.isNone (.isRoot "move")
  moveAs s src dest n.name

def rename (s : Supply) (path name : String) : Work Unit := do
  let src := (← get).resolve path
  moveAs s src (Path.dirname src) name

def write (s : Supply) (path text : String) : Work Unit := do
  let resolved := (← get).resolve path
  let n ← node resolved
  refuseIf (!n.isFile) (.isADirectory resolved)
  refuseIf n.readOnly (.readOnly resolved)
  modify (·.modifyNode n.id fun n =>
    { n with content := .file text,
             metadata := { n.metadata with size := text.utf8ByteSize, modified := s.now } })

def touch (s : Supply) (path : String) : Work Unit := do
  let resolved := (← get).resolve path
  let n ← node resolved
  refuseIf n.readOnly (.readOnly resolved)
  modify (·.modifyNode n.id fun n =>
    { n with metadata := { n.metadata with modified := s.now } })

end Work

/-- Puts a decoded tree in the place of the present one, if it is consistent. -/
def importTree (stored : FileTree) : EStateM ImportError FileTree Unit :=
  match stored.defect? with
  | some d => throw (.inconsistent d)
  | none => set stored

/-- Reads a stored tree and puts it in the place of the present one. -/
def importSnapshot (text : String) : EStateM ImportError FileTree Unit :=
  match (Json.parse? text).bind (FileTree.decode? Json.depthLimit) with
  | some stored => importTree stored
  | none => throw .undecodable

end FileTree

namespace Terminal

/-- Work on the tree of a terminal. -/
def onTree {ε α : Type} (work : EStateM ε FileTree α) : EStateM ε Terminal α := fun t =>
  match work.run t.world.tree with
  | .ok a tree => .ok a { t with world := { t.world with tree } }
  | .error e tree => .error e { t with world := { t.world with tree } }

/-- Changes the session of a terminal. -/
def onSession (f : Session → Session) : EStateM ImportError Terminal Unit :=
  modify fun t => { t with world := { t.world with session := f t.world.session } }

/-- Restores a saved state: first the tree, then the session field by field. -/
def restore (now : Calendar.Instant) (text : String) : EStateM ImportError Terminal Unit := do
  match SavedState.ofText? text with
  | none => throw .undecodable
  | some state =>
    onTree (FileTree.importTree state.tree)
    let t ← get
    let cwd := t.world.tree.currentDirectory
    onSession fun _ => .start t.options cwd now
    state.session.history.forM fun line => onSession (·.record line t.options.maxHistory)
    onSession fun s => { s with aliases := state.session.aliases }
    onSession fun s => { s with env := state.session.env }
    onSession fun s => { s with env := s.env.insert "PWD" cwd }

end Terminal

end VirtualShell
