import VirtualShell.Calendar.Stamp
import VirtualShell.Json.Decode
import VirtualShell.Tree.Consistent

/-!
# Snapshots

The stored form of a tree: encoding and decoding of its parts, and the import of a stored tree,
which is decoded first and then checked before it is taken.
-/

namespace VirtualShell

open Json Calendar

namespace NodeId

def encode (id : NodeId) : Value := .text id.text

def decode? (v : Value) : Option NodeId := v.text?.map NodeId.mk

end NodeId

namespace Content

/-- A file or a directory, told apart by its `type`. -/
def encode : Content → Value
  | .file text => .record [("type", .text "file"), ("content", .text text)]
  | .directory children =>
    .record [("type", .text "directory"), ("children", .array (children.map NodeId.encode))]

/-- Reads what follows the type of a file or directory. -/
def decodeBody? (type : String) (body : Value) : Option Content :=
  if type = "file" then do
    let f ← fields? ["content"] body
    return .file (← (← f.get? 0).text?)
  else if type = "directory" then do
    let f ← fields? ["children"] body
    return .directory (← (← (← f.get? 0).items?).mapM NodeId.decode?)
  else none

/-- Reads a file or a directory: an object with one `type` among its members, or an array that
begins with the type. All of the value must be sound. -/
def decode? (depth : Nat) (v : Value) : Option Content :=
  if !v.isSound depth then none
  else match v with
    | .array (type :: rest) => do decodeBody? (← type.text?) (.array rest)
    | .object _ => do
      let members ← v.members?
      match members.partition fun m => m.1 == "type" with
      | ([type], rest) => decodeBody? (← type.2.text?) (.record rest)
      | _ => none
    | _ => none

end Content

namespace Metadata

def encode (m : Metadata) : Value :=
  .record [("permissions", .text m.permissions), ("owner", .text m.owner),
    ("group", .text m.group), ("size", .count m.size), ("created", .text m.created.stamp),
    ("modified", .text m.modified.stamp)]

def decode? (v : Value) : Option Metadata := do
  let f ← fields? ["permissions", "owner", "group", "size", "created", "modified"] v
  return {
    permissions := ← (← f.get? 0).text?
    owner := ← (← f.get? 1).text?
    group := ← (← f.get? 2).text?
    size := ← (← f.get? 3).count?
    created := ← Instant.ofStamp? (← (← f.get? 4).text?)
    modified := ← Instant.ofStamp? (← (← f.get? 5).text?) }

end Metadata

namespace Node

def encode (n : Node) : Value :=
  .record [("id", n.id.encode), ("name", .text n.name), ("path", .text n.path),
    ("parent", match n.parent with
      | some p => p.encode
      | none => .null),
    ("kind", n.content.encode), ("metadata", n.metadata.encode), ("read_only", .bool n.readOnly)]

/-- Reads the parent of a node: an id, or nothing. -/
def decodeParent? : Value → Option (Option NodeId)
  | .null => some none
  | v => (NodeId.decode? v).map some

/-- Reads a node. A record by name may leave out the parent and the read-only flag, one by
position only the flag. -/
def decode? (depth : Nat) (v : Value) : Option Node := do
  let f ← fields? ["id", "name", "path", "parent", "kind", "metadata", "read_only"] v
  let parent ← match f.get? 3 with
    | some p => decodeParent? p
    | none => if f.positional then none else some none
  let readOnly ← match f.get? 6 with
    | some flag => flag.bool?
    | none => some false
  return {
    id := ← NodeId.decode? (← f.get? 0)
    name := ← (← f.get? 1).text?
    path := ← (← f.get? 2).text?
    parent
    content := ← Content.decode? depth (← f.get? 4)
    metadata := ← Metadata.decode? (← f.get? 5)
    readOnly }

end Node

namespace FileTree

def encode (t : FileTree) : Value :=
  .record [("nodes", .record (t.nodes.entries.map fun e => (e.1.text, e.2.encode))),
    ("root", t.root.encode), ("cwd", t.cwd.encode)]

/-- Reads a tree that stands so deep inside a text that `depth` levels remain for it. -/
def decode? (depth : Nat) (v : Value) : Option FileTree := do
  let f ← fields? ["nodes", "root", "cwd"] v
  let members ← (← f.get? 0).members?
  let bindings ← members.mapM fun m => (Node.decode? (depth - 3) m.2).map (NodeId.mk m.1, ·)
  return {
    nodes := .ofList bindings
    root := ← NodeId.decode? (← f.get? 1)
    cwd := ← NodeId.decode? (← f.get? 2) }

/-- The stored form of a tree. -/
def toSnapshot (t : FileTree) : String := t.encode.toText

end FileTree

/-- Why a stored tree was not taken. -/
inductive ImportError where
  /-- The text does not decode. -/
  | undecodable
  | inconsistent (defect : Defect)
  deriving DecidableEq, Repr

/-- Takes a decoded tree if it is consistent. -/
def FileTree.accept (t : FileTree) : Except ImportError FileTree :=
  match t.defect? with
  | some d => .error (.inconsistent d)
  | none => .ok t

/-- Reads a stored tree and checks it. -/
def FileTree.ofSnapshot (text : String) : Except ImportError FileTree :=
  match (parse? text).bind (FileTree.decode? depthLimit) with
  | some t => t.accept
  | none => .error .undecodable

end VirtualShell
