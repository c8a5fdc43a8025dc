import VirtualShell.Shell
import VirtualShell.Snapshot
import VirtualShell.Tree.Seed

/-!
# Terminals

A tree and a shell set up with options, and the saved state of both. Restoring a saved state
first decodes and checks all of it; only then does anything change.
-/

namespace VirtualShell

open Json

/-- The part of a session that is saved. -/
structure SavedSession where
  history : List String
  aliases : OrderedMap String String
  env : OrderedMap String String
  deriving DecidableEq

/-- The saved state of a terminal. -/
structure SavedState where
  tree : FileTree
  session : SavedSession
  deriving DecidableEq

namespace SavedState

/-- The members of an object of strings. -/
def encodeMap (m : OrderedMap String String) : Value :=
  .record (m.entries.map fun e => (e.1, .text e.2))

/-- Reads a map of strings; a key that comes again gets its new value in its old place. -/
def decodeMap? (v : Value) : Option (OrderedMap String String) := v.textMembers?.map .ofList

def encode (s : SavedState) : Value :=
  .record [("filesystem", s.tree.encode),
    ("session", .record [("history", .array (s.session.history.map .text)),
      ("aliases", encodeMap s.session.aliases), ("env", encodeMap s.session.env)])]

/-- Reads an optional field; a missing one has a default. -/
def optional? {α : Type} (default : α) (read : Value → Option α) : Option Value → Option α
  | none => some default
  | some v => read v

/-- Reads a session, all of whose fields may be missing. -/
def decodeSession? (v : Value) : Option SavedSession := do
  let f ← fields? ["history", "aliases", "env"] v
  return {
    history := ← optional? [] Value.texts? (f.get? 0)
    aliases := ← optional? .empty decodeMap? (f.get? 1)
    env := ← optional? .empty decodeMap? (f.get? 2) }

def decode? (v : Value) : Option SavedState := do
  let f ← fields? ["filesystem", "session"] v
  return {
    tree := ← FileTree.decode? (depthLimit - 1) (← f.get? 0)
    session := ← decodeSession? (← f.get? 1) }

/-- The text of a saved state. -/
def toText (s : SavedState) : String := s.encode.toText

/-- Reads the text of a saved state, without checking its tree. -/
def ofText? (text : String) : Option SavedState := (parse? text).bind decode?

end SavedState

/-- A tree and a shell with its options. -/
structure Terminal where
  options : Options
  world : World

namespace Terminal

/-- Goes to the directory to start in, if there is one and it exists. -/
def enterStartDir (o : Options) (t : FileTree) : FileTree :=
  match o.startDir with
  | none => t
  | some dir =>
    match t.changeDirectory dir with
    | .ok t => t
    | .error _ => t

/-- A terminal with the starter layout and a fresh session, which is begun in the turn behind those of
the layout. -/
def start (o : Options) (s : Supply) : Terminal :=
  let tree := enterStartDir o (.seed s)
  ⟨o, tree, .start o tree.currentDirectory (s.turn Seed.layout.length).now⟩

/-- The same terminal with the starter layout and a fresh session. -/
def reset (t : Terminal) (s : Supply) : Terminal := start t.options s

/-- Executes a line of input. -/
def exec (t : Terminal) (s : Supply) (input : String) : ExecResult × Terminal :=
  let (result, world) := Shell.exec ⟨s, t.options⟩ t.world input
  (result, { t with world })

/-- The prompt for the present state. -/
def prompt (t : Terminal) : String :=
  VirtualShell.prompt t.options.user t.options.hostname t.world.tree.currentDirectory Path.home

/-- Selects an earlier line of the history. -/
def up (t : Terminal) : Shown × Terminal :=
  let (shown, session) := t.world.session.up
  (shown, { t with world := { t.world with session } })

/-- Selects a later line of the history. -/
def down (t : Terminal) : String × Terminal :=
  let (line, session) := t.world.session.down
  (line, { t with world := { t.world with session } })

/-- Changes the line in the making. -/
def setDraft (t : Terminal) (draft : String) : Terminal :=
  { t with world := { t.world with session := t.world.session.setDraft draft } }

/-- What is saved of a terminal. -/
def saved (t : Terminal) : SavedState :=
  let s := t.world.session
  ⟨t.world.tree, s.history, s.aliases, s.env⟩

/-- The saved state as a text. -/
def exportState (t : Terminal) : String := t.saved.toText

/-- A fresh session that takes over what was saved. The variable for the current directory is set
anew. -/
def resume (o : Options) (cwd : String) (now : Calendar.Instant) (saved : SavedSession) : Session :=
  let fresh : Session :=
    saved.history.foldl (fun (s : Session) line => s.record line o.maxHistory) (.start o cwd now)
  { fresh with aliases := saved.aliases, env := saved.env.insert "PWD" cwd }

/-- Restores a saved state. -/
def importState (t : Terminal) (now : Calendar.Instant) (text : String) :
    Except ImportError Terminal :=
  match SavedState.ofText? text with
  | none => .error .undecodable
  | some state =>
    match state.tree.accept with
    | .error e => .error e
    | .ok tree => .ok ⟨t.options, tree, resume t.options tree.currentDirectory now state.session⟩

end Terminal

end VirtualShell
