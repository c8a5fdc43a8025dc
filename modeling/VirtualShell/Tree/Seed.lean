import VirtualShell.Tree.Edit

/-!
# The starter layout

The tree that every new environment begins with. Parents come before their children in the
layout, so that each entry finds its parent.
-/

namespace VirtualShell

namespace FileTree

/-- The tree that holds only its root directory. -/
def empty (s : Supply) : FileTree :=
  let id := s.ids.pick []
  let root : Node :=
    { id, name := "", path := "/", parent := none, content := .directory [],
      metadata := .forContent (.directory []) s.now, readOnly := false }
  { nodes := .ofList [(id, root)], root := id, cwd := id }

end FileTree

namespace Seed

/-- An entry of the layout. -/
structure Entry where
  parent : String
  name : String
  content : Content
  readOnly : Bool

/-- A directory that can be changed. -/
def dir (parent name : String) : Entry := ⟨parent, name, .directory [], false⟩

/-- A file that can be changed. -/
def file (parent name text : String) : Entry := ⟨parent, name, .file text, false⟩

/-- The same entry, read-only. -/
def Entry.locked (e : Entry) : Entry := { e with readOnly := true }

def bootText : String :=
  "# core boot configuration (managed by the system)\nkernel=simcore-2.4\n" ++
    "integrity_checks=enabled\n"

def readmeText : String :=
  "Welcome to your training workstation.\n\nUse `ls`, `cd` and `cat` to look around, and " ++
    "`man <command>` to learn more.\nYour missions are waiting in /missions.\n"

def profileText : String :=
  "# ~/.profile: executed by the shell at login\nexport PATH=/bin:/usr/bin\n" ++
    "alias ll=\"ls -la\"\nalias la=\"ls -a\"\n"

def logText : String :=
  "[boot] system initialized\n[boot] mounting virtual filesystem\n[info] user session opened\n"

/-- The entries, each after its parent. -/
def layout : List Entry :=
  [(dir "/" "system").locked, (file "/system" "boot.cfg" bootText).locked, dir "/" "home",
    dir "/home" "user", file Path.home "readme.txt" readmeText,
    file Path.home ".profile" profileText, dir "/" "missions", dir "/" "data",
    dir "/data" "logs", file "/data/logs" "system.log" logText, dir "/" "snapshots",
    dir "/" "tmp"]

/-- Adds one entry beneath its parent. -/
def Entry.plant (s : Supply) (t : FileTree) (e : Entry) : FileTree :=
  match t.find? e.parent with
  | some parent => (t.attach s parent.id e.parent e.name e.content e.readOnly).1
  | none => t

/-- Adds entries, from the `i`-th turn on. -/
def plantAll (s : Supply) (i : Nat) (t : FileTree) : List Entry → FileTree
  | [] => t
  | e :: rest => plantAll s (i + 1) (e.plant (s.turn i) t) rest

end Seed

/-- The starter layout, with the home directory as the current one. -/
def FileTree.seed (s : Supply) : FileTree :=
  let t := Seed.plantAll s 0 (.empty s) Seed.layout
  match t.find? Path.home with
  | some home => { t with cwd := home.id }
  | none => t

end VirtualShell
