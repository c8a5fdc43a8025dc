import VirtualShell.Host.Path
import VirtualShell.OrderedMap

/-!
# The host's files

The part of the host's file system that the program works on: which names there are, what they stand
for and the directory that relative paths begin at. A name stands for a directory, a file or a
symbolic link, and several names may stand for one file or link. A path is followed through the
symbolic links that it meets. An operation takes effect as a whole or is refused and changes nothing.
Main statement: `textOf?_eq_some` says which bytes are read as a text.
-/

namespace VirtualShell

/-- A place in the file system: the names on the way from the root. -/
abbrev Place := List String

/-- The bytes of a text. -/
def bytesOf (text : String) : List UInt8 := text.toUTF8.data.toList

/-- The text that some bytes are, if they are the bytes of one. -/
def textOf? (bytes : List UInt8) : Option String := String.fromUTF8? ⟨bytes.toArray⟩

/-- Bytes are read as the text that they are the bytes of. -/
theorem textOf?_eq_some {bytes : List UInt8} {text : String} :
    textOf? bytes = some text ↔ bytes = bytesOf text := by
  constructor
  · intro h
    unfold textOf? String.fromUTF8? at h
    split at h
    · cases h
      rfl
    · cases h
  · rintro rfl
    rw [textOf?, bytesOf, Array.toArray_toList, String.fromUTF8?, String.toUTF8,
      dif_pos text.isValidUTF8]
    rfl

/-- What stands at a place. -/
inductive HostEntry where
  | directory
  | content (bytes : List UInt8)
  /-- A symbolic link. Its target is looked up from the directory that the link is in. -/
  | link (target : HostPath)
  deriving DecidableEq, Repr

/-- A file with a text in it. -/
def HostEntry.file (text : String) : HostEntry := .content (bytesOf text)

/-- Why an operation is refused. -/
inductive HostError where
  /-- There is nothing at the place, or at a place on the way. -/
  | missing
  | refused
  deriving DecidableEq, Repr

/-- The files and directories of the host. -/
structure Host where
  /-- The number of what stands at a place. Places with one number are names of one file or link. -/
  numbers : OrderedMap Place Nat
  /-- What has been made so far, by its number. -/
  entries : List HostEntry
  /-- The working directory. It exists, and so do the directories above it. -/
  here : Place
  deriving DecidableEq, Repr

/-- The place that a path begins at when it is looked up from a directory. -/
def HostPath.start (path : HostPath) (dir : Place) : Place := if path.absolute then [] else dir

/-- The course of following a path. -/
structure Way where
  /-- The places of the names that were looked up, in order. -/
  names : List Place
  /-- Where it ends, and how many more links may be followed. -/
  outcome : Except HostError (Place × Nat)

namespace Way

/-- A way that ends at once. -/
def broken (e : HostError) : Way := ⟨[], .error e⟩

/-- A way that begins at a name. -/
def through (name : Place) (w : Way) : Way := { w with names := name :: w.names }

/-- A way that goes on where another one ends. -/
def andThen (w : Way) (next : Place → Nat → Way) : Way :=
  match w.outcome with
  | .error _ => w
  | .ok (p, links) => { next p links with names := w.names ++ (next p links).names }

end Way

namespace Host

/-- A host with nothing but a working directory. -/
def bare (here : Place) : Host := ⟨.empty, [], here⟩

/-- The number of what stands at a place. The directories down to the working directory have none. -/
def number? (h : Host) (p : Place) : Option Nat :=
  if p.isPrefixOf h.here then none else h.numbers.get? p

/-- What stands at a place. -/
def at? (h : Host) (p : Place) : Option HostEntry :=
  if p.isPrefixOf h.here then some .directory else (h.numbers.get? p).bind (h.entries[·]?)

/-- Two places are names of one file or link. -/
def SameFile (h : Host) (p q : Place) : Prop := h.number? p ≠ none ∧ h.number? p = h.number? q

instance (h : Host) (p q : Place) : Decidable (h.SameFile p q) :=
  inferInstanceAs (Decidable (_ ∧ _))

/-! ## Changes -/

/-- Puts something new at a place. -/
def put (h : Host) (p : Place) (e : HostEntry) : Host :=
  { h with numbers := h.numbers.insert p h.entries.length, entries := h.entries ++ [e] }

/-- Puts something in place of what has a place as one of its names. -/
def overwrite (h : Host) (p : Place) (e : HostEntry) : Host :=
  match h.number? p with
  | none => h
  | some i => { h with entries := h.entries.set i e }

/-- Gives what stands at a place another name instead. -/
def rename (h : Host) (p q : Place) : Host :=
  match h.number? p with
  | none => h
  | some i => { h with numbers := (h.numbers.erase p).insert q i }

/-! ## Following paths -/

/-- The most links that the host follows for one path. -/
def linkLimit : Nat := 40

/-- Moves on from a place, which must be a directory. `follow` goes on behind a link. -/
def stretch (h : Host) (links : Nat) (follow : Place → List HostPath.Move → Way) (p : Place) :
    List HostPath.Move → Way
  | [] => ⟨[], .ok (p, links)⟩
  | move :: moves =>
    match h.at? p with
    | none => .broken .missing
    | some .directory =>
      match move with
      | .stay => h.stretch links follow p moves
      | .up => h.stretch links follow p.dropLast moves
      | .down name =>
        if HostPath.nameLimit < name.utf8ByteSize then .broken .refused
        else match h.at? (p ++ [name]) with
          | some (.link target) =>
            (follow (target.start p) (target.moves ++ moves)).through (p ++ [name])
          | _ => (h.stretch links follow (p ++ [name]) moves).through (p ++ [name])
    | some _ => .broken .refused

/-- Moves on from a place, through a number of links at most. -/
def way (h : Host) : Nat → Place → List HostPath.Move → Way
  | 0 => h.stretch 0 fun _ _ => .broken .refused
  | links + 1 => h.stretch (links + 1) (h.way links)

/-- The way that a path says. -/
def wayOf (h : Host) (path : HostPath) : Way :=
  if path.isEmpty then .broken .missing
  else if path.isLegal then h.way linkLimit (path.start h.here) path.moves
  else .broken .refused

/-- The place that a path leads to. Something need not stand there unless the path says that it is a
directory. -/
def locate (h : Host) (path : HostPath) : Except HostError Place :=
  (h.wayOf path).outcome.map Prod.fst

/-- The place of the name that a path ends in; a link there is not followed. A path that ends in no
name leads to a directory. -/
def locateName (h : Host) (path : HostPath) : Except HostError Place :=
  match path.fileName? with
  | none => h.locate path
  | some name =>
    if path.directory then h.locate path
    else if path.isLegal then do
      let (dir, _) ← (h.way linkLimit (path.start h.here) path.folder.moves).outcome
      if HostPath.nameLimit < name.utf8ByteSize then .error .refused else .ok (dir ++ [name])
    else .error .refused

/-! ## Operations -/

/-- The text of a file. A file that holds no text is refused. -/
def read (h : Host) (path : HostPath) : Except HostError String := do
  match h.at? (← h.locate path) with
  | none => .error .missing
  | some (.content bytes) =>
    match textOf? bytes with
    | none => .error .refused
    | some text => .ok text
  | some _ => .error .refused

/-- Makes a directory unless it is there. -/
def ensureDirectory (h : Host) (path : HostPath) : Except HostError Host := do
  let p ← h.locateName path
  match h.at? p with
  | none => .ok (h.put p .directory)
  | some _ => if h.at? (← h.locate path) = some .directory then .ok h else .error .refused

/-- Writes bytes into a file, new or in place of what it holds. -/
def writeBytes (h : Host) (path : HostPath) (bytes : List UInt8) : Except HostError Host := do
  let p ← h.locate path
  match h.at? p with
  | none => .ok (h.put p (.content bytes))
  | some (.content _) => .ok (h.overwrite p (.content bytes))
  | some _ => .error .refused

/-- Writes a text into a file. -/
def write (h : Host) (path : HostPath) (text : String) : Except HostError Host :=
  h.writeBytes path (bytesOf text)

/-- Gives a file or link a new name, in place of the file or link that has it. Nothing happens where
both are names of one file. -/
def renameFile (h : Host) (source target : HostPath) : Except HostError Host := do
  let p ← h.locateName source
  let q ← h.locateName target
  match h.at? p, h.at? q with
  | none, _ => .error .missing
  | some .directory, _ => .error .refused
  | _, some .directory => .error .refused
  | some _, _ => .ok (if h.SameFile p q then h else h.rename p q)

/-! ## Looking at all of it -/

/-- The names beneath the working directory, by the paths that lead to them from there; a directory's
path ends in a slash. In the order of the texts. -/
def listing (h : Host) : List String :=
  let below := h.numbers.entries.filterMap fun e =>
    if h.here.isPrefixOf e.1 && h.here ≠ e.1 then
      some (String.intercalate "/" (e.1.drop h.here.length) ++
        if h.at? e.1 = some .directory then "/" else "")
    else none
  below.mergeSort fun a b => a ≤ b

/-- Puts a file or directory beneath the working directory, with the directories on the way. -/
def place (h : Host) (path : HostPath) (e : HostEntry) : Host :=
  (path.parent.ancestry.foldl (fun h p => h.put (h.here ++ p.parts) .directory) h).put
    (h.here ++ path.parts) e

end Host

end VirtualShell
