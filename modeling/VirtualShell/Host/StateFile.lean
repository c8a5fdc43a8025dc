import VirtualShell.Host.Basic

/-!
# The file that keeps the state

A saved state lies in one file of the host. Saving writes a file beside it and then gives that file
the place of the old one, so that the new state appears as a whole. Saving is a list of steps, each
of which is one operation of the host. The host may refuse a step for what its files are, or give it
up for reasons of its own; it may be stopped between any two steps, and while a file is being written
any first part of the bytes may be in it. Main statement: `runAll_append`.
-/

namespace VirtualShell

/-- One operation of the host. -/
inductive HostStep where
  | ensureDirectory (path : HostPath)
  | write (path : HostPath) (text : String)
  | renameFile (source target : HostPath)
  deriving DecidableEq, Repr

/-- How the host gives up a step for reasons of its own. -/
inductive Hindrance where
  /-- The step is not begun. -/
  | refused
  /-- A file that is written holds the first bytes, so many of them. -/
  | broken (count : Nat)
  deriving DecidableEq, Repr

namespace HostStep

/-- Takes one step. -/
def run (h : Host) : HostStep → Except HostError Host
  | ensureDirectory path => h.ensureDirectory path
  | write path text => h.write path text
  | renameFile source target => h.renameFile source target

/-- What the host leaves of a step that it gives up. -/
def remains (h : Host) : HostStep → Hindrance → Host
  | write path text, .broken count =>
    match h.writeBytes path ((bytesOf text).take count) with
    | .ok h => h
    | .error _ => h
  | _, _ => h

/-- The host gives up no step for reasons of its own. -/
def unhindered : HostStep → Option Hindrance := fun _ => none

/-- Takes steps until one is refused. Some steps the host gives up for reasons of its own, say because
its disk is full, whatever its files are. -/
def runAll (hinders : HostStep → Option Hindrance) : Host → List HostStep → Host × Option HostError
  | h, [] => (h, none)
  | h, s :: ss =>
    match hinders s with
    | some hindrance => (s.remains h hindrance, some .refused)
    | none =>
      match s.run h with
      | .ok h => runAll hinders h ss
      | .error e => (h, some e)

/-- Steps after others are taken if none of those was refused. -/
theorem runAll_append (hinders : HostStep → Option Hindrance) (h : Host) (ss ts : List HostStep) :
    runAll hinders h (ss ++ ts) = match runAll hinders h ss with
      | (h', none) => runAll hinders h' ts
      | (h', some e) => (h', some e) := by
  induction ss generalizing h with
  | nil => rfl
  | cons s ss ih =>
    simp only [List.cons_append, runAll]
    split
    · rfl
    · cases s.run h with
      | ok h' => exact ih h'
      | error e => rfl

/-- How the host may look when it is stopped while some steps are under way. -/
inductive Stopped (h : Host) (steps : List HostStep) : Host → Prop where
  /-- Some of the steps were taken. -/
  | between (done : List HostStep) : done <+: steps → Stopped h steps (runAll unhindered h done).1
  /-- A file was being written and holds the first part of the bytes. -/
  | writing (done : List HostStep) (path : HostPath) (text : String) (part : List UInt8)
      (h' : Host) :
      done ++ [.write path text] <+: steps → (runAll unhindered h done).2 = none →
      part <+: bytesOf text → (runAll unhindered h done).1.writeBytes path part = .ok h' →
      Stopped h steps h'

end HostStep

/-- A file that keeps a state. -/
structure StateFile where
  path : HostPath
  deriving DecidableEq, Repr

namespace StateFile

/-- The file that is written before it takes the place of the state file. -/
def temporary (f : StateFile) : HostPath := f.path.withExtension "tmp"

/-- The steps that make the directories on the way to the file. -/
def directorySteps (f : StateFile) : List HostStep :=
  let parent := f.path.parent
  if parent.isLegal then parent.ancestry.map .ensureDirectory else [.ensureDirectory parent]

/-- The steps of saving a text. -/
def saveSteps (f : StateFile) (text : String) : List HostStep :=
  f.directorySteps ++ [.write f.temporary text, .renameFile f.temporary f.path]

/-- Saves a text. The host may be changed even if that fails. -/
def save (f : StateFile) (h : Host) (text : String)
    (hinders : HostStep → Option Hindrance := HostStep.unhindered) : Host × Option HostError :=
  HostStep.runAll hinders h (f.saveSteps text)

/-- The text that was saved, or `none` if nothing was saved yet. -/
def load (f : StateFile) (h : Host) : Except HostError (Option String) :=
  match h.read f.path with
  | .ok text => .ok (some text)
  | .error .missing => .ok none
  | .error .refused => .error .refused

end StateFile

end VirtualShell
