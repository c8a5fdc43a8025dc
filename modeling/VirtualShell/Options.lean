import VirtualShell.OrderedMap

/-!
# Options

What a terminal is set up with. Every option has a default.
-/

namespace VirtualShell

/-- The options of a terminal. -/
structure Options where
  user : String := "user"
  hostname : String := "workstation"
  /-- The number of lines that the history keeps. -/
  maxHistory : Nat := 1000
  /-- Variables that are set, or set anew, at the start of a session. -/
  env : OrderedMap String String := .empty
  aliases : OrderedMap String String := .ofList [("ll", "ls -la"), ("la", "ls -a")]
  /-- The directory to start in, in place of the home directory. -/
  startDir : Option String := none
  deriving DecidableEq, Inhabited

end VirtualShell
