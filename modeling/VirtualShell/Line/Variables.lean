import VirtualShell.OrderedMap

/-!
# Variables in a text

A text is cut into pieces: references to variables, `$NAME` or `${NAME}`, and everything else,
which is copied. A value that replaces a reference is not looked at again,
and a variable that is not set expands to nothing.
-/

namespace VirtualShell.Line

/-- A character that can stand first in a name. -/
def startsName (c : Char) : Bool := c == '_' || c.isAlpha

/-- A character that can stand in a name behind the first. -/
def continuesName (c : Char) : Bool := c == '_' || c.isAlphanum

/-- The longest name at the front of a text, empty if there is none. -/
def nameAt : List Char → List Char
  | [] => []
  | c :: s => if startsName c then c :: s.takeWhile continuesName else []

/-- A text that is an identifier as a whole. -/
def isName : List Char → Bool
  | [] => false
  | c :: s => startsName c && s.all continuesName

/-- A piece of a text with variables. -/
inductive Part where
  | copy (s : List Char)
  | variable (name : List Char)
  deriving DecidableEq, Repr

/-- Takes the first piece off a text that is not empty, with what follows it. -/
def nextPart (c : Char) (s : List Char) : Part × List Char :=
  if c ≠ '$' then (.copy [c], s)
  else match s with
    | '\x7b' :: r =>
      let name := nameAt r
      match r.drop name.length with
      | '\x7d' :: rest =>
        if name.isEmpty then (.copy ['$', '\x7b', '\x7d'], rest) else (.variable name, rest)
      | rest => (.copy ('$' :: '\x7b' :: name), rest)
    | r =>
      let name := nameAt r
      if name.isEmpty then (.copy ['$'], r) else (.variable name, r.drop name.length)

theorem length_nextPart (c : Char) (s : List Char) : (nextPart c s).2.length ≤ s.length := by
  unfold nextPart
  split
  · exact Nat.le_refl _
  · split
    · next r =>
      have hd : (r.drop (nameAt r).length).length ≤ r.length := by simp
      dsimp only
      split
      · next rest h =>
        rw [h] at hd
        split <;> simp only [List.length_cons] at hd ⊢ <;> omega
      · simp only [List.length_cons]; omega
    · dsimp only
      split
      · exact Nat.le_refl _
      · simp

/-- The pieces of a text. -/
def parts : List Char → List Part
  | [] => []
  | c :: s => (nextPart c s).1 :: parts (nextPart c s).2
termination_by s => s.length
decreasing_by
  have := length_nextPart c s
  simp only [List.length_cons]
  omega

/-- What a piece turns into. -/
def Part.expand (env : OrderedMap String String) : Part → List Char
  | .copy s => s
  | .variable name => ((env.get? (String.ofList name)).getD "").toList

/-- A text with its variables replaced by their values. -/
def expandVariables (env : OrderedMap String String) (text : String) : String :=
  String.ofList ((parts text.toList).flatMap (Part.expand env))

end VirtualShell.Line
