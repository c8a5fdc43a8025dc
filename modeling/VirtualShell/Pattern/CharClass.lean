/-!
# Character classes

A class is a list of inclusive ranges of code points. Its ranges are kept sorted and apart from
each other, so that the number of ranges, which counts towards a pattern's size, is the least.
-/

namespace VirtualShell.Pattern

/-- A set of characters, as inclusive ranges of code points. -/
structure CharClass where
  ranges : List (Nat × Nat)
  deriving DecidableEq, Repr, Inhabited

namespace CharClass

/-- The class has the character. -/
def contains (k : CharClass) (c : Char) : Bool :=
  k.ranges.any fun r => r.1 ≤ c.toNat && c.toNat ≤ r.2

/-- Puts a range in front of sorted ranges, joined with those that it meets or touches. -/
def push (r : Nat × Nat) : List (Nat × Nat) → List (Nat × Nat)
  | [] => [r]
  | s :: rest => if s.1 ≤ r.2 + 1 then push (r.1, max r.2 s.2) rest else r :: s :: rest

/-- The class of some ranges in any order. -/
def ofRanges (ranges : List (Nat × Nat)) : CharClass :=
  let sorted := ranges.mergeSort fun a b => a.1 < b.1 || (a.1 == b.1 && a.2 ≤ b.2)
  ⟨sorted.foldr push []⟩

/-- The image of a range under the change of case of ASCII letters. Only one direction is taken:
from lowercase if the range has a lowercase letter, else from uppercase. -/
def foldRange? (r : Nat × Nat) : Option (Nat × Nat) :=
  let lower := (max r.1 97, min r.2 122)
  let upper := (max r.1 65, min r.2 90)
  if lower.1 ≤ lower.2 then some (lower.1 - 32, lower.2 - 32)
  else if upper.1 ≤ upper.2 then some (upper.1 + 32, upper.2 + 32)
  else none

/-- The class with the images of its ranges under the change of case. -/
def foldCase (k : CharClass) : CharClass := ofRanges (k.ranges ++ k.ranges.filterMap foldRange?)

/-- The gaps before, between and behind sorted ranges, from a first code point on. -/
def gaps (first : Nat) : List (Nat × Nat) → List (Nat × Nat)
  | [] => if first ≤ 0x10FFFF then [(first, 0x10FFFF)] else []
  | r :: rest => (if first < r.1 then [(first, r.1 - 1)] else []) ++ gaps (r.2 + 1) rest

/-- The class of the other characters. -/
def negate (k : CharClass) : CharClass := ⟨gaps 0 k.ranges⟩

/-- The class of a range of characters. -/
def range (a b : Char) : Nat × Nat := (a.toNat, b.toNat)

def digitRanges : List (Nat × Nat) := [range '0' '9']

def spaceRanges : List (Nat × Nat) := [range '\t' '\r', range ' ' ' ']

def wordRanges : List (Nat × Nat) := [range '0' '9', range 'A' 'Z', range '_' '_', range 'a' 'z']

/-- The named classes, which know ASCII only. -/
def named? (name : String) : Option (List (Nat × Nat)) :=
  match name with
  | "alnum" => some [range '0' '9', range 'A' 'Z', range 'a' 'z']
  | "alpha" => some [range 'A' 'Z', range 'a' 'z']
  | "ascii" => some [(0, 127)]
  | "blank" => some [range '\t' '\t', range ' ' ' ']
  | "cntrl" => some [(0, 31), (127, 127)]
  | "digit" => some digitRanges
  | "graph" => some [range '!' '~']
  | "lower" => some [range 'a' 'z']
  | "print" => some [range ' ' '~']
  | "punct" => some [range '!' '/', range ':' '@', (91, 96), (123, 126)]
  | "space" => some spaceRanges
  | "upper" => some [range 'A' 'Z']
  | "word" => some wordRanges
  | "xdigit" => some [range '0' '9', range 'A' 'F', range 'a' 'f']
  | _ => none

end CharClass

end VirtualShell.Pattern
