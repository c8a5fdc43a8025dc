import VirtualShell.Pattern.CharClass

/-!
# Patterns

What a pattern means once it is read: characters and classes, conditions on a place in the line,
sequences, choices, repetitions and groups. Letters that stand for both cases are classes here.
How eager a repetition is makes no difference to which lines match, so it is not kept.
-/

namespace VirtualShell.Pattern

/-- A condition on a place between two characters. -/
inductive Anchor where
  | start | stop
  | lineStart | lineStop
  /-- As `lineStart` and `lineStop`, a carriage return being a line ending too. -/
  | lineStartCrlf | lineStopCrlf
  | wordEdge | notWordEdge | wordStart | wordStop
  /-- No word character before the place. -/
  | noWordBefore
  /-- No word character behind the place. -/
  | noWordAfter
  deriving DecidableEq, Repr

/-- A pattern. -/
inductive Regex where
  | empty
  | char (c : Char)
  | oneOf (k : CharClass)
  | anchor (a : Anchor)
  | repeated (least : Nat) (most : Option Nat) (p : Regex)
  | group (p : Regex)
  | sequence (ps : List Regex)
  | choice (ps : List Regex)

namespace Regex

/-- A sequence; one part stands for itself, and no part is the empty pattern. -/
def ofSequence : List Regex → Regex
  | [] => .empty
  | [p] => p
  | ps => .sequence ps

/-- A choice; one branch stands for itself. -/
def ofChoice : List Regex → Regex
  | [p] => p
  | ps => .choice ps

mutual

/-- How deep the parts of a pattern nest. -/
def depth : Regex → Nat
  | .repeated _ _ p => p.depth + 1
  | .group p => p.depth + 1
  | .sequence ps => depthOfAll ps + 1
  | .choice ps => depthOfAll ps + 1
  | _ => 0

/-- The greatest depth among some patterns. -/
def depthOfAll : List Regex → Nat
  | [] => 0
  | p :: ps => max p.depth (depthOfAll ps)

end

mutual

/-- The pattern may match without taking a character. -/
def nullable : Regex → Bool
  | .empty => true
  | .char _ => false
  | .oneOf _ => false
  | .anchor _ => true
  | .repeated least _ p => least == 0 || p.nullable
  | .group p => p.nullable
  | .sequence ps => allNullable ps
  | .choice ps => anyNullable ps

def allNullable : List Regex → Bool
  | [] => true
  | p :: ps => p.nullable && allNullable ps

def anyNullable : List Regex → Bool
  | [] => false
  | p :: ps => p.nullable || anyNullable ps

end

/-! ## The size of a pattern

A pattern is refused when its machine would be too large. The machine has thirty-two bytes for
each state, eight more for each range of a class and four more for each way out of a branching
state. -/

/-- The size of a state. -/
def stateSize : Nat := 32

/-- The size of a state with some ways out. -/
def branchSize (ways : Nat) : Nat := stateSize + 4 * ways

/-- The size of a repetition whose repeated part has a given size. -/
def repeatSize (least : Nat) (most : Option Nat) (inner : Nat) (innerNullable : Bool) : Nat :=
  match least, most with
  | 0, none =>
    if innerNullable then inner + 2 * branchSize 2 + stateSize else inner + branchSize 1
  | n, none => n * inner + branchSize 1
  | 0, some 1 => inner + branchSize 2 + stateSize
  | least, some most =>
    if least = most then (if least = 0 then stateSize else least * inner)
    else
      (if least = 0 then stateSize else least * inner) + stateSize +
        (most - least) * (inner + branchSize 2)

mutual

/-- The size of the machine for a pattern. -/
def size : Regex → Nat
  | .empty => stateSize
  | .char _ => stateSize
  | .oneOf k => stateSize + 8 * k.ranges.length
  | .anchor _ => stateSize
  | .repeated least most p => repeatSize least most p.size p.nullable
  | .group p => p.size + 2 * stateSize
  | .sequence ps => sizeOfAll ps
  | .choice ps => branchSize ps.length + stateSize + sizeOfAll ps

def sizeOfAll : List Regex → Nat
  | [] => 0
  | p :: ps => p.size + sizeOfAll ps

end

/-- The largest size that is allowed. -/
def sizeLimit : Nat := 10 * 1024 * 1024

/-- How deep a pattern may nest. -/
def depthLimit : Nat := 50

end Regex

end VirtualShell.Pattern
