import VirtualShell.Pattern.Basic

/-!
# Which lines match

A pattern takes a set of places in a line to the set of places that it can reach from them. Places
are counted between characters, from zero, and a set is a strictly increasing list. A line matches
when something can be reached from any of its places. The relation `Regex.Spans` says what that means
for one place and another, without any sets.
-/

namespace VirtualShell.Pattern

/-- A word character, of ASCII. -/
def isWordChar (c : Char) : Bool := c == '_' || c.isAlphanum

/-- The character before a place. -/
def before? (chars : Array Char) (i : Nat) : Option Char :=
  match i with
  | 0 => none
  | i + 1 => chars[i]?

/-- There is a word character at the given neighbour of a place. -/
def isWordAt (c : Option Char) : Bool := (c.map isWordChar).getD false

/-- The condition holds at a place. -/
def Anchor.holds (chars : Array Char) (i : Nat) (a : Anchor) : Bool :=
  let left := before? chars i
  let right := chars[i]?
  match a with
  | .start => left.isNone
  | .stop => right.isNone
  | .lineStart => left.isNone || left == some '\n'
  | .lineStop => right.isNone || right == some '\n'
  | .lineStartCrlf =>
    left.isNone || left == some '\n' || (left == some '\r' && right != some '\n')
  | .lineStopCrlf =>
    right.isNone || right == some '\r' || (right == some '\n' && left != some '\r')
  | .wordEdge => isWordAt left != isWordAt right
  | .notWordEdge => isWordAt left == isWordAt right
  | .wordStart => !isWordAt left && isWordAt right
  | .wordStop => isWordAt left && !isWordAt right
  | .noWordBefore => !isWordAt left
  | .noWordAfter => !isWordAt right

/-- The union of two sets of places. -/
def unite : List Nat → List Nat → List Nat
  | [], bs => bs
  | as, [] => as
  | a :: as, b :: bs =>
    if a < b then a :: unite as (b :: bs)
    else if b < a then b :: unite (a :: as) bs
    else a :: unite as bs
termination_by as bs => as.length + bs.length

/-- The places behind a character of a given kind that stands at one of the places. -/
def stepOver (chars : Array Char) (ok : Char → Bool) (places : List Nat) : List Nat :=
  places.filterMap fun i => if (chars[i]?).any ok then some (i + 1) else none

/-- Applies a function again and again, at most `n` times, until nothing changes any more. -/
def settle {α : Type} [BEq α] (f : α → α) : Nat → α → α
  | 0, x => x
  | n + 1, x =>
    let y := f x
    if y == x then x else settle f n y

/-- The number of rounds after which a repetition in a line reaches nothing new: each round that
matters moves on, but for one. -/
def rounds (chars : Array Char) (n : Nat) : Nat := min n (chars.size + 1)

/-- Goes over a repetition, when `step` goes over what is repeated. -/
def repeatStep (chars : Array Char) (least : Nat) (most : Option Nat)
    (step : List Nat → List Nat) (places : List Nat) : List Nat :=
  let reached := settle step (rounds chars least) places
  let further := match most with
    | some most => rounds chars (most - least)
    | none => chars.size + 1
  settle (fun ps => unite ps (step ps)) further reached

mutual

/-- The places that a pattern reaches from some places. -/
def Regex.advance (chars : Array Char) : Regex → List Nat → List Nat
  | .empty, places => places
  | .char c, places => stepOver chars (· == c) places
  | .oneOf k, places => stepOver chars k.contains places
  | .anchor a, places => places.filter fun i => a.holds chars i
  | .repeated least most p, places => repeatStep chars least most (p.advance chars) places
  | .group p, places => p.advance chars places
  | .sequence ps, places => advanceThrough chars ps places
  | .choice ps, places => advanceByAny chars ps places

/-- The places that some patterns in sequence reach. -/
def advanceThrough (chars : Array Char) : List Regex → List Nat → List Nat
  | [], places => places
  | p :: ps, places => advanceThrough chars ps (p.advance chars places)

/-- The places that one or another of some patterns reaches. -/
def advanceByAny (chars : Array Char) : List Regex → List Nat → List Nat
  | [], _ => []
  | p :: ps, places => unite (p.advance chars places) (advanceByAny chars ps places)

end

/-- The pattern occurs in the line. -/
def Regex.matchesLine (p : Regex) (line : List Char) : Bool :=
  !(p.advance line.toArray (List.range (line.length + 1))).isEmpty

mutual

/-- The pattern leads from one place in a line to another. A repetition goes on at least to its least
count, whatever its greatest one is. -/
inductive Regex.Spans (chars : Array Char) : Regex → Nat → Nat → Prop
  | empty (i : Nat) : Spans chars .empty i i
  | char {c : Char} {i : Nat} : chars[i]? = some c → Spans chars (.char c) i (i + 1)
  | oneOf {k : CharClass} {c : Char} {i : Nat} :
    chars[i]? = some c → k.contains c → Spans chars (.oneOf k) i (i + 1)
  | anchor {a : Anchor} {i : Nat} : a.holds chars i → Spans chars (.anchor a) i i
  | repeated {least n : Nat} {most : Option Nat} {p : Regex} {i j : Nat} :
    least ≤ n → (∀ m, most = some m → n ≤ max least m) → SpansTimes chars p n i j →
    Spans chars (.repeated least most p) i j
  | group {p : Regex} {i j : Nat} : Spans chars p i j → Spans chars (.group p) i j
  | sequence {ps : List Regex} {i j : Nat} : SpansAll chars ps i j → Spans chars (.sequence ps) i j
  | choice {ps : List Regex} {p : Regex} {i j : Nat} :
    p ∈ ps → Spans chars p i j → Spans chars (.choice ps) i j

/-- The pattern, a number of times in a row, leads from one place to another. -/
inductive Regex.SpansTimes (chars : Array Char) : Regex → Nat → Nat → Nat → Prop
  | zero (p : Regex) (i : Nat) : SpansTimes chars p 0 i i
  | succ {p : Regex} {n i j k : Nat} :
    Spans chars p i j → SpansTimes chars p n j k → SpansTimes chars p (n + 1) i k

/-- The patterns in sequence lead from one place to another. -/
inductive Regex.SpansAll (chars : Array Char) : List Regex → Nat → Nat → Prop
  | nil (i : Nat) : SpansAll chars [] i i
  | cons {p : Regex} {ps : List Regex} {i j k : Nat} :
    Spans chars p i j → SpansAll chars ps j k → SpansAll chars (p :: ps) i k

end

end VirtualShell.Pattern
