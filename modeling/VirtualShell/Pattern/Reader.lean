import VirtualShell.Pattern.Basic
import VirtualShell.Pattern.Error
import VirtualShell.Text.Blank
import VirtualShell.Text.Letter
import VirtualShell.Text.Numeral

/-!
# Reading patterns

The reader goes through a pattern from left to right and stops at the first fault. Flags change
how the rest of a group is read: whether letters stand for both cases, what the dot and the line
anchors mean, and whether blanks and comments are skipped.
-/

namespace VirtualShell.Pattern

open Text

/-- How the pattern is read. -/
structure Flags where
  ignoreCase : Bool := false
  manyLines : Bool := false
  dotTakesAll : Bool := false
  crlf : Bool := false
  skipBlanks : Bool := false
  deriving DecidableEq, Repr

/-- What is left of a pattern when blanks and comments are skipped; `comment` says that a comment
is open. -/
def skipFree (comment : Bool) : List Char → List Char
  | [] => []
  | c :: s =>
    if comment then skipFree (c != '\n') s
    else if isBlank c then skipFree false s
    else if c == '#' then skipFree true s
    else c :: s

/-- Skips blanks and comments if the flags say so. -/
def Flags.skip (f : Flags) (s : List Char) : List Char :=
  if f.skipBlanks then skipFree false s else s

/-- A result with what is left of the pattern, or a fault. -/
abbrev Read (α : Type) := Except PatternError (α × List Char)

/-- A character, in both cases if the flags say so and it is an ASCII letter. -/
def Flags.char (f : Flags) (c : Char) : Regex :=
  if f.ignoreCase && c.isAlpha then .oneOf (CharClass.foldCase ⟨[(c.toNat, c.toNat)]⟩)
  else .char c

/-- What the dot stands for. -/
def Flags.dot (f : Flags) : Regex :=
  if f.dotTakesAll then .oneOf (CharClass.mk []).negate
  else if f.crlf then .oneOf (CharClass.ofRanges [(10, 10), (13, 13)]).negate
  else .oneOf (CharClass.ofRanges [(10, 10)]).negate

/-- What the caret stands for. -/
def Flags.caret (f : Flags) : Anchor :=
  if !f.manyLines then .start else if f.crlf then .lineStartCrlf else .lineStart

/-- What the dollar sign stands for. -/
def Flags.dollar (f : Flags) : Anchor :=
  if !f.manyLines then .stop else if f.crlf then .lineStopCrlf else .lineStop

/-! ## Escapes -/

/-- The characters that an escape makes plain: those of ASCII, apart from letters, digits and the
angle brackets. -/
def isEscapable (c : Char) : Bool :=
  c.toNat < 128 && !c.isAlphanum && c != '<' && c != '>'

/-- Reads hexadecimal digits up to a closing brace, the opening one having been read. -/
def bracedHex (f : Flags) : Nat → List Char → List Char → Read Char
  | 0, _, _ => .error .bracedHexUnclosed
  | fuel + 1, digits, s =>
    match f.skip s with
    | [] => .error .bracedHexUnclosed
    | '\x7d' :: r =>
      if digits.isEmpty then .error .bracedHexEmpty
      else match (hexValue? digits).bind charOfCode? with
        | some c => .ok (c, f.skip r)
        | none => .error .bracedHexNoChar
    | c :: r =>
      if (hexDigit? c).isSome then bracedHex f fuel (digits ++ [c]) r
      else .error .bracedHexBadDigit

/-- Reads a number of hexadecimal digits, of which some were read. -/
def fixedHex (f : Flags) : Nat → List Char → List Char → Read Char
  | 0, digits, s =>
    match (hexValue? digits).bind charOfCode? with
    | some c => .ok (c, s)
    | none => .error .hexNoChar
  | missing + 1, digits, s =>
    match s with
    | [] => .error .hexTooShort
    | c :: r =>
      if (hexDigit? c).isSome then fixedHex f missing (digits ++ [c]) (f.skip r)
      else .error .hexBadDigit

/-- Reads the number behind the letter of a hexadecimal escape. -/
def hexEscape (f : Flags) (count : Nat) (s : List Char) : Read Char :=
  match f.skip s with
  | [] => .error .hexMissing
  | '\x7b' :: r => bracedHex f (r.length + 1) [] r
  | s => fixedHex f count [] s

/-- A character that can stand in the name of a kind of word edge. -/
def isEdgeNameChar (c : Char) : Bool := c.isAlpha || c == '-'

/-- Reads the name of a kind of word edge, with the blanks inside it skipped. -/
def edgeName (f : Flags) : Nat → List Char → List Char → List Char × List Char
  | 0, name, s => (name, s)
  | fuel + 1, name, s =>
    match s with
    | c :: r =>
      if isEdgeNameChar c then edgeName f fuel (name ++ [c]) (f.skip r) else (name, c :: r)
    | [] => (name, [])

/-- Reads what may follow an escaped `b`: a kind of word edge in braces. Braces that do not begin
like a name are left for the reader of repetitions. -/
def wordEdge (f : Flags) (s : List Char) : Read Anchor :=
  match s with
  | '\x7b' :: r =>
    match f.skip r with
    | [] => .error .wordEdgeOrCountUnclosed
    | c :: r =>
      if !isEdgeNameChar c then .ok (.wordEdge, s)
      else match edgeName f (r.length + 1) [] (c :: r) with
        | (name, '\x7d' :: rest) =>
          match String.ofList name with
          | "start" => .ok (.wordStart, rest)
          | "end" => .ok (.wordStop, rest)
          | "start-half" => .ok (.noWordBefore, rest)
          | "end-half" => .ok (.noWordAfter, rest)
          | _ => .error .wordEdgeUnknown
        | _ => .error .wordEdgeUnclosed
  | _ => .ok (.wordEdge, s)

/-- The class that an escaped letter stands for, the capital meaning the other characters. -/
def letterClass? : Char → Option CharClass
  | 'd' => some (.ofRanges CharClass.digitRanges)
  | 's' => some (.ofRanges CharClass.spaceRanges)
  | 'w' => some (.ofRanges CharClass.wordRanges)
  | 'D' => some (CharClass.ofRanges CharClass.digitRanges).negate
  | 'S' => some (CharClass.ofRanges CharClass.spaceRanges).negate
  | 'W' => some (CharClass.ofRanges CharClass.wordRanges).negate
  | _ => none

/-- The character that an escaped letter stands for. -/
def letterChar? : Char → Option Char
  | 'a' => some '\x07'
  | 'f' => some '\x0c'
  | 't' => some '\t'
  | 'n' => some '\n'
  | 'r' => some '\r'
  | 'v' => some '\x0b'
  | _ => none

/-- The condition that an escaped letter or sign stands for. -/
def letterAnchor? : Char → Option Anchor
  | 'A' => some .start
  | 'z' => some .stop
  | 'B' => some .notWordEdge
  | '<' => some .wordStart
  | '>' => some .wordStop
  | _ => none

/-- The number of digits that a hexadecimal escape has without braces. -/
def hexCount? : Char → Option Nat
  | 'x' => some 2
  | 'u' => some 4
  | 'U' => some 8
  | _ => none

/-- Reads an escape behind its backslash. -/
def escape (f : Flags) : List Char → Read Regex
  | [] => .error .escapeAtEnd
  | c :: r =>
    if c.isDigit then .error .backReference
    else if c == 'p' || c == 'P' then .error .unicodeClass
    else if c == 'b' then (wordEdge f r).map fun p => (.anchor p.1, p.2)
    else match hexCount? c with
      | some n => (hexEscape f n r).map fun p => (f.char p.1, p.2)
      | none =>
        match letterClass? c with
        | some k => .ok (.oneOf k, r)
        | none =>
          match letterAnchor? c with
          | some a => .ok (.anchor a, r)
          | none =>
            match letterChar? c with
            | some d => .ok (f.char d, r)
            | none => if isEscapable c then .ok (f.char c, r) else .error .escapeUnknown

/-! ## Classes -/

/-- Reads a named class behind its opening bracket, such as `[:alpha:]`. -/
def namedClass? : List Char → Option (CharClass × List Char)
  | ':' :: s =>
    let (negated, s) := match s with
      | '^' :: r => (true, r)
      | r => (false, r)
    let name := s.takeWhile (· != ':')
    match s.drop name.length with
    | ':' :: ']' :: r =>
      (CharClass.named? (String.ofList name)).map fun ranges =>
        let k := CharClass.ofRanges ranges
        (if negated then k.negate else k, r)
    | _ => none
  | _ => none

/-- Reads one member of a class: an escape or a character that stands for itself. -/
def classMember (f : Flags) : List Char → Read Regex
  | [] => .error .classUnclosed
  | '\\' :: r => escape f r
  | c :: r => .ok (.char c, r)

/-- The ranges of a member that stands alone. -/
def memberRanges : Regex → Except PatternError (List (Nat × Nat))
  | .char c => .ok [(c.toNat, c.toNat)]
  | .oneOf k => .ok k.ranges
  | _ => .error .classItem

/-- The character of a member that ends a range. -/
def memberChar : Regex → Except PatternError Char
  | .char c => .ok c
  | _ => .error .classRangeEnd

/-- Reads a member of a class, or a range between two members. A dash before a closing bracket or
another dash makes no range. -/
def classRange (f : Flags) (s : List Char) :
    Except PatternError (List (Nat × Nat) × List Char) := do
  let (first, s) ← classMember f s
  match f.skip s with
  | [] => .error .classUnclosedAfterItem
  | c :: r =>
    let next := (f.skip r).head?
    if c != '-' || next == some ']' || next == some '-' then
      return (← memberRanges first, c :: r)
    else match f.skip r with
      | [] => .error .classUnclosedAfterDash
      | r => do
        let (second, r) ← classMember f r
        let a ← memberChar first
        let b ← memberChar second
        if b < a then .error .classRangeReversed else return ([(a.toNat, b.toNat)], r)

/-- The class with the given ranges, in both cases if the flags say so, and then negated. -/
def closeClass (f : Flags) (negated : Bool) (ranges : List (Nat × Nat)) : Regex :=
  let k := CharClass.ofRanges ranges
  let k := if f.ignoreCase then k.foldCase else k
  .oneOf (if negated then k.negate else k)

/-- Reads the members of a class up to its closing bracket. -/
def classMembers (f : Flags) (negated : Bool) :
    Nat → List (Nat × Nat) → List Char → Read Regex
  | 0, _, _ => .error .classUnclosed
  | fuel + 1, ranges, s =>
    match f.skip s with
    | [] => .error .classUnclosed
    | '[' :: r =>
      match namedClass? r with
      | some (k, r) => classMembers f negated fuel (ranges ++ k.ranges) r
      | none => .error .classNested
    | ']' :: r => .ok (closeClass f negated ranges, r)
    | '&' :: '&' :: _ => .error .classIntersection
    | '-' :: '-' :: _ => .error .classDifference
    | '~' :: '~' :: _ => .error .classSymmetricDifference
    | s =>
      match classRange f s with
      | .ok (more, r) => classMembers f negated fuel (ranges ++ more) r
      | .error e => .error e

/-- Reads the dashes in front of a class, which stand for themselves. -/
def leadingDashes (f : Flags) : Nat → List (Nat × Nat) → List Char → Read (List (Nat × Nat))
  | 0, ranges, s => .ok (ranges, s)
  | fuel + 1, ranges, s =>
    match s with
    | '-' :: r =>
      match f.skip r with
      | [] => .error .classUnclosedAfterDash
      | r => leadingDashes f fuel (ranges ++ [(45, 45)]) r
    | s => .ok (ranges, s)

/-- Reads a class behind its opening bracket. -/
def charClass (f : Flags) (s : List Char) : Except PatternError (Regex × List Char) := do
  let s := f.skip s
  if s.isEmpty then .error .classUnclosed
  else
    let negated := s.head? == some '^'
    let s := if negated then f.skip (s.drop 1) else s
    if s.isEmpty then .error .classUnclosedAfterNegation
    else
      let (ranges, s) ← leadingDashes f s.length [] s
      if ranges.isEmpty && s.head? == some ']' then
        let r := f.skip (s.drop 1)
        if r.isEmpty then .error .classUnclosedAfterBracket
        else classMembers f negated (r.length + 1) [(93, 93)] r
      else classMembers f negated (s.length + 1) ranges s

/-! ## Repetitions -/

/-- Drops the question mark that makes a repetition lazy. -/
def skipLazy (s : List Char) : List Char :=
  match s with
  | '?' :: r => r
  | r => r

/-- Reads the digits of a decimal number, with the blanks between them skipped. -/
def decimalDigits (f : Flags) : Nat → List Char → List Char → List Char × List Char
  | 0, digits, s => (digits, s)
  | fuel + 1, digits, s =>
    match s with
    | c :: r =>
      if c.isDigit then decimalDigits f fuel (digits ++ [c]) (f.skip r) else (digits, c :: r)
    | [] => (digits, [])

/-- Reads a decimal number of at most thirty-two bits, with blanks around it. -/
def decimalNumber (f : Flags) (s : List Char) : Read Nat :=
  let s := trimLeft s
  let (digits, s) := decimalDigits f (s.length + 1) [] s
  let s := f.skip (trimLeft s)
  if digits.isEmpty then .error .decimalMissing
  else if digitsValue digits < Nat.pow 2 32 then .ok (digitsValue digits, s)
  else .error .decimalTooLarge

/-- Reads the bounds of a counted repetition behind its opening brace. -/
def repeatBounds (f : Flags) (s : List Char) :
    Except PatternError ((Nat × Option Nat) × List Char) := do
  let s := f.skip s
  if s.isEmpty then .error .countUnclosed
  else
    let (least, s) ← decimalNumber f s
    let (most, s) ← (match s with
      | [] => .error .countUnclosedAfterLeast
      | ',' :: r =>
        match f.skip r with
        | [] => .error .countUnclosedAfterComma
        | '\x7d' :: r => .ok (none, '\x7d' :: r)
        | r => do
          let (most, r) ← decimalNumber f r
          if r.isEmpty then .error .countUnclosedAfterMost else return (some most, r)
      | s => .ok (some least, s) : Except PatternError (Option Nat × List Char))
    match s with
    | '\x7d' :: r =>
      if most.any (· < least) then .error .countReversed
      else return ((least, most), skipLazy (f.skip r))
    | _ => .error .countBadEnd

/-! ## Groups -/

/-- A character that can stand in the name of a group. -/
def isGroupNameChar (first : Bool) (c : Char) : Bool :=
  if first then c == '_' || isLetter c
  else c == '_' || c == '.' || c == '[' || c == ']' || isLetterOrNumber c

/-- Reads the name of a group up to its closing angle bracket. -/
def groupName (name : List Char) : List Char → Read (List Char)
  | [] => .error (if name.isEmpty then .groupNameMissing else .groupNameUnclosed)
  | c :: r =>
    if c == '>' then if name.isEmpty then .error .groupNameEmpty else .ok (name, r)
    else if isGroupNameChar name.isEmpty c then groupName (name ++ [c]) r
    else .error .groupNameInvalid

/-- The flags with one of them set or taken back; `none` for an unknown letter. -/
def Flags.set? (f : Flags) (on : Bool) : Char → Option Flags
  | 'i' => some { f with ignoreCase := on }
  | 'm' => some { f with manyLines := on }
  | 's' => some { f with dotTakesAll := on }
  | 'R' => some { f with crlf := on }
  | 'x' => some { f with skipBlanks := on }
  | 'U' => some f
  | 'u' => some f
  | _ => none

/-- Reads the letters of a flag directive, up to the colon or parenthesis behind them. -/
def flagLetters (f : Flags) (negated : Bool) (seen : List Char) : List Char → Read Flags
  | [] => .error .flagsUnclosed
  | c :: r =>
    if c == ':' || c == ')' then
      if seen.head? == some '-' then .error .flagsEndNegated else .ok (f, c :: r)
    else if c == '-' then
      if negated then .error .flagNegatedTwice else flagLetters f true ('-' :: seen) r
    else match f.set? (!negated) c with
      | none => .error .flagUnknown
      | some f =>
      if seen.contains c then .error .flagRepeated else flagLetters f negated (c :: seen) r

/-- What stands at the beginning of a group. -/
inductive Opening where
  /-- A group that is numbered, with its name if it has one. -/
  | numbered (name : Option (List Char))
  /-- A group that only changes flags for its inside. -/
  | flagged (f : Flags)
  /-- No group, but a change of flags for what follows. -/
  | directive (f : Flags)

/-- Reads the beginning of a group behind its opening parenthesis. -/
def opening (f : Flags) (s : List Char) : Read Opening :=
  match f.skip s with
  | '?' :: '=' :: _ => .error .lookAround
  | '?' :: '!' :: _ => .error .lookAround
  | '?' :: '<' :: '=' :: _ => .error .lookAround
  | '?' :: '<' :: '!' :: _ => .error .lookAround
  | '?' :: 'P' :: '<' :: r => (groupName [] r).map fun p => (.numbered (some p.1), p.2)
  | '?' :: '<' :: r => (groupName [] r).map fun p => (.numbered (some p.1), p.2)
  | '?' :: r =>
    if r.isEmpty then .error .groupQuestionAtEnd
    else match flagLetters f false [] r with
      | .error e => .error e
      | .ok (_, []) => .error .flagsUnclosed
      | .ok (g, c :: rest) =>
        if c == ':' then .ok (.flagged g, rest)
        else if r.length == rest.length + 1 then .error .flagsEmpty
        else .ok (.directive g, ')' :: rest)
  | s => .ok (.numbered none, s)

/-! ## Whole patterns -/

/-- Where the reader stands: what is left, the flags in force and the group names in use. -/
structure State where
  rest : List Char
  flags : Flags
  names : List (List Char)

/-- Reads the branches of a group, or of the whole pattern at level zero, up to the parenthesis
that closes it. `branches` and `parts` are the branches and the parts of the present branch that
were read. Every step takes a character, so `fuel` may be the length of the pattern. -/
def level (depth : Nat) : Nat → State → List Regex → List Regex →
    Except PatternError (Regex × State)
  | 0, st, branches, parts => .ok (.ofChoice (branches ++ [.ofSequence parts]), st)
  | fuel + 1, st, branches, parts =>
    let again (parts : List Regex) (rest : List Char) :=
      level depth fuel { st with rest } branches parts
    match st.flags.skip st.rest with
    | [] => .ok (.ofChoice (branches ++ [.ofSequence parts]), { st with rest := [] })
    | ')' :: r =>
      if depth = 0 then .error .unopenedGroup
      else .ok (.ofChoice (branches ++ [.ofSequence parts]), { st with rest := ')' :: r })
    | '|' :: r => level depth fuel { st with rest := r } (branches ++ [.ofSequence parts]) []
    | '(' :: r =>
      match opening st.flags r with
      | .error e => .error e
      | .ok (.directive f, r) =>
        level depth fuel { st with flags := f, rest := r.drop 1 } branches parts
      | .ok (.flagged f, r) =>
        if depth + 1 > Regex.depthLimit then .error .tooDeep
        else match level (depth + 1) fuel { st with flags := f, rest := r } [] [] with
          | .error e => .error e
          | .ok (p, inner) =>
            if inner.rest.isEmpty then .error .unclosedGroup
            else level depth fuel { inner with flags := st.flags, rest := inner.rest.drop 1 }
              branches (parts ++ [p])
      | .ok (.numbered name, r) =>
        if name.any st.names.contains then .error .groupNameRepeated
        else if depth + 1 > Regex.depthLimit then .error .tooDeep
        else
          let names := name.toList ++ st.names
          match level (depth + 1) fuel { st with names, rest := r } [] [] with
          | .error e => .error e
          | .ok (p, inner) =>
            if inner.rest.isEmpty then .error .unclosedGroup
            else level depth fuel { inner with flags := st.flags, rest := inner.rest.drop 1 }
              branches (parts ++ [.group p])
    | '[' :: r =>
      match charClass st.flags r with
      | .error e => .error e
      | .ok (p, r) => again (parts ++ [p]) r
    | '\x7b' :: r =>
      match parts.getLast? with
      | none => .error .countNothing
      | some p =>
        match repeatBounds st.flags r with
        | .error e => .error e
        | .ok ((least, most), r) => again (parts.dropLast ++ [.repeated least most p]) r
    | '\\' :: r =>
      match escape st.flags r with
      | .error e => .error e
      | .ok (p, r) => again (parts ++ [p]) r
    | c :: r =>
      if c == '?' || c == '*' || c == '+' then
        match parts.getLast? with
        | none => .error .repeatNothing
        | some p =>
          let least := if c == '+' then 1 else 0
          let most := if c == '?' then some 1 else none
          again (parts.dropLast ++ [.repeated least most p]) (skipLazy r)
      else if c == '.' then again (parts ++ [st.flags.dot]) r
      else if c == '^' then again (parts ++ [.anchor st.flags.caret]) r
      else if c == '$' then again (parts ++ [.anchor st.flags.dollar]) r
      else again (parts ++ [st.flags.char c]) r

/-- Reads a whole pattern under some flags and refuses it if it is too deep or too large. The
machine has three states besides those of the pattern. -/
def read (f : Flags) (pattern : List Char) : Except PatternError Regex := do
  let (p, _) ← level 0 (pattern.length + 1) ⟨pattern, f, []⟩ [] []
  if p.depth > Regex.depthLimit then .error .tooDeep
  else if p.size + 3 * Regex.stateSize > Regex.sizeLimit then .error .tooLarge
  else return p

/-- The signs that are escaped to make a text a pattern for itself. -/
def isMeta (c : Char) : Bool := "\\.+*?()|[]\x7b\x7d^$#&-~".toList.contains c

/-- The pattern that stands for a text. -/
def quote (text : List Char) : List Char :=
  text.flatMap fun c => if isMeta c then ['\\', c] else [c]

end VirtualShell.Pattern
