import VirtualShell.Toml.Quoted
import VirtualShell.Toml.Scalar

/-!
# Reading configuration texts

A text is read statement by statement: a key with its value, or a header in brackets, each on a
line of its own with a comment allowed behind it. The statements then build up one table.
-/

namespace VirtualShell.Toml

/-! ## Space -/

def skipBlanks (s : List Char) : List Char := s.dropWhile isBlankChar

/-- Skips blanks, line breaks and comments; `comment` says that a comment is open. `none` if a
comment holds a character that it may not. -/
def skipSpace (comment : Bool) : List Char → Option (List Char)
  | [] => some []
  | '\r' :: '\n' :: s => skipSpace false s
  | '\n' :: s => skipSpace false s
  | c :: s =>
    if comment then if isLineChar c then skipSpace true s else none
    else if isBlankChar c then skipSpace false s
    else if c == '#' then skipSpace true s
    else some (c :: s)

/-- Reads the end of a line behind a statement: blanks, a comment, and a line break unless the text
ends. -/
def lineEnd? (s : List Char) : Option (List Char) :=
  let s := skipBlanks s
  let s := if s.head? = some '#' then s.dropWhile isLineChar else s
  if s.isEmpty then some [] else lineBreak? s

/-! ## Keys -/

/-- A character of a key without quotation marks. -/
def isKeyChar (c : Char) : Bool := c.isAlphanum || c == '_' || c == '-'

/-- Reads one part of a key. -/
def keyPart? : List Char → Option (String × List Char)
  | '"' :: s => (escapedLine? s).map fun r => (String.ofList r.1, r.2)
  | '\'' :: s => (literalLine? s).map fun r => (String.ofList r.1, r.2)
  | s =>
    let key := s.takeWhile isKeyChar
    if key.isEmpty then none else some (String.ofList key, s.dropWhile isKeyChar)

/-- Reads the parts of a key, which points divide, and the blanks around them. -/
def keyParts? : Nat → List Char → Option (List String × List Char)
  | 0, _ => none
  | fuel + 1, s => do
    let (key, s) ← keyPart? (skipBlanks s)
    match skipBlanks s with
    | '.' :: s => do
      let (keys, s) ← keyParts? fuel s
      return (key :: keys, s)
    | s => return ([key], s)

/-- How many parts a key may have, and how deep brackets and braces may nest. -/
def depthLimit : Nat := 79

/-- Reads a key. -/
def keys? (s : List Char) : Option (List String × List Char) := do
  let r ← keyParts? (s.length + 1) s
  guard (r.1.length ≤ depthLimit)
  return r

/-! ## Values -/

mutual

/-- Reads a value at the front of a text. `room` says how deep brackets and braces may still
nest. -/
def value? : Nat → Nat → List Char → Option (Item × List Char)
  | 0, _, _ => none
  | _ + 1, _, [] => none
  | fuel + 1, room, c :: s =>
    if c == '"' || c == '\'' then
      (quoted? (c :: s)).map fun r => (.string (String.ofList r.1), r.2)
    else if c == '[' then
      match room with
      | 0 => none
      | room + 1 => (items? fuel room s).map fun r => (.array r.1, r.2)
    else if c == '\x7b' then
      match room, skipBlanks s with
      | 0, _ => none
      | _ + 1, '\x7d' :: s => some (.table .braces [], s)
      | room + 1, s => do
        let (assignments, s) ← assignments? fuel room s
        return (← ofBraces? assignments, s)
    else plain? (c :: s)

/-- Reads the items of an array and its closing bracket. A comma may stand behind the last item. -/
def items? : Nat → Nat → List Char → Option (List Item × List Char)
  | 0, _, _ => none
  | fuel + 1, room, s => do
    match ← skipSpace false s with
    | ']' :: s => return ([], s)
    | s =>
      let (item, s) ← value? fuel room s
      match ← skipSpace false s with
      | ']' :: s => return ([item], s)
      | ',' :: s => do
        let (items, s) ← items? fuel room s
        return (item :: items, s)
      | _ => none

/-- Reads the assignments in a pair of braces, of which there is at least one, and the closing
brace. -/
def assignments? : Nat → Nat → List Char → Option (List Assignment × List Char)
  | 0, _, _ => none
  | fuel + 1, room, s => do
    match ← keys? s with
    | (keys, '=' :: s) =>
      let (value, s) ← value? fuel room (skipBlanks s)
      match skipBlanks s with
      | '\x7d' :: s => return ([⟨keys, value⟩], s)
      | ',' :: s => do
        let (rest, s) ← assignments? fuel room s
        return (⟨keys, value⟩ :: rest, s)
      | _ => none
    | _ => none

end

/-! ## Statements -/

/-- Reads a statement at the front of a text. Each call that reads a value takes at least one
character or hands over to one that does, so twice the length is fuel enough. -/
def statement? : List Char → Option (Statement × List Char)
  | '[' :: '[' :: s =>
    match keys? s with
    | some (keys, ']' :: ']' :: s) => some (.arrayHeader keys, s)
    | _ => none
  | '[' :: s =>
    match keys? s with
    | some (keys, ']' :: s) => some (.header keys, s)
    | _ => none
  | s =>
    match keys? s with
    | some (keys, '=' :: s) =>
      (value? (2 * s.length + 2) depthLimit (skipBlanks s)).map fun r => (.assign ⟨keys, r.1⟩, r.2)
    | _ => none

/-- Reads all statements of a text. -/
def statements? : Nat → List Char → Option (List Statement)
  | 0, _ => none
  | fuel + 1, s => do
    match ← skipSpace false s with
    | [] => return []
    | s =>
      let (statement, s) ← statement? s
      return statement :: (← statements? fuel (← lineEnd? s))

/-- Reads a text as one table. A byte-order mark may stand in front. -/
def parse? (text : String) : Option Entries := do
  let s := match text.toList with
    | '\uFEFF' :: s => s
    | s => s
  build? (← statements? (s.length + 1) s)

end VirtualShell.Toml
