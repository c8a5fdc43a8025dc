import VirtualShell.Json.Value

/-!
# Reading structured values

The reader takes any text of the format: blanks around tokens, every escape, numbers with fraction
and exponent. A value and its nested parts are read from the front of a text; the whole text must
be one value with blanks around it.
-/

namespace VirtualShell.Json

/-- The four blanks of the format. -/
def isSpace (c : Char) : Bool := c == ' ' || c == '\t' || c == '\n' || c == '\r'

def skipSpace (s : List Char) : List Char := s.dropWhile isSpace

/-- A unit of a string as it is written: a character, or a code of a 16-bit escape. -/
inductive StringUnit where
  | char (c : Char)
  | code (n : Nat)
  deriving DecidableEq, Repr

/-- Four hexadecimal digits. -/
def fourHex? (a b c d : Char) : Option Nat := Text.hexValue? [a, b, c, d]

/-- The character that a one-letter escape stands for. -/
def shortEscape? : Char → Option Char
  | '"' => some '"'
  | '\\' => some '\\'
  | '/' => some '/'
  | 'b' => some '\x08'
  | 'f' => some '\x0c'
  | 'n' => some '\n'
  | 'r' => some '\r'
  | 't' => some '\t'
  | _ => none

/-- Reads the units of a string up to its closing quotation mark. -/
def stringUnits? : List Char → Option (List StringUnit × List Char)
  | [] => none
  | '"' :: s => some ([], s)
  | '\\' :: 'u' :: a :: b :: c :: d :: s => do
    let n ← fourHex? a b c d
    let (us, r) ← stringUnits? s
    return (.code n :: us, r)
  | '\\' :: e :: s => do
    let c ← shortEscape? e
    let (us, r) ← stringUnits? s
    return (.char c :: us, r)
  | c :: s =>
    if c.toNat < 32 || c == '\\' then none
    else do
      let (us, r) ← stringUnits? s
      return (.char c :: us, r)

/-- The text of some units: two codes of a surrogate pair are one character, and a code of half a
pair denotes nothing. -/
def unitsText? : List StringUnit → Option (List Char)
  | [] => some []
  | .char c :: us => (unitsText? us).map (c :: ·)
  | .code n :: us =>
    if 0xD800 ≤ n ∧ n < 0xDC00 then
      match us with
      | .code m :: us =>
        if 0xDC00 ≤ m ∧ m < 0xE000 then do
          let c ← Text.charOfCode? (0x10000 + (n - 0xD800) * 0x400 + (m - 0xDC00))
          (unitsText? us).map (c :: ·)
        else none
      | _ => none
    else do
      let c ← Text.charOfCode? n
      (unitsText? us).map (c :: ·)

/-- Reads a string behind its opening quotation mark. -/
def string? (s : List Char) : Option (Option String × List Char) :=
  (stringUnits? s).map fun p => ((unitsText? p.1).map String.ofList, p.2)

/-- Reads the digits at the front of a text; there must be one. -/
def digits? (s : List Char) : Option (List Char × List Char) :=
  let ds := s.takeWhile Char.isDigit
  if ds.isEmpty then none else some (ds, s.drop ds.length)

/-- Reads the digits behind a point, if there is one. -/
def fractionDigits? : List Char → Option (List Char × List Char)
  | '.' :: s => digits? s
  | s => some ([], s)

/-- Reads the exponent, if there is one. -/
def exponent? : List Char → Option (Option Int × List Char)
  | e :: s =>
    if e == 'e' || e == 'E' then
      match s with
      | '-' :: s => (digits? s).map fun p => (some (-(Text.digitsValue p.1 : Int)), p.2)
      | '+' :: s => (digits? s).map fun p => (some (Text.digitsValue p.1 : Int), p.2)
      | s => (digits? s).map fun p => (some (Text.digitsValue p.1 : Int), p.2)
    else some (none, e :: s)
  | [] => some (none, [])

/-- Reads a number. A leading zero stands alone before the point. -/
def number? (s : List Char) : Option (Number × List Char) := do
  let (negative, s) := match s with
    | '-' :: r => (true, r)
    | r => (false, r)
  let (ds, s) ← digits? s
  guard (ds.length = 1 ∨ ds.head? ≠ some '0')
  let (fs, s) ← fractionDigits? s
  let (e, s) ← exponent? s
  return (⟨negative, Text.digitsValue (ds ++ fs), e.getD 0 - fs.length,
    fs.isEmpty && e.isNone⟩, s)

/-- Takes a keyword off the front of a text. -/
def keyword? (word s : List Char) : Option (List Char) :=
  if word.isPrefixOf s then some (s.drop word.length) else none

mutual

/-- Reads a value at the front of a text, blanks before it being skipped. -/
def value? : Nat → List Char → Option (Value × List Char)
  | 0, _ => none
  | fuel + 1, s =>
    match skipSpace s with
    | [] => none
    | '"' :: r => (string? r).map fun p => (.string p.1, p.2)
    | '[' :: r =>
      match skipSpace r with
      | ']' :: r => some (.array [], r)
      | r => (items? fuel r).map fun p => (.array p.1, p.2)
    | '\x7b' :: r =>
      match skipSpace r with
      | '\x7d' :: r => some (.object [], r)
      | r => (members? fuel r).map fun p => (.object p.1, p.2)
    | 'n' :: r => (keyword? ['u', 'l', 'l'] r).map fun r => (.null, r)
    | 't' :: r => (keyword? ['r', 'u', 'e'] r).map fun r => (.bool true, r)
    | 'f' :: r => (keyword? ['a', 'l', 's', 'e'] r).map fun r => (.bool false, r)
    | c :: r => (number? (c :: r)).map fun p => (.number p.1, p.2)

/-- Reads the items of an array, of which there is at least one, and its closing bracket. -/
def items? : Nat → List Char → Option (List Value × List Char)
  | 0, _ => none
  | fuel + 1, s =>
    match value? fuel s with
    | none => none
    | some (v, r) =>
      match skipSpace r with
      | ',' :: r => (items? fuel r).map fun p => (v :: p.1, p.2)
      | ']' :: r => some ([v], r)
      | _ => none

/-- Reads the members of an object, of which there is at least one, and its closing brace. -/
def members? : Nat → List Char → Option (List (Option String × Value) × List Char)
  | 0, _ => none
  | fuel + 1, s =>
    match skipSpace s with
    | '"' :: s =>
      match string? s with
      | none => none
      | some (k, r) =>
        match skipSpace r with
        | ':' :: r =>
          match value? fuel r with
          | none => none
          | some (v, r) =>
            match skipSpace r with
            | ',' :: r => (members? fuel r).map fun p => ((k, v) :: p.1, p.2)
            | '\x7d' :: r => some ([(k, v)], r)
            | _ => none
        | _ => none
    | _ => none

end

/-- Reads a whole text as one value. Each call takes at least one character or hands over to one
that does, so twice the length is fuel enough. -/
def parse? (text : String) : Option Value :=
  let s := text.toList
  match value? (2 * s.length + 2) s with
  | some (v, r) => if (skipSpace r).isEmpty then some v else none
  | none => none

end VirtualShell.Json
