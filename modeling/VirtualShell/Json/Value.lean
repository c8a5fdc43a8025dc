import VirtualShell.Text.Numeral

/-!
# Structured values and their compact text

The values that saved states are made of, and the one text in which the program writes a value:
no blanks, members in their order, and in strings only the quotation mark, the backslash and the
control characters escaped.

A value that was read may hold more than one that is written: a number keeps what its numeral
showed, and a string whose escapes denote no text is still a string.
-/

namespace VirtualShell.Json

/-- A number as its numeral shows it: a mantissa times a power of ten. -/
structure Number where
  negative : Bool
  mantissa : Nat
  scale : Int
  /-- The numeral has neither a fraction nor an exponent. -/
  whole : Bool
  deriving DecidableEq, Repr

/-- A value. -/
inductive Value where
  | null
  | bool (b : Bool)
  | number (n : Number)
  /-- A string; `none` if an escape in it is half of a surrogate pair without its other half. -/
  | string (s : Option String)
  | array (items : List Value)
  | object (members : List (Option String × Value))

namespace Value

/-- A string value. -/
def text (s : String) : Value := .string (some s)

/-- A natural number. -/
def count (n : Nat) : Value := .number ⟨false, n, 0, true⟩

/-- An object with the given members. -/
def record (members : List (String × Value)) : Value :=
  .object (members.map fun m => (some m.1, m.2))

end Value

/-- A lowercase hexadecimal digit. -/
def hexDigit (n : Nat) : Char := Char.ofNat (if n < 10 then 48 + n else 87 + n)

/-- How one character stands between quotation marks. -/
def escape (c : Char) : List Char :=
  if c = '"' then ['\\', '"']
  else if c = '\\' then ['\\', '\\']
  else if c = '\x08' then ['\\', 'b']
  else if c = '\t' then ['\\', 't']
  else if c = '\n' then ['\\', 'n']
  else if c = '\x0c' then ['\\', 'f']
  else if c = '\r' then ['\\', 'r']
  else if c.toNat < 32 then
    ['\\', 'u', '0', '0', hexDigit (c.toNat / 16), hexDigit (c.toNat % 16)]
  else [c]

/-- A text between quotation marks. -/
def quote (s : List Char) : List Char := '"' :: s.flatMap escape ++ ['"']

/-- The numeral of a number. A whole number without a scale is its digits. -/
def Number.render (n : Number) : List Char :=
  (if n.negative then ['-'] else []) ++ Nat.toDigits 10 n.mantissa ++
    if n.scale = 0 then [] else 'e' :: (Text.decimalInt n.scale).toList

mutual

/-- The compact text of a value. -/
def Value.render : Value → List Char
  | .null => ['n', 'u', 'l', 'l']
  | .bool true => ['t', 'r', 'u', 'e']
  | .bool false => ['f', 'a', 'l', 's', 'e']
  | .number n => n.render
  | .string s => quote (s.getD "").toList
  | .array items => '[' :: renderItems items ++ [']']
  | .object members => '\x7b' :: renderMembers members ++ ['\x7d']

/-- The texts of some values, commas between them. -/
def renderItems : List Value → List Char
  | [] => []
  | [v] => v.render
  | v :: vs => v.render ++ ',' :: renderItems vs

/-- The texts of some members, commas between them. -/
def renderMembers : List (Option String × Value) → List Char
  | [] => []
  | [(k, v)] => quote (k.getD "").toList ++ ':' :: v.render
  | (k, v) :: ms => quote (k.getD "").toList ++ ':' :: v.render ++ ',' :: renderMembers ms

end

/-- The compact text of a value, as a string. -/
def Value.toText (v : Value) : String := String.ofList v.render

end VirtualShell.Json
