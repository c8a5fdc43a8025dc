import VirtualShell.Text.Numeral

/-!
# Quoted strings

The four forms of a string: with or without escapes, on one line or on several. Each reader begins
behind the opening quotation marks and gives the characters with what follows the closing ones.
-/

namespace VirtualShell.Toml

open Text

/-- A blank inside a line. -/
def isBlankChar (c : Char) : Bool := c == ' ' || c == '\t'

/-- A character that may stand in a line: anything but control characters, the tab being allowed. -/
def isLineChar (c : Char) : Bool := c == '\t' || (32 ≤ c.toNat && c.toNat ≠ 127)

/-- Takes a line break off the front of a text. A carriage return counts only before a line feed. -/
def lineBreak? : List Char → Option (List Char)
  | '\n' :: s => some s
  | '\r' :: '\n' :: s => some s
  | _ => none

/-- The character that a one-letter escape stands for. -/
def letterEscape? : Char → Option Char
  | 'b' => some '\x08'
  | 't' => some '\t'
  | 'n' => some '\n'
  | 'f' => some '\x0c'
  | 'r' => some '\r'
  | '"' => some '"'
  | '\\' => some '\\'
  | _ => none

/-- The character whose code some hexadecimal digits give. -/
def codeEscape? (digits : List Char) : Option Char := (hexValue? digits).bind charOfCode?

/-- Puts a character in front of what is read after it. -/
def consRead (c : Char) (r : List Char × List Char) : List Char × List Char := (c :: r.1, r.2)

/-- Reads a string with escapes on one line. -/
def escapedLine? : List Char → Option (List Char × List Char)
  | [] => none
  | '"' :: s => some ([], s)
  | '\\' :: 'u' :: a :: b :: c :: d :: s => do
    return consRead (← codeEscape? [a, b, c, d]) (← escapedLine? s)
  | '\\' :: 'U' :: a :: b :: c :: d :: e :: f :: g :: h :: s => do
    return consRead (← codeEscape? [a, b, c, d, e, f, g, h]) (← escapedLine? s)
  | '\\' :: e :: s => do return consRead (← letterEscape? e) (← escapedLine? s)
  | c :: s => if isLineChar c && c != '\\' then (escapedLine? s).map (consRead c) else none

/-- Reads a string without escapes on one line. -/
def literalLine? : List Char → Option (List Char × List Char)
  | [] => none
  | '\'' :: s => some ([], s)
  | c :: s => if isLineChar c then (literalLine? s).map (consRead c) else none

/-- Reads a string with escapes on several lines. Up to two quotation marks may stand before the
three that close it. A backslash at the end of a line takes away the break and all blanks and
breaks after it; `trimming` says that this is under way. -/
def escapedLines? (trimming : Bool) : List Char → Option (List Char × List Char)
  | [] => none
  | '"' :: '"' :: '"' :: '"' :: '"' :: s => some (['"', '"'], s)
  | '"' :: '"' :: '"' :: '"' :: s => some (['"'], s)
  | '"' :: '"' :: '"' :: s => some ([], s)
  | '\r' :: '\n' :: s =>
    if trimming then escapedLines? true s else (escapedLines? false s).map (consRead '\n')
  | '\n' :: s =>
    if trimming then escapedLines? true s else (escapedLines? false s).map (consRead '\n')
  | '\\' :: 'u' :: a :: b :: c :: d :: s => do
    return consRead (← codeEscape? [a, b, c, d]) (← escapedLines? false s)
  | '\\' :: 'U' :: a :: b :: c :: d :: e :: f :: g :: h :: s => do
    return consRead (← codeEscape? [a, b, c, d, e, f, g, h]) (← escapedLines? false s)
  | '\\' :: e :: s =>
    if (lineBreak? ((e :: s).dropWhile isBlankChar)).isSome then escapedLines? true (e :: s)
    else do return consRead (← letterEscape? e) (← escapedLines? false s)
  | c :: s =>
    if trimming && isBlankChar c then escapedLines? true s
    else if isLineChar c && c != '\\' then (escapedLines? false s).map (consRead c)
    else none

/-- Reads a string without escapes on several lines. Up to two apostrophes may stand before the
three that close it. -/
def literalLines? : List Char → Option (List Char × List Char)
  | [] => none
  | '\'' :: '\'' :: '\'' :: '\'' :: '\'' :: s => some (['\'', '\''], s)
  | '\'' :: '\'' :: '\'' :: '\'' :: s => some (['\''], s)
  | '\'' :: '\'' :: '\'' :: s => some ([], s)
  | '\r' :: '\n' :: s => (literalLines? s).map (consRead '\n')
  | c :: s =>
    if isLineChar c || c == '\n' then (literalLines? s).map (consRead c) else none

/-- Drops a line break directly behind the opening of a string on several lines. -/
def dropFirstBreak (s : List Char) : List Char := (lineBreak? s).getD s

/-- Reads a string of any form at the front of a text. -/
def quoted? : List Char → Option (List Char × List Char)
  | '"' :: '"' :: '"' :: s => escapedLines? false (dropFirstBreak s)
  | '\'' :: '\'' :: '\'' :: s => literalLines? (dropFirstBreak s)
  | '"' :: s => escapedLine? s
  | '\'' :: s => literalLine? s
  | _ => none

end VirtualShell.Toml
