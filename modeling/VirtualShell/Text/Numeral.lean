/-!
# Numerals

Decimal and hexadecimal numerals, columns of fixed width, and the reader of counts that the
commands share.
-/

namespace VirtualShell.Text

/-- A number in decimal. -/
def decimal (n : Nat) : String := String.ofList (Nat.toDigits 10 n)

/-- A whole number in decimal, with a minus sign if it is negative. -/
def decimalInt (z : Int) : String :=
  if z < 0 then "-" ++ decimal z.natAbs else decimal z.natAbs

/-- A text brought to at least `width` characters by `fill` in front. -/
def padLeft (width : Nat) (fill : Char) (s : String) : String :=
  String.ofList (List.replicate (width - s.length) fill) ++ s

/-- A text brought to at least `width` characters by blanks behind. -/
def padRight (width : Nat) (s : String) : String :=
  s ++ String.ofList (List.replicate (width - s.length) ' ')

/-- The value of a list of decimal digits. -/
def digitsValue (digits : List Char) : Nat := Nat.ofDigitChars 10 digits 0

/-- The largest count that a command line can name. -/
def countLimit : Nat := Nat.pow 2 64 - 1

/-- Reads a count: decimal digits, with a plus sign allowed in front, of a value in 64 bits. -/
def readCount? (s : String) : Option Nat :=
  let digits := match s.toList with
    | '+' :: r => r
    | r => r
  if digits.isEmpty || !digits.all Char.isDigit then none
  else
    let n := digitsValue digits
    if n ≤ countLimit then some n else none

/-- The least number that rounds past the largest floating-point number of 64 bits: it lies half
way between that one and the next power of two. -/
def floatLimit : Nat := Nat.pow 2 1024 - Nat.pow 2 970

/-- A mantissa times a power of ten is too large for a floating-point number of 64 bits. The number
of digits settles it unless it is near the limit. -/
def exceedsFloat (mantissa : Nat) (scale : Int) : Bool :=
  let digits := (Nat.toDigits 10 mantissa).length + scale
  if mantissa = 0 || digits < 309 then false
  else if digits > 310 then true
  else if scale ≥ 0 then mantissa * Nat.pow 10 scale.toNat ≥ floatLimit
  else mantissa ≥ floatLimit * Nat.pow 10 (-scale).toNat

/-- The value of a hexadecimal digit. -/
def hexDigit? (c : Char) : Option Nat :=
  if '0' ≤ c && c ≤ '9' then some (c.toNat - 48)
  else if 'a' ≤ c && c ≤ 'f' then some (c.toNat - 87)
  else if 'A' ≤ c && c ≤ 'F' then some (c.toNat - 55)
  else none

/-- The value of a list of hexadecimal digits. -/
def hexValue? (digits : List Char) : Option Nat :=
  digits.foldlM (fun n c => (hexDigit? c).map (16 * n + ·)) 0

/-- The character with a given code point, unless that is a surrogate or too large. -/
def charOfCode? (n : Nat) : Option Char :=
  if h : n.isValidChar then some (Char.ofNatAux n h) else none

end VirtualShell.Text
