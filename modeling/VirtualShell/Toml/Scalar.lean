import VirtualShell.Calendar.Date
import VirtualShell.Text.Numeral
import VirtualShell.Toml.Basic

/-!
# Plain words

Values that stand without quotation marks or brackets: truth values, numbers, dates and times. Such
a value is one word, and the whole word must be the value; only a date may be followed by one blank
and a time.
-/

namespace VirtualShell.Toml

open Text

/-- A character of a plain word. -/
def isWordChar (c : Char) : Bool :=
  c.isAlphanum || c == '+' || c == '-' || c == '_' || c == '.' || c == ':'

/-! ## Numbers -/

/-- The digits of a numeral, each underscore in it standing between two of them. -/
def grouped? (isDigit : Char → Bool) : List Char → Option (List Char)
  | [] => none
  | [c] => if isDigit c then some [c] else none
  | c :: '_' :: s => if isDigit c then (grouped? isDigit s).map (c :: ·) else none
  | c :: s => if isDigit c then (grouped? isDigit s).map (c :: ·) else none

/-- The digits of a decimal numeral. A leading zero stands alone. -/
def decimalDigits? (s : List Char) : Option (List Char) := do
  let ds ← grouped? Char.isDigit s
  guard (ds.length = 1 ∨ ds.head? ≠ some '0')
  return ds

/-- Splits a sign off a numeral; `true` is minus. -/
def splitSign : List Char → Bool × List Char
  | '-' :: s => (true, s)
  | '+' :: s => (false, s)
  | s => (false, s)

/-- The largest integer, one less than the number of negative ones. -/
def integerLimit : Nat := Nat.pow 2 63 - 1

/-- An integer of a given size, if it is in range. -/
def integer? (negative : Bool) (n : Nat) : Option Item :=
  if negative then if n ≤ integerLimit + 1 then some (.integer (-n)) else none
  else if n ≤ integerLimit then some (.integer n) else none

/-- Reads an unsigned integer in some base. -/
def baseInteger? (base : Nat) (isDigit : Char → Bool) (s : List Char) : Option Item := do
  let ds ← (← grouped? isDigit s).mapM hexDigit?
  integer? false (ds.foldl (fun n d => base * n + d) 0)

/-- Reads an integer. A base other than ten goes without a sign. -/
def readInteger? : List Char → Option Item
  | '0' :: 'x' :: s => baseInteger? 16 (fun c => (hexDigit? c).isSome) s
  | '0' :: 'o' :: s => baseInteger? 8 (fun c => '0' ≤ c && c ≤ '7') s
  | '0' :: 'b' :: s => baseInteger? 2 (fun c => c == '0' || c == '1') s
  | s => do
    let (negative, s) := splitSign s
    integer? negative (digitsValue (← decimalDigits? s))

/-- Reads an exponent behind its letter. -/
def exponent? (s : List Char) : Option Int := do
  let (negative, s) := splitSign s
  let n := digitsValue (← grouped? Char.isDigit s)
  return if negative then -n else n

/-- A floating-point number, which may not be too large above zero. -/
def float? (negative : Bool) (digits : List Char) (scale : Int) : Option Item :=
  if !negative && exceedsFloat (digitsValue digits) scale then none else some .scalar

/-- Reads a floating-point number: a fraction, an exponent or both. -/
def readFloat? (s : List Char) : Option Item := do
  let (negative, s) := splitSign s
  let numeralChar (c : Char) : Bool := c.isDigit || c == '_'
  let whole ← decimalDigits? (s.takeWhile numeralChar)
  match s.dropWhile numeralChar with
  | '.' :: s => do
    let fraction ← grouped? Char.isDigit (s.takeWhile numeralChar)
    let e ← match s.dropWhile numeralChar with
      | [] => some 0
      | c :: s => if c == 'e' || c == 'E' then exponent? s else none
    float? negative (whole ++ fraction) (e - fraction.length)
  | c :: s => if c == 'e' || c == 'E' then float? negative whole (← exponent? s) else none
  | [] => none

/-! ## Dates and times -/

/-- The value of a numeral of exactly two digits, if it is in bounds. -/
def twoDigits? (lowest highest : Nat) (a b : Char) : Option Nat := do
  guard (a.isDigit && b.isDigit)
  let n := digitsValue [a, b]
  guard (lowest ≤ n ∧ n ≤ highest)
  return n

/-- Reads a date at the front of a word and gives it in normal form. -/
def date? : List Char → Option (List Char × List Char)
  | y₁ :: y₂ :: y₃ :: y₄ :: '-' :: m₁ :: m₂ :: '-' :: d₁ :: d₂ :: s => do
    let year := [y₁, y₂, y₃, y₄]
    guard (year.all Char.isDigit)
    let month ← twoDigits? 1 12 m₁ m₂
    let day ← twoDigits? 1 31 d₁ d₂
    guard (Calendar.Date.mk (digitsValue year) month day).IsValid
    return (year ++ ['-', m₁, m₂, '-', d₁, d₂], s)
  | _ => none

/-- Reads the fraction of a second, if there is one. Of its digits nine count, and zeros at their
end are left out. -/
def fraction? : List Char → Option (List Char × List Char)
  | '.' :: s => do
    let ds := s.takeWhile Char.isDigit
    guard (!ds.isEmpty)
    let kept := ((ds.take 9).reverse.dropWhile (· == '0')).reverse
    return (if kept.isEmpty then [] else '.' :: kept, s.dropWhile Char.isDigit)
  | s => some ([], s)

/-- Reads a time at the front of a word and gives it in normal form. A minute may have a sixty-first
second. -/
def time? : List Char → Option (List Char × List Char)
  | h₁ :: h₂ :: ':' :: m₁ :: m₂ :: ':' :: s₁ :: s₂ :: s => do
    let _ ← twoDigits? 0 23 h₁ h₂
    let _ ← twoDigits? 0 59 m₁ m₂
    let _ ← twoDigits? 0 60 s₁ s₂
    let (fraction, s) ← fraction? s
    return ([h₁, h₂, ':', m₁, m₂, ':', s₁, s₂] ++ fraction, s)
  | _ => none

/-- The normal form of an offset from universal time, which may be left out. The offset of nothing
is positive. -/
def offset? : List Char → Option (List Char)
  | [] => some []
  | ['Z'] => some ['Z']
  | ['z'] => some ['Z']
  | [sign, h₁, h₂, ':', m₁, m₂] => do
    guard (sign == '+' || sign == '-')
    let hours ← twoDigits? 0 23 h₁ h₂
    let minutes ← twoDigits? 0 59 m₁ m₂
    return [if hours + minutes = 0 then '+' else sign, h₁, h₂, ':', m₁, m₂]
  | _ => none

/-- Reads a time with an offset, in normal form. -/
def zonedTime? (s : List Char) : Option (List Char) := do
  let (time, s) ← time? s
  return time ++ (← offset? s)

/-- Reads a word as a date, a time or both. A time alone has no offset. -/
def moment? (s : List Char) : Option Item :=
  match date? s with
  | some (date, []) => some (.moment (String.ofList date))
  | some (date, t :: s) =>
    if t == 'T' || t == 't' then
      (zonedTime? s).map fun time => .moment (String.ofList (date ++ 'T' :: time))
    else none
  | none =>
    match time? s with
    | some (time, []) => some (.moment (String.ofList time))
    | _ => none

/-! ## Words -/

/-- Reads a word. -/
def word? (s : List Char) : Option Item :=
  let unsigned := (splitSign s).2
  if s = "true".toList ∨ s = "false".toList ∨ unsigned = "inf".toList ∨ unsigned = "nan".toList then
    some .scalar
  else ((moment? s).or (readFloat? s)).or (readInteger? s)

/-- Reads a plain value at the front of a text. A date is followed by a time if there is one blank
and a further word behind it. -/
def plain? (s : List Char) : Option (Item × List Char) :=
  let word := s.takeWhile isWordChar
  let rest := s.dropWhile isWordChar
  match date? word, rest with
  | some (date, []), ' ' :: r =>
    let next := r.takeWhile isWordChar
    if next.isEmpty then some (.moment (String.ofList date), rest)
    else (zonedTime? next).map fun time =>
      (.moment (String.ofList (date ++ 'T' :: time)), r.dropWhile isWordChar)
  | _, _ => (word? word).map (·, rest)

end VirtualShell.Toml
