import VirtualShell.Calendar.Instant
import VirtualShell.Text.Blank
import VirtualShell.Text.Numeral

/-!
# Time stamps

The written form of an instant: date, `T`, time of day, as many of three, six or nine fractional
digits as are needed, and the offset from universal time. The reader is wider than the printer: it
allows blanks before the numbers and separators, a `t` or a blank for the `T`, any number of
fractional digits, signed years, and offsets, which it turns into universal time.
-/

namespace VirtualShell.Calendar

open Text

/-- A number of two digits. -/
def twoDigits (n : Nat) : String := padLeft 2 '0' (decimal n)

/-- A year: four digits, with a sign outside of the years 0 to 9999. -/
def yearText (year : Int) : String :=
  if 0 ≤ year ∧ year ≤ 9999 then padLeft 4 '0' (decimal year.toNat)
  else (if year < 0 then "-" else "+") ++ padLeft 4 '0' (decimal year.natAbs)

/-- The fraction of a second with the fewest digits, in threes, that lose nothing. -/
def fractionText (nanos : Nat) : String :=
  if nanos = 0 then ""
  else if nanos % 1000000 = 0 then "." ++ padLeft 3 '0' (decimal (nanos / 1000000))
  else if nanos % 1000 = 0 then "." ++ padLeft 6 '0' (decimal (nanos / 1000))
  else "." ++ padLeft 9 '0' (decimal nanos)

/-- A time stamp with a given text for the offset. -/
def Instant.stampWith (offset : String) (t : Instant) : String :=
  let d := t.date
  yearText d.year ++ "-" ++ twoDigits d.month ++ "-" ++ twoDigits d.day ++ "T" ++
    twoDigits t.hour ++ ":" ++ twoDigits t.minute ++ ":" ++ twoDigits t.second ++
    fractionText t.subsecond ++ offset

/-- The time stamp that is stored and shown. -/
def Instant.stamp (t : Instant) : String := t.stampWith "Z"

namespace Stamp

/-- Takes up to `most` digits, and at least one, off the front of a text, blanks before them being
skipped. -/
def number? (most : Nat) (s : List Char) : Option (Nat × List Char) :=
  let s := trimLeft s
  let digits := (s.take most).takeWhile Char.isDigit
  if digits.isEmpty then none else some (digitsValue digits, s.drop digits.length)

/-- Takes a year off the front of a text: four digits at most, or any number of them after a
sign. -/
def year? (s : List Char) : Option (Int × List Char) :=
  let unbounded (r : List Char) : Option (Int × List Char) :=
    let digits := r.takeWhile Char.isDigit
    if digits.isEmpty then none
    else some ((digitsValue digits : Int), r.drop digits.length)
  match trimLeft s with
  | '-' :: r => (unbounded r).map fun p => (-p.1, p.2)
  | '+' :: r => unbounded r
  | r => (number? 4 r).map fun p => ((p.1 : Int), p.2)

/-- Skips blanks, then takes one given character. -/
def expect? (c : Char) (s : List Char) : Option (List Char) :=
  match trimLeft s with
  | d :: r => if d = c then some r else none
  | [] => none

/-- Takes a fraction of a second off the front of a text, if there is one. Digits after the ninth
do not count. -/
def fraction? : List Char → Option (Nat × List Char)
  | '.' :: s =>
    let all := s.takeWhile Char.isDigit
    let digits := all.take 9
    if digits.isEmpty then none
    else some (digitsValue digits * Nat.pow 10 (9 - digits.length), s.drop all.length)
  | s => some (0, s)

/-- Two digits at the front of a text. -/
def pair? : List Char → Option (Nat × List Char)
  | a :: b :: r => if a.isDigit && b.isDigit then some (digitsValue [a, b], r) else none
  | _ => none

/-- Takes an offset from universal time off the front of a text, in minutes. -/
def offset? (s : List Char) : Option (Int × List Char) :=
  let signed (sign : Int) (r : List Char) : Option (Int × List Char) := do
    let (hours, r) ← pair? r
    let (minutes, r) ← pair? (r.dropWhile fun c => c == ':' || isBlank c)
    if minutes < 60 ∧ hours < 24 then some (sign * (60 * hours + minutes : Nat), r) else none
  if (s.take 3).map Char.toUpper = ['U', 'T', 'C'] then some (0, s.drop 3)
  else match s with
    | 'Z' :: r => some (0, r)
    | 'z' :: r => some (0, r)
    | '+' :: r => signed 1 r
    | '-' :: r => signed (-1) r
    | '\u2212' :: r => signed (-1) r
    | _ => none

/-- The years in which an instant can lie. -/
def yearInRange (year : Int) : Bool := -262143 ≤ year && year ≤ 262142

end Stamp

open Stamp in
/-- Reads a time stamp. -/
def Instant.ofStamp? (text : String) : Option Instant := do
  let (year, s) ← year? text.toList
  let s ← expect? '-' s
  let (month, s) ← number? 2 s
  let s ← expect? '-' s
  let (day, s) ← number? 2 s
  let s ← match s with
    | 't' :: r => some r
    | 'T' :: r => some r
    | ' ' :: r => some r
    | _ => none
  let (hour, s) ← number? 2 s
  let s ← expect? ':' s
  let (minute, s) ← number? 2 s
  let s ← expect? ':' s
  let (second, s) ← number? 2 s
  let (fraction, s) ← fraction? s
  let (offset, s) ← offset? (trimLeft s)
  let date : Date := ⟨year, month, day⟩
  guard ((trimLeft s).isEmpty && yearInRange year && decide date.IsValid)
  guard (hour < 24 && minute < 60 && second ≤ 60)
  let leap := if second = 60 then 1 else 0
  let seconds : Int :=
    date.toDays * 86400 + (hour * 3600 + minute * 60 + (second - leap) : Nat) - offset * 60
  let instant : Instant := ⟨seconds, fraction + leap * nanosPerSecond⟩
  guard (yearInRange instant.date.year)
  return instant

end VirtualShell.Calendar
