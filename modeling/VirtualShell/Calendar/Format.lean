import VirtualShell.Calendar.Stamp

/-!
# Date formats

A format is a text with conversions that begin with a percent sign. It is read into a list of
pieces, or refused as a whole when one conversion is unknown; the pieces are then written for an
instant. One piece, the offset that only a reader understands, cannot be written.
-/

namespace VirtualShell.Calendar

open Text

/-- How a number is filled up to its width. -/
inductive Fill where
  | nothing
  | zeros
  | blanks
  deriving DecidableEq, Repr

/-- A number that a conversion can stand for. -/
inductive Quantity where
  | year | century | yearOfCentury | weekYear | weekYearOfCentury | quarter | month | day
  | weekFromSunday | weekFromMonday | week | daysFromSunday | dayOfWeek | dayOfYear
  | hour | hour12 | minute | second | nanosecond | timestamp
  deriving DecidableEq, Repr

/-- A part of a format. -/
inductive Piece where
  | text (s : List Char)
  | number (q : Quantity) (fill : Fill)
  | monthName (short : Bool)
  | dayName (short : Bool)
  | half (upper : Bool)
  /-- The fraction of a second with its point, in as many digits as it needs. -/
  | fraction
  /-- The fraction of a second in a fixed number of digits. -/
  | digits (point : Bool) (count : Nat)
  | zoneName
  | offset (text : String)
  /-- An offset that may lack its minutes: there is no way to write it. -/
  | looseOffset
  | stamp
  deriving DecidableEq, Repr

namespace Piece

/-- A one-character text. -/
def char (c : Char) : Piece := .text [c]

/-- A number filled with zeros. -/
def zeros (q : Quantity) : Piece := .number q .zeros

/-- A number filled with blanks. -/
def blanks (q : Quantity) : Piece := .number q .blanks

end Piece

namespace Format

open Piece

/-- Month, day and year of the century between slashes. -/
def slashed : List Piece :=
  [zeros .month, char '/', zeros .day, char '/', zeros .yearOfCentury]

/-- Hour and minute. -/
def clock : List Piece := [zeros .hour, char ':', zeros .minute]

/-- Hour, minute and second. -/
def longClock : List Piece := clock ++ [char ':', zeros .second]

/-- What a conversion stands for whose letter follows the percent sign directly. -/
def letter? : Char → Option (List Piece)
  | 'A' => some [.dayName false]
  | 'B' => some [.monthName false]
  | 'C' => some [zeros .century]
  | 'D' => some slashed
  | 'F' => some [zeros .year, char '-', zeros .month, char '-', zeros .day]
  | 'G' => some [zeros .weekYear]
  | 'H' => some [zeros .hour]
  | 'I' => some [zeros .hour12]
  | 'M' => some [zeros .minute]
  | 'P' => some [.half false]
  | 'R' => some clock
  | 'S' => some [zeros .second]
  | 'T' => some longClock
  | 'U' => some [zeros .weekFromSunday]
  | 'V' => some [zeros .week]
  | 'W' => some [zeros .weekFromMonday]
  | 'X' => some longClock
  | 'Y' => some [zeros .year]
  | 'Z' => some [.zoneName]
  | 'a' => some [.dayName true]
  | 'b' => some [.monthName true]
  | 'c' => some ([.dayName true, char ' ', .monthName true, char ' ', blanks .day, char ' '] ++
      longClock ++ [char ' ', zeros .year])
  | 'd' => some [zeros .day]
  | 'e' => some [blanks .day]
  | 'f' => some [zeros .nanosecond]
  | 'g' => some [zeros .weekYearOfCentury]
  | 'h' => some [.monthName true]
  | 'j' => some [zeros .dayOfYear]
  | 'k' => some [blanks .hour]
  | 'l' => some [blanks .hour12]
  | 'm' => some [zeros .month]
  | 'n' => some [char '\n']
  | 'p' => some [.half true]
  | 'q' => some [zeros .quarter]
  | 'r' => some [zeros .hour12, char ':', zeros .minute, char ':', zeros .second, char ' ',
      .half true]
  | 's' => some [.number .timestamp .nothing]
  | 't' => some [char '\t']
  | 'u' => some [zeros .dayOfWeek]
  | 'v' => some [blanks .day, char '-', .monthName true, char '-', zeros .year]
  | 'w' => some [zeros .daysFromSunday]
  | 'x' => some slashed
  | 'y' => some [zeros .yearOfCentury]
  | 'z' => some [.offset "+0000"]
  | '+' => some [.stamp]
  | '%' => some [char '%']
  | _ => none

/-- Reads one conversion off the text behind a percent sign, apart from those with a sign for the
filling. -/
def plain? : List Char → Option (List Piece × List Char)
  | ':' :: ':' :: ':' :: 'z' :: r => some ([.offset "+00"], r)
  | ':' :: ':' :: 'z' :: r => some ([.offset "+00:00:00"], r)
  | ':' :: 'z' :: r => some ([.offset "+00:00"], r)
  | '.' :: 'f' :: r => some ([.fraction], r)
  | '.' :: '3' :: 'f' :: r => some ([.digits true 3], r)
  | '.' :: '6' :: 'f' :: r => some ([.digits true 6], r)
  | '.' :: '9' :: 'f' :: r => some ([.digits true 9], r)
  | '3' :: 'f' :: r => some ([.digits false 3], r)
  | '6' :: 'f' :: r => some ([.digits false 6], r)
  | '9' :: 'f' :: r => some ([.digits false 9], r)
  | c :: r => (letter? c).map (·, r)
  | [] => none

/-- Reads a conversion whose filling is given: it must stand for a single number. -/
def filled? (fill : Fill) (s : List Char) : Option (List Piece × List Char) :=
  match plain? s with
  | some ([.number q _], r) => some ([.number q fill], r)
  | _ => none

/-- Reads one conversion off the text behind a percent sign. -/
def conversion? : List Char → Option (List Piece × List Char)
  | '-' :: r => filled? .nothing r
  | '0' :: r => filled? .zeros r
  | '_' :: r => filled? .blanks r
  | '#' :: 'z' :: r => some ([.looseOffset], r)
  | s => plain? s

/-- Reads a format, one character or conversion at a time. Each takes at least one character, so
`fuel` may be the length of the text. -/
def read? : Nat → List Char → Option (List Piece)
  | 0, _ => some []
  | _, [] => some []
  | fuel + 1, '%' :: s => do
    let (pieces, r) ← conversion? s
    return pieces ++ (← read? fuel r)
  | fuel + 1, c :: s => do return char c :: (← read? fuel s)

/-- The pieces of a format; `none` if it holds an unknown conversion. -/
def ofText? (s : String) : Option (List Piece) := read? s.toList.length s.toList

/-- The names of the months. -/
def monthNames : List String :=
  ["January", "February", "March", "April", "May", "June", "July", "August", "September",
    "October", "November", "December"]

/-- The names of the days of the week. -/
def dayNames : List String :=
  ["Sunday", "Monday", "Tuesday", "Wednesday", "Thursday", "Friday", "Saturday"]

/-- A name, or its first three letters. -/
def shorten (short : Bool) (name : String) : String :=
  if short then String.ofList (name.toList.take 3) else name

/-- The hour on a twelve-hour clock. -/
def hour12 (hour : Nat) : Nat := if hour % 12 = 0 then 12 else hour % 12

/-- Writes a byte in two places. A tens count above nine is the character that many places after
the zero. -/
def inTwoPlaces (fill : Fill) (n : Nat) : String :=
  let tens : List Char :=
    if n / 10 = 0 then
      match fill with
      | .nothing => []
      | .zeros => ['0']
      | .blanks => [' ']
    else [Char.ofNat (48 + n / 10)]
  String.ofList (tens ++ [Char.ofNat (48 + n % 10)])

/-- Writes a whole number in at least `width` places; a sign, if there is one, comes before
filling zeros and behind filling blanks. -/
def inPlaces (width : Nat) (fill : Fill) (z : Int) (sign : String) : String :=
  let body := decimal z.natAbs
  match fill with
  | .nothing => sign ++ body
  | .zeros => sign ++ padLeft (width - sign.length) '0' body
  | .blanks => padLeft width ' ' (sign ++ body)

/-- The sign of a number that shows it only when negative. -/
def minus (z : Int) : String := if z < 0 then "-" else ""

/-- Writes a year in four places, with a sign and a place for it outside of 0 to 9999. -/
def yearInPlaces (fill : Fill) (year : Int) : String :=
  if 0 ≤ year ∧ year ≤ 9999 then inPlaces 4 fill year ""
  else inPlaces 5 fill year (if year < 0 then "-" else "+")

/-- The value of a quantity, as it is written. -/
def quantityText (t : Instant) (fill : Fill) : Quantity → String
  | .year => yearInPlaces fill t.date.year
  | .century => inTwoPlaces fill (t.date.year / 100 % 256).toNat
  | .yearOfCentury => inTwoPlaces fill (t.date.year % 100).toNat
  | .weekYear => yearInPlaces fill t.date.weekYear
  | .weekYearOfCentury => inTwoPlaces fill (t.date.weekYear % 100).toNat
  | .quarter => decimal ((t.date.month - 1) / 3 + 1)
  | .month => inTwoPlaces fill t.date.month
  | .day => inTwoPlaces fill t.date.day
  | .weekFromSunday => inTwoPlaces fill t.date.weekFromSunday
  | .weekFromMonday => inTwoPlaces fill t.date.weekFromMonday
  | .week => inTwoPlaces fill t.date.week
  | .daysFromSunday => decimal t.date.daysFromSunday
  | .dayOfWeek => decimal (t.date.daysFromMonday + 1)
  | .dayOfYear => inPlaces 3 fill (t.date.dayOfYear + 1) ""
  | .hour => inTwoPlaces fill t.hour
  | .hour12 => inTwoPlaces fill (hour12 t.hour)
  | .minute => inTwoPlaces fill t.minute
  | .second => inTwoPlaces fill t.second
  | .nanosecond => inPlaces 9 fill t.subsecond ""
  | .timestamp => inPlaces 9 fill t.seconds (minus t.seconds)

/-- Writes one piece for an instant. -/
def pieceText? (t : Instant) : Piece → Option String
  | .text s => some (String.ofList s)
  | .number q fill => some (quantityText t fill q)
  | .monthName short => some (shorten short (monthNames.getD (t.date.month - 1) ""))
  | .dayName short => some (shorten short (dayNames.getD t.date.daysFromSunday ""))
  | .half upper =>
    some (if t.hour < 12 then (if upper then "AM" else "am") else (if upper then "PM" else "pm"))
  | .fraction => some (fractionText t.subsecond)
  | .digits point count =>
    some ((if point then "." else "") ++
      padLeft count '0' (decimal (t.subsecond / Nat.pow 10 (9 - count))))
  | .zoneName => some "UTC"
  | .offset shown => some shown
  | .looseOffset => none
  | .stamp => some (t.stampWith "+00:00")

/-- Writes the pieces of a format for an instant; `none` if one of them cannot be written. -/
def render? (t : Instant) (pieces : List Piece) : Option String :=
  (pieces.mapM (pieceText? t)).map String.join

/-- The text that a format without unknown or unwritable conversions gives, and nothing for
others. -/
def write (format : String) (t : Instant) : String :=
  ((ofText? format).bind (render? t)).getD ""

end Format

end VirtualShell.Calendar
