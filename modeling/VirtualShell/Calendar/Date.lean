/-!
# Dates of the Gregorian calendar

Days are counted from 1 January 1970. The year zero exists and precedes the year one, and the leap
rule is carried back before its introduction. A day number and a year, month and day determine
each other.
-/

namespace VirtualShell.Calendar

/-- A year with 366 days. -/
def isLeap (year : Int) : Bool := (year % 4 == 0 && year % 100 != 0) || year % 400 == 0

/-- The number of days from 1 January of the year zero to 1 January of a year. -/
def daysBeforeYear (year : Int) : Int :=
  365 * year + (year + 3) / 4 - (year + 99) / 100 + (year + 399) / 400

/-- The number of days from 1 January of the year zero to 1 January 1970. -/
def epochDay : Int := 719528

/-- The year that holds a day, counted from 1 January of the year zero. The quotient by the mean
length of a year is off by one at most. -/
def yearOfDay (n : Int) : Int :=
  let guess := 400 * n / 146097
  if n < daysBeforeYear guess then guess - 1
  else if n < daysBeforeYear (guess + 1) then guess
  else guess + 1

/-- The lengths of the twelve months. -/
def monthLengths (leap : Bool) : List Nat :=
  [31, if leap then 29 else 28, 31, 30, 31, 30, 31, 31, 30, 31, 30, 31]

/-- Splits a day of the year into the number of whole months before it and the day of its month,
both from zero. -/
def splitMonths : List Nat → Nat → Nat × Nat
  | [], d => (0, d)
  | l :: ls, d =>
    if d < l then (0, d)
    else
      let r := splitMonths ls (d - l)
      (r.1 + 1, r.2)

/-- A date: months and days count from one. -/
structure Date where
  year : Int
  month : Nat
  day : Nat
  deriving DecidableEq, Repr

namespace Date

/-- A date that the calendar has. -/
def IsValid (d : Date) : Prop :=
  1 ≤ d.month ∧ d.month ≤ 12 ∧ 1 ≤ d.day ∧
    d.day ≤ (monthLengths (isLeap d.year)).getD (d.month - 1) 0

instance (d : Date) : Decidable d.IsValid := by unfold IsValid; infer_instance

/-- The date of a day number. -/
def ofDays (days : Int) : Date :=
  let n := days + epochDay
  let year := yearOfDay n
  let parts := splitMonths (monthLengths (isLeap year)) (n - daysBeforeYear year).toNat
  ⟨year, parts.1 + 1, parts.2 + 1⟩

/-- The day of the year, from zero. -/
def dayOfYear (d : Date) : Nat :=
  ((monthLengths (isLeap d.year)).take (d.month - 1)).foldl (· + ·) 0 + (d.day - 1)

/-- The day number of a date. -/
def toDays (d : Date) : Int := daysBeforeYear d.year + d.dayOfYear - epochDay

/-- Days since the last Sunday: 1 January 1970 was a Thursday. -/
def daysFromSunday (d : Date) : Nat := ((d.toDays + 4) % 7).toNat

/-- Days since the last Monday. -/
def daysFromMonday (d : Date) : Nat := ((d.toDays + 3) % 7).toNat

/-- The Thursday of the same week, weeks beginning on Monday. It decides which year a week
belongs to. -/
def thursday (d : Date) : Date := ofDays (d.toDays - d.daysFromMonday + 3)

/-- The year that a date's week belongs to. -/
def weekYear (d : Date) : Int := d.thursday.year

/-- The number of a date's week in its week year. -/
def week (d : Date) : Nat := d.thursday.dayOfYear / 7 + 1

/-- Weeks since the year's first Sunday, the days before it being week zero. -/
def weekFromSunday (d : Date) : Nat := (d.dayOfYear + 7 - d.daysFromSunday) / 7

/-- Weeks since the year's first Monday, the days before it being week zero. -/
def weekFromMonday (d : Date) : Nat := (d.dayOfYear + 7 - d.daysFromMonday) / 7

end Date

end VirtualShell.Calendar
