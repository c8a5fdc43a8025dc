import VirtualShell.Calendar.Date

/-!
# Instants

A point in time, in universal time: whole seconds since the start of 1970 and nanoseconds. A leap
second is the second before it with a nanosecond count of a thousand million or more.
-/

namespace VirtualShell.Calendar

/-- A point in time. -/
structure Instant where
  seconds : Int
  nanos : Nat
  deriving DecidableEq, Repr, Inhabited

/-- The number of nanoseconds in a second. -/
def nanosPerSecond : Nat := 1000000000

namespace Instant

def date (t : Instant) : Date := Date.ofDays (t.seconds / 86400)

/-- Seconds since midnight. -/
def secondOfDay (t : Instant) : Nat := (t.seconds % 86400).toNat

def hour (t : Instant) : Nat := t.secondOfDay / 3600

def minute (t : Instant) : Nat := t.secondOfDay / 60 % 60

/-- The second of the minute, which is sixty in a leap second. -/
def second (t : Instant) : Nat := t.secondOfDay % 60 + t.nanos / nanosPerSecond

/-- The nanoseconds within the second. -/
def subsecond (t : Instant) : Nat := t.nanos % nanosPerSecond

/-- Nanoseconds from one instant to a later one, negative if it is earlier. A leap second counts
when it lies wholly between the two times of day. -/
def since (later earlier : Instant) : Int :=
  let leap : Int :=
    if later.secondOfDay > earlier.secondOfDay then
      if earlier.nanos ≥ nanosPerSecond then 1 else 0
    else if later.secondOfDay < earlier.secondOfDay then
      if later.nanos ≥ nanosPerSecond then -1 else 0
    else 0
  (later.seconds - earlier.seconds + leap) * nanosPerSecond + later.nanos - earlier.nanos

end Instant

end VirtualShell.Calendar
