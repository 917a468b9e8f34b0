import EntityFilter.Calendar.Date

/-!
# Instants

An instant of Coordinated Universal Time is a number of seconds since the beginning of 1970 and a
number of nanoseconds.  A leap second is the second that follows the sixtieth one of a minute: it
shares the count of the second before it and has a thousand million nanoseconds more.
-/

namespace EntityFilter

/-- A point in time. -/
structure Instant where
  /-- Seconds since the beginning of 1970. -/
  second : Int
  /-- Nanoseconds within the second; from `10 ^ 9` on, those of a leap second. -/
  nano : Nat
  deriving DecidableEq, Repr, Inhabited

namespace Instant

/-- The seconds of a day. -/
def daySeconds : Int := 86400

/-- The nanoseconds of a second. -/
def secondNanos : Nat := 1000000000

/-- The day that an instant lies in. -/
def date (t : Instant) : Date := ⟨t.second / daySeconds⟩

/-- Whether an instant lies on a day of the calendar. -/
def InRange (t : Instant) : Prop := t.date.InRange

instance (t : Instant) : Decidable t.InRange := inferInstanceAs (Decidable t.date.InRange)

/-- The seconds since the beginning of the day. -/
def timeOfDay (t : Instant) : Nat := (t.second % daySeconds).toNat

/-- The hour, from 0 to 23. -/
def hour (t : Instant) : Nat := t.timeOfDay / 3600

/-- The minute of the hour, from 0 to 59. -/
def minute (t : Instant) : Nat := t.timeOfDay / 60 % 60

/-- The beginning of a day. -/
def midnight (d : Date) : Instant := ⟨d.day * daySeconds, 0⟩

/-- The beginning of the hour that an instant lies in. -/
def hourStart (t : Instant) : Instant := ⟨t.second - t.second % 3600, 0⟩

/-- The instant so many days earlier, at least one.  Going back from a leap second counts it as the
second that follows. -/
def daysEarlier (t : Instant) (n : Nat) : Instant :=
  if secondNanos ≤ t.nano then ⟨t.second + 1 - n * daySeconds, t.nano - secondNanos⟩
  else ⟨t.second - n * daySeconds, t.nano⟩

/-- The instant so many days earlier, if the calendar has its day. -/
def daysEarlier? (t : Instant) (n : Nat) : Option Instant :=
  if (t.daysEarlier n).InRange then some (t.daysEarlier n) else none

/-- Earlier instants first; a leap second comes after the second it follows. -/
instance : Ord Instant := ⟨fun a b => (compare a.second b.second).then (compare a.nano b.nano)⟩

/-- Whether an instant is not after another. -/
def isLe (a b : Instant) : Bool := compare a b != .gt

/-- Whether an instant is before another. -/
def isLt (a b : Instant) : Bool := compare a b == .lt

/-- The fraction of a second: none, or three, six or nine digits, as few as are exact. -/
def fractionText (nano : Nat) : String :=
  if nano = 0 then ""
  else if nano % 1000000 = 0 then "." ++ Date.padded 3 (nano / 1000000)
  else if nano % 1000 = 0 then "." ++ Date.padded 6 (nano / 1000)
  else "." ++ Date.padded 9 nano

/-- The text of an instant, such as `2024-01-05T10:00:00+00:00`. -/
def render (t : Instant) : String :=
  let leap := secondNanos ≤ t.nano
  let second := t.timeOfDay % 60 + (if leap then 1 else 0)
  let nano := if leap then t.nano - secondNanos else t.nano
  t.date.render ++ "T" ++ Date.padded 2 t.hour ++ ":" ++ Date.padded 2 t.minute ++ ":" ++
    Date.padded 2 second ++ fractionText nano ++ "+00:00"

end Instant

end EntityFilter
