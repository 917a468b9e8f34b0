/-!
# Dates

A date of the proleptic Gregorian calendar is a day number, counted from the first of January
1970.  Year, month and day are read off it: `yearStart` gives the first day of a year, `yearOf`
estimates the year from the mean length of one and corrects the estimate by at most a year.

The calendar ends: only years from `minYear` to `maxYear` can be written or read.  Arithmetic on
day numbers has no end of its own, so `InRange` says when a result is still in the calendar, and
`addDays?` gives no result that is not.
-/

namespace EntityFilter

/-- A day of the calendar. -/
structure Date where
  /-- Days since the first of January 1970. -/
  day : Int
  deriving DecidableEq, Repr, Inhabited

namespace Date

/-- The first year of the calendar. -/
def minYear : Int := -262143

/-- The last year of the calendar. -/
def maxYear : Int := 262142

/-- Whether a year has a twenty-ninth of February. -/
def isLeap (year : Int) : Bool := year % 4 == 0 && (year % 100 != 0 || year % 400 == 0)

/-- The day number of the first of January. -/
def yearStart (year : Int) : Int :=
  let past := year - 1
  365 * past + past / 4 - past / 100 + past / 400 - 719162

/-- The year of a day number. -/
def yearOf (day : Int) : Int :=
  let guess := 400 * (day + 719162) / 146097 + 1
  if day < yearStart guess then guess - 1
  else if yearStart (guess + 1) ≤ day then guess + 1
  else guess

/-- The days of the year before the first of a month. -/
def daysBefore (leap : Bool) (month : Nat) : Nat :=
  match month with
  | 1 => 0
  | 2 => 31
  | 3 => 59 + leap.toNat
  | 4 => 90 + leap.toNat
  | 5 => 120 + leap.toNat
  | 6 => 151 + leap.toNat
  | 7 => 181 + leap.toNat
  | 8 => 212 + leap.toNat
  | 9 => 243 + leap.toNat
  | 10 => 273 + leap.toNat
  | 11 => 304 + leap.toNat
  | 12 => 334 + leap.toNat
  | _ => 365 + leap.toNat

/-- The days of a month. -/
def daysIn (leap : Bool) (month : Nat) : Nat := daysBefore leap (month + 1) - daysBefore leap month

/-- The month of a day of the year, counted from zero. -/
def monthOf (leap : Bool) (n : Nat) : Nat :=
  if n < 31 then 1
  else if n < 59 + leap.toNat then 2
  else if n < 90 + leap.toNat then 3
  else if n < 120 + leap.toNat then 4
  else if n < 151 + leap.toNat then 5
  else if n < 181 + leap.toNat then 6
  else if n < 212 + leap.toNat then 7
  else if n < 243 + leap.toNat then 8
  else if n < 273 + leap.toNat then 9
  else if n < 304 + leap.toNat then 10
  else if n < 334 + leap.toNat then 11
  else 12

/-- The year. -/
def year (d : Date) : Int := yearOf d.day

/-- The days of the year before a date. -/
def dayOfYear (d : Date) : Nat := (d.day - yearStart d.year).toNat

/-- The month, from 1 to 12. -/
def month (d : Date) : Nat := monthOf (isLeap d.year) d.dayOfYear

/-- The day of the month, from 1 to 31. -/
def dayOfMonth (d : Date) : Nat := d.dayOfYear - daysBefore (isLeap d.year) d.month + 1

/-- The date of a year, a month and a day, which need not fit together. -/
def ofCivil (year : Int) (month dayOfMonth : Nat) : Date :=
  ⟨yearStart year + daysBefore (isLeap year) month + dayOfMonth - 1⟩

/-- Whether a date lies in the calendar. -/
def InRange (d : Date) : Prop := minYear ≤ d.year ∧ d.year ≤ maxYear

instance (d : Date) : Decidable d.InRange := inferInstanceAs (Decidable (_ ∧ _))

/-- The date of a year, a month and a day, if the calendar has it. -/
def ofCivil? (year : Int) (month dayOfMonth : Nat) : Option Date :=
  if minYear ≤ year ∧ year ≤ maxYear ∧ 1 ≤ month ∧ month ≤ 12 ∧ 1 ≤ dayOfMonth ∧
      dayOfMonth ≤ daysIn (isLeap year) month then
    some (ofCivil year month dayOfMonth)
  else none

/-- The date so many days later. -/
def addDays (d : Date) (n : Int) : Date := ⟨d.day + n⟩

/-- The date so many days later, if the calendar has it. -/
def addDays? (d : Date) (n : Int) : Option Date :=
  if (d.addDays n).InRange then some (d.addDays n) else none

/-- The days since the last Monday, from 0 to 6. -/
def weekday (d : Date) : Int := (d.day + 3) % 7

/-- The Monday of the week. -/
def monday (d : Date) : Date := d.addDays (-d.weekday)

/-- The year that the week of a date is counted in: the year of its Thursday. -/
def isoYear (d : Date) : Int := (d.monday.addDays 3).year

/-- The number of the week in its year, from 1 to 53. -/
def isoWeek (d : Date) : Nat := (d.monday.addDays 3).dayOfYear / 7 + 1

instance : Ord Date := ⟨fun a b => compare a.day b.day⟩

/-- A number with leading zeros. -/
def padded (width n : Nat) : String :=
  let text := toString n
  String.ofList (List.replicate (width - text.length) '0') ++ text

/-- A year of four digits; with a sign in front when it has more or lies before the year zero. -/
def yearText (y : Int) : String :=
  if 0 ≤ y ∧ y ≤ 9999 then padded 4 y.toNat
  else (if y < 0 then "-" else "+") ++ padded 4 y.natAbs

/-- The text of a date, such as `2024-01-05`. -/
def render (d : Date) : String :=
  yearText d.year ++ "-" ++ padded 2 d.month ++ "-" ++ padded 2 d.dayOfMonth

end Date

end EntityFilter
