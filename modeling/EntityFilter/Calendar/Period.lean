import EntityFilter.Calendar.Bucket
import EntityFilter.Literal

/-!
# Named periods

A filter can name a period instead of giving its bounds.  Calendar periods run from the beginning
of a bucket to the beginning of the next one, which they leave out; rolling periods run from some
days before the present up to the present, which they include.

Near the ends of the calendar a period may not fit into it.  For the next month and the next year
the calendar is asked, and a month or a year at its end is left empty; where days are counted, there
is no period (`Shortcut.period?`).
-/

namespace EntityFilter

/-- The periods that have a name. -/
inductive Shortcut where
  | today
  | yesterday
  | thisWeek
  | pastWeek
  | thisMonth
  | pastMonth
  | thisYear
  | pastYear
  deriving DecidableEq, Repr

/-- A span of time that starts with its first instant. -/
structure Period where
  /-- The first instant. -/
  start : Instant
  /-- Where the period ends. -/
  stop : Instant
  /-- Whether the end belongs to it. -/
  closed : Bool
  deriving DecidableEq, Repr

namespace Period

/-- Whether an instant lies in a period. -/
def contains (p : Period) (t : Instant) : Bool :=
  p.start.isLe t && (if p.closed then t.isLe p.stop else t.isLt p.stop)

/-- Whether a period starts and ends in the calendar. -/
def InRange (p : Period) : Prop := p.start.InRange ∧ p.stop.InRange

instance (p : Period) : Decidable p.InRange := inferInstanceAs (Decidable (_ ∧ _))

/-- The bounds as literals for a field with or without a time of day. -/
def bounds (p : Period) (hasTime : Bool) : Literal × Literal :=
  if hasTime then (.instant p.start, .instant p.stop) else (.date p.start.date, .date p.stop.date)

/-- The days from one date to another one, the last one left out. -/
def days (first next : Date) : Period := ⟨.midnight first, .midnight next, false⟩

/-- The time from some days before an instant up to it. -/
def rolling (n : Nat) (now : Instant) : Period := ⟨now.daysEarlier n, now, true⟩

/-- The time from some days before an instant up to it, if the calendar goes back so far. -/
def rolling? (n : Nat) (now : Instant) : Option Period :=
  (now.daysEarlier? n).map fun start => ⟨start, now, true⟩

end Period

namespace Shortcut

/-- Every named period. -/
def all : List Shortcut :=
  [today, yesterday, thisWeek, pastWeek, thisMonth, pastMonth, thisYear, pastYear]

/-- The name of a period. -/
def name : Shortcut → String
  | today => "today"
  | yesterday => "yesterday"
  | thisWeek => "this_week"
  | pastWeek => "past_week"
  | thisMonth => "this_month"
  | pastMonth => "past_month"
  | thisYear => "this_year"
  | pastYear => "past_year"

/-- The period of a name. -/
def ofName? (s : String) : Option Shortcut := all.find? (·.name = s)

/-- The first day of the month after the one that starts with a date.  At the end of the calendar
there is none, and the date itself is taken. -/
def nextMonth (first : Date) : Date :=
  let next := if first.month = 12 then Date.ofCivil? (first.year + 1) 1 1
    else Date.ofCivil? first.year (first.month + 1) 1
  next.getD first

/-- The period that a name stands for at a given present. -/
def period (s : Shortcut) (now : Instant) : Period :=
  let today' := now.date
  match s with
  | today => .days today' (today'.addDays 1)
  | yesterday => .days (today'.addDays (-1)) today'
  | thisWeek => .days today'.monday (today'.monday.addDays 7)
  | thisMonth =>
    let first := TruncKind.month.truncateDate today'
    .days first (nextMonth first)
  | thisYear =>
    let first := TruncKind.year.truncateDate today'
    .days first ((Date.ofCivil? (today'.year + 1) 1 1).getD first)
  | pastWeek => .rolling 7 now
  | pastMonth => .rolling 30 now
  | pastYear => .rolling 365 now

/-- The period that a name stands for at a given present, unless the calendar ends within it. -/
def period? (s : Shortcut) (now : Instant) : Option Period :=
  let today' := now.date
  match s with
  | today => (today'.addDays? 1).map fun next => .days today' next
  | yesterday => (today'.addDays? (-1)).map fun first => .days first today'
  | thisWeek =>
    (TruncKind.week.truncateDate? today').bind fun first =>
      (first.addDays? 7).map fun next => .days first next
  | thisMonth =>
    (TruncKind.month.truncateDate? today').map fun first => .days first (nextMonth first)
  | thisYear =>
    (TruncKind.year.truncateDate? today').map fun first =>
      .days first ((Date.ofCivil? (today'.year + 1) 1 1).getD first)
  | pastWeek => Period.rolling? 7 now
  | pastMonth => Period.rolling? 30 now
  | pastYear => Period.rolling? 365 now

end Shortcut

end EntityFilter
