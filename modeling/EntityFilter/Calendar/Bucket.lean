import EntityFilter.Calendar.Instant

/-!
# Buckets and parts of dates

Truncation sends a date or an instant to the beginning of the bucket that it lies in.  Extraction
reads one part off it.

At the beginning of the calendar a bucket can be cut off: its first day is missing then.  The first
of a month is looked up, and the date itself is taken if there is none; the Monday of a week is
counted back to, and truncation has no result if that leaves the calendar (`truncateDate?`,
`truncate?`).
-/

namespace EntityFilter

/-- The buckets that dates can be truncated to. -/
inductive TruncKind where
  | year
  | quarter
  | month
  | week
  | day
  | hour
  deriving DecidableEq, Repr

namespace TruncKind

/-- Every kind of bucket. -/
def all : List TruncKind := [year, quarter, month, week, day, hour]

/-- The name of a bucket. -/
def name : TruncKind → String
  | year => "year"
  | quarter => "quarter"
  | month => "month"
  | week => "week"
  | day => "day"
  | hour => "hour"

/-- The bucket of a name. -/
def ofName? (s : String) : Option TruncKind := all.find? (·.name = s)

/-- The first day of the bucket that a date lies in.  A date has no hours, so its hour is the day
itself. -/
def truncateDate (k : TruncKind) (d : Date) : Date :=
  match k with
  | year => .ofCivil d.year 1 1
  | quarter => .ofCivil d.year ((d.month - 1) / 3 * 3 + 1) 1
  | month => .ofCivil d.year d.month 1
  | week => d.monday
  | day => d
  | hour => d

/-- The beginning of the bucket that an instant lies in. -/
def truncate (k : TruncKind) (t : Instant) : Instant :=
  match k with
  | hour => t.hourStart
  | k => .midnight (k.truncateDate t.date)

/-- The first day of the bucket that a date lies in, unless the calendar ends on the way to it. -/
def truncateDate? (k : TruncKind) (d : Date) : Option Date :=
  match k with
  | year => some ((Date.ofCivil? d.year 1 1).getD d)
  | quarter => some ((Date.ofCivil? d.year ((d.month - 1) / 3 * 3 + 1) 1).getD d)
  | month => some ((Date.ofCivil? d.year d.month 1).getD d)
  | week => d.addDays? (-d.weekday)
  | day => some d
  | hour => some d

/-- The beginning of the bucket that an instant lies in, unless the calendar ends on the way to
it. -/
def truncate? (k : TruncKind) (t : Instant) : Option Instant :=
  match k with
  | hour => some t.hourStart
  | k => (k.truncateDate? t.date).map .midnight

end TruncKind

/-- The parts that can be read off a date or an instant. -/
inductive DatePart where
  | year
  | quarter
  | month
  | week
  | day
  | weekDay
  | hour
  | minute
  deriving DecidableEq, Repr

namespace DatePart

/-- Every part. -/
def all : List DatePart := [year, quarter, month, week, day, weekDay, hour, minute]

/-- The name of a part. -/
def name : DatePart → String
  | year => "year"
  | quarter => "quarter"
  | month => "month"
  | week => "week"
  | day => "day"
  | weekDay => "week_day"
  | hour => "hour"
  | minute => "minute"

/-- The part of a name. -/
def ofName? (s : String) : Option DatePart := all.find? (·.name = s)

/-- The name of a part in capitals. -/
def sql : DatePart → String
  | year => "YEAR"
  | quarter => "QUARTER"
  | month => "MONTH"
  | week => "WEEK"
  | day => "DAY"
  | weekDay => "WEEK_DAY"
  | hour => "HOUR"
  | minute => "MINUTE"

/-- Whether a part is read off the time of day. -/
def needsTime (p : DatePart) : Bool := p = hour || p = minute

/-- A part of a date.  Days of the week count from Sunday, which is 1, and a date begins at
midnight. -/
def ofDate (p : DatePart) (d : Date) : Int :=
  match p with
  | year => d.year
  | quarter => ((d.month - 1) / 3 + 1 : Nat)
  | month => d.month
  | week => d.isoWeek
  | day => d.dayOfMonth
  | weekDay => (d.weekday + 1) % 7 + 1
  | hour => 0
  | minute => 0

/-- A part of an instant. -/
def ofInstant (p : DatePart) (t : Instant) : Int :=
  match p with
  | hour => t.hour
  | minute => t.minute
  | p => p.ofDate t.date

end DatePart

end EntityFilter
