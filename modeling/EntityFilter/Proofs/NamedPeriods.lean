import EntityFilter.Proofs.CalendarUnits
import EntityFilter.Proofs.LeafAnswers

/-!
# Periods that have a name

A filter on dates or instants can name a period.  The periods are compiled to bounds, an instant or
a date on either side.  What the names say is said without bounds (`Shortcut.Covers`): the same day,
the day before, the same week of the same year, the same month of the same year, the same year, and
for the periods that roll, the days before the present.

Both are the same for all values that write a date or an instant (`Leaf.period_exact`), as long as
the bounds lie in the calendar (`Shortcut.FitsCalendar`).  The calendar periods are spans of days,
from a first day up to another one that is left out, and an instant lies between two midnights if
its day lies between the two days (`Period.holds_days`).
-/

namespace EntityFilter

/-! ## What the names say -/

namespace Moment

/-- The day of a moment. -/
def toDate : Moment → Date
  | date d => d
  | instant t => t.date

/-- A moment lies at most so many days before the present, and not after it.  An instant is compared
with the present and the instant so many days earlier, a date with their dates. -/
def WithinDays (n : Nat) (now : Instant) : Moment → Prop
  | date d => (now.daysEarlier n).date.day ≤ d.day ∧ d.day ≤ now.date.day
  | instant t => (now.daysEarlier n).isLe t ∧ t.isLe now

instance (n : Nat) (now : Instant) : (m : Moment) → Decidable (m.WithinDays n now)
  | date _ => inferInstanceAs (Decidable (_ ∧ _))
  | instant _ => inferInstanceAs (Decidable (_ ∧ _))

end Moment

namespace Shortcut

/-- Whether a moment lies in a named period, seen from a given present. -/
def Covers (s : Shortcut) (now : Instant) (m : Moment) : Prop :=
  match s with
  | today => m.toDate = now.date
  | yesterday => m.toDate.addDays 1 = now.date
  | thisWeek => m.toDate.isoYear = now.date.isoYear ∧ m.toDate.isoWeek = now.date.isoWeek
  | thisMonth => m.toDate.year = now.date.year ∧ m.toDate.month = now.date.month
  | thisYear => m.toDate.year = now.date.year
  | pastWeek => m.WithinDays 7 now
  | pastMonth => m.WithinDays 30 now
  | pastYear => m.WithinDays 365 now

instance (s : Shortcut) (now : Instant) (m : Moment) : Decidable (s.Covers now m) :=
  match s with
  | today | yesterday | thisYear => inferInstanceAs (Decidable (_ = _))
  | thisWeek | thisMonth => inferInstanceAs (Decidable (_ ∧ _))
  | pastWeek | pastMonth | pastYear => inferInstanceAs (Decidable (m.WithinDays _ now))

/-- The bounds of a period lie in the calendar. -/
structure FitsCalendar (s : Shortcut) (now : Instant) : Prop where
  /-- The period begins and ends there. -/
  inRange : (s.period now).InRange
  /-- After the month there is another one. -/
  month : s = thisMonth → now.date.month = 12 → now.date.year < Date.maxYear
  /-- After the year there is another one. -/
  year : s = thisYear → now.date.year < Date.maxYear

end Shortcut

/-- The date or the instant that a value of a field is taken for. -/
def FieldKind.momentOf? (kind : FieldKind) : Document → Option Moment
  | .text s =>
    match kind with
    | .date => (Literal.dateOfText? s).map .date
    | _ => (Literal.instantOfText? s).map .instant
  | _ => none

/-! ## Instants and days -/

namespace Instant

variable {a t : Instant} {d : Date}

lemma compare_eq_lt_iff :
    compare a t = .lt ↔ a.second < t.second ∨ a.second = t.second ∧ a.nano < t.nano := by
  show (compare a.second t.second).then (compare a.nano t.nano) = .lt ↔ _
  rw [Ordering.then_eq_lt, compare_lt_iff_lt, compare_eq_iff_eq, compare_lt_iff_lt]

lemma compare_eq_gt_iff :
    compare a t = .gt ↔ t.second < a.second ∨ a.second = t.second ∧ t.nano < a.nano := by
  show (compare a.second t.second).then (compare a.nano t.nano) = .gt ↔ _
  rw [Ordering.then_eq_gt, compare_gt_iff_gt, compare_eq_iff_eq, compare_gt_iff_gt]

lemma isLe_iff : a.isLe t ↔ a.second < t.second ∨ a.second = t.second ∧ a.nano ≤ t.nano := by
  rw [isLe, bne_iff_ne, Ne, compare_eq_gt_iff]
  omega

lemma isLt_iff : a.isLt t ↔ a.second < t.second ∨ a.second = t.second ∧ a.nano < t.nano := by
  rw [isLt, beq_iff_eq, compare_eq_lt_iff]

/-- A day begins with its midnight. -/
lemma midnight_isLe_iff : (midnight d).isLe t ↔ d.day ≤ t.date.day := by
  rw [isLe_iff]
  simp only [midnight, date, daySeconds]
  omega

/-- The days before a day end at its midnight. -/
lemma isLt_midnight_iff : t.isLt (midnight d) ↔ t.date.day < d.day := by
  rw [isLt_iff]
  simp only [midnight, date, daySeconds]
  omega

lemma date_midnight (d : Date) : (midnight d).date = d := by
  refine Date.day_inj.mp ?_
  simp only [midnight, date, daySeconds]
  omega

end Instant

/-! ## Bounds -/

namespace Period

variable {p : Period} {kind : FieldKind} {m : Moment} {w : Document} {first next : Date}
  {now : Instant} {n : Nat}

/-- Whether a moment lies between the bounds of a period, or between their dates. -/
def Holds (p : Period) : Moment → Prop
  | .date d => p.start.date.day ≤ d.day ∧
    (if p.closed then d.day ≤ p.stop.date.day else d.day < p.stop.date.day)
  | .instant t => p.contains t

/-- What a comparison with a date says of a value that is taken for a date. -/
lemma admits_date {t : String} {d : Date} (op : CompareOp) (a : Date)
    (ht : Literal.dateOfText? t = some d) :
    (Literal.date a).admits op (some (.text t)) = op.holds (compare d a) := by
  simp [Literal.admits, Literal.orderOf?, Literal.ofDocument, Literal.coerceDate,
    Literal.compareSame?, ht]

lemma admits_instant {t : String} {i : Instant} (op : CompareOp) (a : Instant)
    (ht : Literal.instantOfText? t = some i) :
    (Literal.instant a).admits op (some (.text t)) = op.holds (compare i a) := by
  simp [Literal.admits, Literal.orderOf?, Literal.ofDocument, Literal.coerceInstant,
    Literal.compareSame?, ht]

/-- **A value is kept by the bounds of a period** if the moment that it is taken for lies between
them. -/
lemma admits_iff_holds (hkind : kind.isTemporal) (hw : kind.momentOf? w = some m) :
    p.admits kind.hasTime (some w) ↔ p.Holds m := by
  cases w with
  | text t =>
    cases kind with
    | date =>
      obtain ⟨d, ht, rfl⟩ := Option.map_eq_some_iff.mp hw
      have hcompare : ∀ a : Date, compare d a = compare d.day a.day := fun _ => rfl
      simp only [admits, bounds, FieldKind.hasTime, Bool.false_eq_true, if_false,
        admits_date _ _ ht, Holds, hcompare]
      cases p.closed <;> simp [CompareOp.holds, compare_lt_iff_lt, compare_gt_iff_gt]
    | dateTime =>
      obtain ⟨i, ht, rfl⟩ := Option.map_eq_some_iff.mp hw
      have hstart : CompareOp.gte.holds (compare i p.start) = p.start.isLe i := by
        rw [Bool.eq_iff_iff, Instant.isLe_iff, CompareOp.holds, bne_iff_ne, Ne,
          Instant.compare_eq_lt_iff]
        omega
      simp only [admits, bounds, FieldKind.hasTime, if_true, admits_instant _ _ ht, Holds, contains,
        hstart]
      cases p.closed <;> rfl
    | _ => simp [FieldKind.isTemporal] at hkind
  | _ => simp [FieldKind.momentOf?] at hw

/-- A period of days holds the moments of these days. -/
lemma holds_days :
    (days first next).Holds m ↔ first.day ≤ m.toDate.day ∧ m.toDate.day < next.day := by
  cases m with
  | date d => simp [Holds, days, Instant.date_midnight, Moment.toDate]
  | instant t =>
    simp [Holds, contains, days, Instant.midnight_isLe_iff, Instant.isLt_midnight_iff,
      Moment.toDate]

lemma holds_rolling : (rolling n now).Holds m ↔ m.WithinDays n now := by
  cases m with
  | date d => simp [Holds, rolling, Moment.WithinDays]
  | instant t => simp [Holds, contains, rolling, Moment.WithinDays]

end Period

/-! ## Named periods -/

namespace Shortcut

variable {s : Shortcut} {now : Instant} {m : Moment} {d : Date}

lemma ofCivil_first (y : Int) (m : Nat) : (Date.ofCivil y m 1).day = Date.monthStart y m := by
  simp [Date.ofCivil, Date.monthStart]

lemma ofCivil?_first {y : Int} {n : Nat} (hy : Date.minYear ≤ y) (hy' : y ≤ Date.maxYear)
    (hn : 1 ≤ n) (hn' : n ≤ 12) : Date.ofCivil? y n 1 = some (.ofCivil y n 1) := by
  have hdays : 1 ≤ Date.daysIn (Date.isLeap y) n := by
    have hall : ∀ leap : Bool, ∀ n ≤ 12, 1 ≤ n → 1 ≤ Date.daysIn leap n := by decide
    exact hall _ n hn' hn
  rw [Date.ofCivil?, if_pos ⟨hy, hy', hn, hn', le_refl 1, hdays⟩]

/-- The first day of a month is in the month. -/
lemma month_ofCivil {y : Int} {n : Nat} (hn : 1 ≤ n) (hn' : n ≤ 12) :
    (Date.ofCivil y n 1).year = y ∧ (Date.ofCivil y n 1).month = n := by
  refine (Date.month_eq_iff hn hn').mpr ?_
  rw [ofCivil_first]
  refine ⟨le_refl _, ?_⟩
  have hdays : ∀ leap : Bool, ∀ n ≤ 12, 1 ≤ n →
      Date.daysBefore leap n < Date.daysBefore leap (n + 1) := by
    decide
  have hlt := hdays (Date.isLeap y) n hn' hn
  unfold Date.monthStart
  omega

/-- After a month comes the next one, and after the last month of a year the next year. -/
lemma nextMonth_ofCivil (hd : d.InRange) (hnext : d.month = 12 → d.year < Date.maxYear) :
    (nextMonth (.ofCivil d.year d.month 1)).day = Date.monthStart d.year (d.month + 1) := by
  obtain ⟨hfirst, hlast⟩ := d.month_bounds
  obtain ⟨hyear, hmonth⟩ := month_ofCivil (y := d.year) hfirst hlast
  unfold nextMonth
  rw [hyear, hmonth]
  split
  · next hdecember =>
    have hbelow := hnext hdecember
    rw [ofCivil?_first (by have := hd.1; omega) hbelow (le_refl 1) (by decide), Option.getD_some,
      ofCivil_first, Date.monthStart_one, hdecember, Date.monthStart_thirteen]
  · next hbefore =>
    rw [ofCivil?_first hd.1 hd.2 (by omega) (by omega), Option.getD_some, ofCivil_first]

/-- **The bounds of a named period** hold what the name says. -/
theorem holds_period_iff (hnow : s.FitsCalendar now) : (s.period now).Holds m ↔ s.Covers now m := by
  cases s with
  | today =>
    rw [period, Period.holds_days, Covers, ← Date.day_inj]
    simp only [Date.addDays]
    omega
  | yesterday =>
    rw [period, Period.holds_days, Covers, ← Date.day_inj]
    simp only [Date.addDays]
    omega
  | thisWeek =>
    rw [period, Period.holds_days, Covers, Date.week_eq_iff, Date.monday_eq_iff]
    rfl
  | thisMonth =>
    obtain ⟨hfirst, hlast⟩ := now.date.month_bounds
    have hstart : (Date.ofCivil now.date.year now.date.month 1).InRange := by
      have hrange := hnow.inRange.1
      rwa [Instant.InRange, period, Period.days, Instant.date_midnight] at hrange
    have hrange : now.date.InRange := by
      rwa [Date.InRange, (month_ofCivil hfirst hlast).1] at hstart
    rw [period, Period.holds_days, Covers, Date.month_eq_iff hfirst hlast,
      TruncKind.truncateDate, ofCivil_first, nextMonth_ofCivil hrange (hnow.month rfl)]
  | thisYear =>
    have hstart : (Date.ofCivil now.date.year 1 1).InRange := by
      have hrange := hnow.inRange.1
      rwa [Instant.InRange, period, Period.days, Instant.date_midnight] at hrange
    have hrange : now.date.InRange := by
      rwa [Date.InRange, (month_ofCivil (le_refl 1) (by decide)).1] at hstart
    have hbelow := hnow.year rfl
    rw [period, Period.holds_days, Covers, Date.year_eq_iff, TruncKind.truncateDate, ofCivil_first,
      ofCivil?_first (by have := hrange.1; omega) hbelow (le_refl 1) (by decide), Option.getD_some,
      ofCivil_first, Date.monthStart_one, Date.monthStart_one]
  | pastWeek | pastMonth | pastYear => exact Period.holds_rolling

end Shortcut

/-! ## Leaves -/

namespace Leaf

variable {s : Shortcut} {kind : FieldKind} {now : Instant} {path : FieldPath} {row w : Document}
  {m : Moment}

lemma isNull_of_momentOf? (hw : kind.momentOf? w = some m) : w.isNull = false := by
  cases w with
  | null => simp [FieldKind.momentOf?] at hw
  | _ => rfl

/-- **What a named period answers.**  A value that is taken for a date or an instant is in the
period exactly if the name covers it, and outside of it otherwise. -/
theorem period_exact (hkind : kind.isTemporal) (hrow : row.readField? path = some w)
    (hw : kind.momentOf? w = some m) (hnow : s.FitsCalendar now) (inside : Bool) :
    (single s.name (.bool inside)).answer? kind now path row =
      some (decide (s.Covers now m) == inside) := by
  obtain ⟨info, hinfo, hperiod, hshape⟩ : ∃ info, kind.family.operator? s.name = some info ∧
      info.operator = .period s ∧ info.shape = .flag := by
    rw [FieldKind.family_of_isTemporal hkind]
    cases s <;> exact ⟨_, rfl, rfl, rfl⟩
  have hshaped : kind.family.shaped? info.shape (.bool inside) = some (.bool inside) := by
    rw [hshape]
    rfl
  have hcoerced : kind.coerce (.bool inside) = .bool inside := by
    cases kind <;> rfl
  have htest : (Condition.mk info (.bool inside)).simpleTest? kind now =
      some fun value => (s.period now).admits kind.hasTime value == inside := by
    simp only [Condition.simpleTest?, hperiod, Condition.coerced_eq, hcoerced]
    rfl
  have hvalue := Document.fieldValue?_of_readField? hrow (isNull_of_momentOf? hw)
  have hadmits : (s.period now).admits kind.hasTime (some w) = decide (s.Covers now m) := by
    rw [Bool.eq_iff_iff, decide_eq_true_iff, Period.admits_iff_holds hkind hw,
      Shortcut.holds_period_iff hnow]
  rw [answer?_of_simpleTest? hinfo hshaped (by rw [hperiod]; rfl) htest, hvalue, hadmits]

/-- At the end of December the week is the first one of the next year. -/
theorem period_exact_newYear :
    let now : Instant := ⟨1735560000, 0⟩
    let row := Document.object [("released", .text "2025-01-05")]
    now.date.render = "2024-12-30" ∧ Shortcut.thisWeek.FitsCalendar now ∧
      (single "this_week" (.bool true)).answer? .date now (.single "released") row = some true ∧
      (single "this_year" (.bool false)).answer? .date now (.single "released") row =
        some true := by
  intro now row
  have hmoment : FieldKind.date.momentOf? (.text "2025-01-05") = some (.date ⟨20093⟩) := by decide
  have hweek : Shortcut.thisWeek.FitsCalendar now := ⟨by decide, nofun, nofun⟩
  have hyear : Shortcut.thisYear.FitsCalendar now := ⟨by decide, nofun, fun _ => by decide⟩
  refine ⟨by decide, hweek, ?_, ?_⟩
  · exact (period_exact (s := .thisWeek) rfl rfl hmoment hweek true).trans (by decide)
  · exact (period_exact (s := .thisYear) rfl rfl hmoment hyear false).trans (by decide)

end Leaf

end EntityFilter
