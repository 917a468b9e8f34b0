import EntityFilter.Proofs.BucketStarts
import Mathlib.Data.List.TakeWhile

/-!
# The ends of the calendar

The calendar is the span of days from `Date.first` to `Date.last` (`Date.inRange_iff`).  Steps from
day to day have a result as long as it lies in that span.

The first day is a Thursday, so the first four days have no Monday; all other buckets of a date
begin in the calendar (`TruncKind.truncateDate?_eq`).  Of the named periods, those that reach to the
next day or the next week are missing on the last day, and those that reach back some days are
missing when the calendar does not go back so far (`Shortcut.period?_eq`).  The month and the year
are never missing.

Whatever a text in a row writes lies in the calendar (`Moment.inRange_of_ofDocument?`).
-/

namespace EntityFilter

/-! ## The span of the calendar -/

namespace Date

variable {d e : Date} {y : Int} {m n : Nat}

/-- The first day of the calendar. -/
def first : Date := .ofCivil minYear 1 1

/-- The last day of the calendar. -/
def last : Date := .ofCivil maxYear 12 31

/-- The first Monday of the calendar. -/
def firstMonday : Date := first.addDays 4

/-- **The calendar is a span of days.** -/
theorem inRange_iff : d.InRange ↔ first.day ≤ d.day ∧ d.day ≤ last.day := by
  have hbounds := (year_eq_iff (d := d)).mp rfl
  have hfirst : first.day = yearStart minYear := by decide
  have hlast : last.day + 1 = yearStart (maxYear + 1) := by decide
  rw [InRange, hfirst, ← Int.lt_add_one_iff (b := last.day), hlast]
  constructor
  · rintro ⟨hmin, hmax⟩
    have hlow : yearStart minYear ≤ yearStart d.year := yearStart_mono hmin
    have hhigh : yearStart (d.year + 1) ≤ yearStart (maxYear + 1) := yearStart_mono (by omega)
    omega
  · rintro ⟨hlow, hhigh⟩
    constructor
    · by_contra hyear
      have hmono : yearStart (d.year + 1) ≤ yearStart minYear := yearStart_mono (by omega)
      omega
    · by_contra hyear
      have hmono : yearStart (maxYear + 1) ≤ yearStart d.year := yearStart_mono (by omega)
      omega

/-- The number of the first day, and the number of the last one. -/
lemma ends : first.day = -96465292 ∧ last.day = 95026236 := by decide

lemma addDays?_eq (d : Date) (n : Int) :
    d.addDays? n =
      if first.day ≤ d.day + n ∧ d.day + n ≤ last.day then some (d.addDays n) else none :=
  if_congr inRange_iff rfl rfl

lemma monday_le : d.monday.day ≤ d.day := by
  simp only [monday, addDays, weekday]
  omega

/-- The calendar has the Monday of a week from the first Monday on. -/
lemma first_le_monday_iff : first.day ≤ d.monday.day ↔ firstMonday.day ≤ d.day := by
  obtain ⟨hfirst, -⟩ := ends
  simp only [monday, firstMonday, addDays, weekday, hfirst]
  omega

/-- The last day is a Monday, so the calendar has the next Monday of all days before it. -/
lemma monday_add_seven_le_iff : d.monday.day + 7 ≤ last.day ↔ d.day < last.day := by
  obtain ⟨-, hlast⟩ := ends
  simp only [monday, addDays, weekday, hlast]
  omega

lemma inRange_ofCivil_first (hd : d.InRange) (hn : 1 ≤ n) (hn' : n ≤ 12) :
    (ofCivil d.year n 1).InRange := by
  rwa [InRange, (Shortcut.month_ofCivil hn hn').1]

lemma year_of_ofCivil? (h : ofCivil? y m n = some d) : d.year = y := by
  obtain ⟨hday, hm, hm', hn, hlast⟩ := ofCivil?_eq_some h
  have hend : daysBefore (isLeap y) (m + 1) ≤ daysBefore (isLeap y) 13 :=
    daysBefore_mono _ (by omega) (by omega) (le_refl 13)
  have hdays : daysBefore (isLeap y) 13 = 365 + (isLeap y).toNat := rfl
  have hnext := yearStart_succ y
  exact year_eq_iff.mpr ⟨by omega, by omega⟩

/-- A date that is put together from its parts lies in the calendar. -/
lemma inRange_of_ofCivil? (h : ofCivil? y m n = some d) : d.InRange := by
  rw [InRange, year_of_ofCivil? h]
  unfold ofCivil? at h
  split at h
  · next hvalid => exact ⟨hvalid.1, hvalid.2.1⟩
  · contradiction

end Date

/-! ## Beginnings of buckets -/

namespace TruncKind

variable {k : TruncKind} {d : Date} {t : Instant}

/-- Whether the calendar has the first day of the bucket that a date lies in. -/
def Fits (k : TruncKind) (d : Date) : Prop := k = week → Date.firstMonday.day ≤ d.day

instance (k : TruncKind) (d : Date) : Decidable (k.Fits d) := inferInstanceAs (Decidable (_ → _))

lemma fits_of_ne (hk : k ≠ week) : k.Fits d := fun h => absurd h hk

/-- A bucket has its first day in the calendar, except for the week that the calendar begins in. -/
lemma inRange_truncateDate_iff (hd : d.InRange) : (k.truncateDate d).InRange ↔ k.Fits d := by
  obtain ⟨hfirst, hlast⟩ := d.month_bounds
  cases k with
  | year =>
    have hyear := Date.inRange_ofCivil_first hd (le_refl 1) (by decide)
    exact iff_of_true hyear (fits_of_ne (by decide))
  | quarter =>
    have hquarter : (Date.ofCivil d.year ((d.month - 1) / 3 * 3 + 1) 1).InRange :=
      Date.inRange_ofCivil_first hd (by omega) (by omega)
    exact iff_of_true hquarter (fits_of_ne (by decide))
  | month =>
    have hmonth := Date.inRange_ofCivil_first hd hfirst hlast
    exact iff_of_true hmonth (fits_of_ne (by decide))
  | week =>
    have hmonday := d.monday_le
    have hend := (Date.inRange_iff.mp hd).2
    rw [Fits, imp_iff_right rfl, ← Date.first_le_monday_iff, truncateDate, Date.inRange_iff]
    omega
  | day | hour => exact iff_of_true hd (fits_of_ne (by decide))

/-- **Dates are truncated** to the first day of their bucket, if the calendar has it. -/
theorem truncateDate?_eq (hd : d.InRange) :
    k.truncateDate? d = if k.Fits d then some (k.truncateDate d) else none := by
  obtain ⟨hfirst, hlast⟩ := d.month_bounds
  have hcivil {n : Nat} (hn : 1 ≤ n) (hn' : n ≤ 12) :
      (Date.ofCivil? d.year n 1).getD d = .ofCivil d.year n 1 := by
    rw [Shortcut.ofCivil?_first hd.1 hd.2 hn hn', Option.getD_some]
  cases k with
  | year =>
    rw [truncateDate?, hcivil (le_refl 1) (by decide)]
    rfl
  | quarter =>
    rw [truncateDate?, hcivil (by omega) (by omega)]
    rfl
  | month =>
    rw [truncateDate?, hcivil hfirst hlast]
    rfl
  | week =>
    rw [truncateDate?, Date.addDays?]
    exact if_congr (inRange_truncateDate_iff (k := week) hd) rfl rfl
  | day | hour => rfl

/-- **Instants are truncated** to the beginning of their bucket, if the calendar has its day. -/
theorem truncate?_eq (ht : t.InRange) :
    k.truncate? t = if k.Fits t.date then some (k.truncate t) else none := by
  by_cases hk : k = hour
  · subst hk
    rfl
  · have hdates : k.truncate? t = (k.truncateDate? t.date).map .midnight := by
      cases k with
      | hour => exact absurd rfl hk
      | _ => rfl
    rw [hdates, truncateDate?_eq ht, truncate_of_ne hk, apply_ite (Option.map _), Option.map_some,
      Option.map_none]

end TruncKind

/-! ## Named periods -/

namespace Instant

variable {t : Instant} {n : Nat}

/-- The seconds since the beginning of 1970; a leap second counts as the second that follows. -/
def countedSecond (t : Instant) : Int :=
  if secondNanos ≤ t.nano then t.second + 1 else t.second

/-- Whether the calendar has the day that lies so many days before an instant. -/
def GoesBack (t : Instant) (n : Nat) : Prop :=
  Date.first.day + n ≤ t.countedSecond / daySeconds

instance (t : Instant) (n : Nat) : Decidable (t.GoesBack n) := inferInstanceAs (Decidable (_ ≤ _))

lemma second_daysEarlier : (t.daysEarlier n).second = t.countedSecond - n * daySeconds := by
  unfold daysEarlier countedSecond
  split <;> rfl

lemma inRange_daysEarlier_iff (ht : t.InRange) (hn : 0 < n) :
    (t.daysEarlier n).InRange ↔ t.GoesBack n := by
  have hend := (Date.inRange_iff.mp ht).2
  have hcounted : t.countedSecond ≤ t.second + 1 := by
    unfold countedSecond
    split <;> omega
  rw [InRange, Date.inRange_iff, GoesBack]
  simp only [date, second_daysEarlier, daySeconds] at hend ⊢
  omega

end Instant

namespace Shortcut

variable {s : Shortcut} {now : Instant}

/-- Whether the calendar does not end within a named period. -/
def Fits (s : Shortcut) (now : Instant) : Prop :=
  match s with
  | today => now.date.day < Date.last.day
  | yesterday => Date.first.day < now.date.day
  | thisWeek => Date.firstMonday.day ≤ now.date.day ∧ now.date.day < Date.last.day
  | thisMonth | thisYear => True
  | pastWeek => now.GoesBack 7
  | pastMonth => now.GoesBack 30
  | pastYear => now.GoesBack 365

instance (s : Shortcut) (now : Instant) : Decidable (s.Fits now) :=
  match s with
  | today | yesterday => inferInstanceAs (Decidable (_ < _))
  | thisWeek => inferInstanceAs (Decidable (_ ∧ _))
  | thisMonth | thisYear => inferInstanceAs (Decidable True)
  | pastWeek | pastMonth | pastYear => inferInstanceAs (Decidable (now.GoesBack _))

/-- **Named periods** are computed if the calendar does not end within them. -/
theorem period?_eq (hnow : now.InRange) :
    s.period? now = if s.Fits now then some (s.period now) else none := by
  have hrange := Date.inRange_iff.mp hnow
  have hrolling {n : Nat} (hn : 0 < n) :
      Period.rolling? n now = if now.GoesBack n then some (.rolling n now) else none := by
    rw [Period.rolling?, Instant.daysEarlier?, apply_ite (Option.map _), Option.map_some,
      Option.map_none]
    exact if_congr (Instant.inRange_daysEarlier_iff hnow hn) rfl rfl
  cases s with
  | today =>
    rw [period?, Date.addDays?_eq, apply_ite (Option.map _), Option.map_some, Option.map_none]
    refine if_congr ?_ rfl rfl
    rw [Fits]
    omega
  | yesterday =>
    rw [period?, Date.addDays?_eq, apply_ite (Option.map _), Option.map_some, Option.map_none]
    refine if_congr ?_ rfl rfl
    rw [Fits]
    omega
  | thisWeek =>
    rw [period?, TruncKind.truncateDate?_eq hnow]
    by_cases hmonday : Date.firstMonday.day ≤ now.date.day
    · have hnext : Date.first.day ≤ now.date.monday.day + 7 ∧
          now.date.monday.day + 7 ≤ Date.last.day ↔ thisWeek.Fits now := by
        have hfirst := Date.first_le_monday_iff.mpr hmonday
        rw [Fits, Date.monday_add_seven_le_iff]
        omega
      have hfits : TruncKind.week.Fits now.date := fun _ => hmonday
      rw [if_pos hfits, Option.bind_some, Date.addDays?_eq, apply_ite (Option.map _),
        Option.map_some, Option.map_none]
      exact if_congr hnext rfl rfl
    · have hfits : ¬TruncKind.week.Fits now.date := fun h => hmonday (h rfl)
      rw [if_neg hfits, Option.bind_none, if_neg fun h : thisWeek.Fits now => hmonday h.1]
  | thisMonth =>
    rw [period?, TruncKind.truncateDate?_eq hnow]
    rfl
  | thisYear =>
    rw [period?, TruncKind.truncateDate?_eq hnow]
    rfl
  | pastWeek | pastMonth | pastYear => exact hrolling (by decide)

end Shortcut

/-! ## What texts write -/

namespace Calendar

variable {cs rest : List Char} {d : Date} {t : Instant} {n width hour minute second nano : Nat}
  {offset : Int}

lemma inRange_of_date? (h : date? cs = some (d, rest)) : d.InRange := by
  simp only [date?, bind, Option.bind_eq_some_iff] at h
  obtain ⟨year, -, afterYear, -, month, -, afterMonth, -, day, -, e, hcivil, h⟩ := h
  obtain ⟨rfl, -⟩ := Prod.mk.inj (Option.some.inj h)
  exact Date.inRange_of_ofCivil? hcivil

lemma lt_of_exactNumber? (h : exactNumber? width cs = some (n, rest)) : n < 10 ^ width := by
  unfold exactNumber? at h
  dsimp only at h
  split at h
  · next hlength =>
    obtain ⟨rfl, -⟩ := Prod.mk.inj (Option.some.inj h)
    exact Digits.numberOf_lt ⟨hlength, fun c hc => List.mem_takeWhile_imp (List.mem_of_mem_take hc)⟩
  · contradiction

/-- The second of an instant lies in the day of its local time, up to the offset. -/
lemma second_of_instant? (h : instant? d hour minute second nano offset = some t) :
    d.day * Instant.daySeconds ≤ t.second + offset ∧
      t.second + offset < (d.day + 1) * Instant.daySeconds := by
  unfold instant? at h
  split at h
  · next hclock =>
    obtain rfl := Option.some.inj h
    simp only [Instant.daySeconds]
    split <;> omega
  · contradiction

/-- Offsets are less than a day. -/
lemma lt_of_offset? (h : offset? cs = some offset) :
    -Instant.daySeconds < offset ∧ offset < Instant.daySeconds := by
  have hclock {hours minutes : Nat} (negative : Bool) (hhours : hours < 24)
      (hminutes : minutes < 60) (seconds : Int) (hseconds : seconds = hours * 3600 + minutes * 60) :
      -Instant.daySeconds < (if negative then -seconds else seconds) ∧
        (if negative then -seconds else seconds) < Instant.daySeconds := by
    simp only [Instant.daySeconds]
    split <;> omega
  unfold offset? at h
  split at h
  · obtain rfl := Option.some.inj h
    decide
  · obtain rfl := Option.some.inj h
    decide
  · dsimp only at h
    split_ifs at h
    case neg => contradiction
    all_goals
      obtain ⟨negative, -, h⟩ := Option.bind_eq_some_iff.mp h
      obtain ⟨⟨hours, afterHours⟩, -, h⟩ := Option.bind_eq_some_iff.mp h
      obtain ⟨afterMark, -, h⟩ := Option.bind_eq_some_iff.mp h
      obtain ⟨⟨minutes, afterMinutes⟩, -, h⟩ := Option.bind_eq_some_iff.mp h
      dsimp only at h
      rw [Option.ite_none_right_eq_some, Option.some.injEq] at h
      obtain ⟨⟨-, hminutes, hhours⟩, rfl⟩ := h
      exact hclock negative hhours hminutes _ rfl
  · contradiction

lemma inRange_of_instant? (hd : d.InRange) (h : instant? d hour minute second nano 0 = some t) :
    t.InRange := by
  have hsecond := second_of_instant? h
  have hday : t.date = d := by
    rw [← Date.day_inj]
    simp only [Instant.date, Instant.daySeconds] at hsecond ⊢
    omega
  rwa [Instant.InRange, hday]

lemma inRange_of_naiveTime? (hd : d.InRange) (h : naiveTime? d cs = some t) : t.InRange := by
  simp only [naiveTime?, bind, Option.bind_eq_some_iff] at h
  obtain ⟨hour, -, afterHour, -, minute, -, afterMinute, -, second, -, h⟩ := h
  split at h
  · exact inRange_of_instant? hd h
  · contradiction

lemma inRange_of_naive? (h : naive? cs = some t) : t.InRange := by
  unfold naive? at h
  split at h
  · contradiction
  · next d rest hd =>
    have hrange := inRange_of_date? hd
    split at h
    · next t' htime =>
      obtain rfl := Option.some.inj h
      obtain ⟨rest', -, htime⟩ := Option.bind_eq_some_iff.mp htime
      exact inRange_of_naiveTime? hrange htime
    · exact inRange_of_naiveTime? hrange h

/-- What an instant with an offset is made of: a date of four digits for the year, the time on a
clock, and the offset of the clock. -/
lemma exists_of_zoned? (h : zoned? cs = some t) :
    ∃ (year month day hour minute second nano : Nat) (d : Date) (offset : Int) (rest : List Char),
      year < 10 ^ 4 ∧ Date.ofCivil? year month day = some d ∧ offset? rest = some offset ∧
        instant? d hour minute second nano offset = some t := by
  unfold zoned? at h
  obtain ⟨⟨year, cs₁⟩, hyear, h⟩ := Option.bind_eq_some_iff.mp h
  obtain ⟨cs₂, -, h⟩ := Option.bind_eq_some_iff.mp h
  obtain ⟨⟨month, cs₃⟩, -, h⟩ := Option.bind_eq_some_iff.mp h
  obtain ⟨cs₄, -, h⟩ := Option.bind_eq_some_iff.mp h
  obtain ⟨⟨day, cs₅⟩, -, h⟩ := Option.bind_eq_some_iff.mp h
  dsimp only at h
  split at h
  case h_4 => contradiction
  all_goals
    obtain ⟨cs₆, -, h⟩ := Option.bind_eq_some_iff.mp h
    obtain ⟨⟨hour, cs₇⟩, -, h⟩ := Option.bind_eq_some_iff.mp h
    obtain ⟨cs₈, -, h⟩ := Option.bind_eq_some_iff.mp h
    obtain ⟨⟨minute, cs₉⟩, -, h⟩ := Option.bind_eq_some_iff.mp h
    obtain ⟨cs₁₀, -, h⟩ := Option.bind_eq_some_iff.mp h
    obtain ⟨⟨second, cs₁₁⟩, -, h⟩ := Option.bind_eq_some_iff.mp h
    obtain ⟨⟨nano, cs₁₂⟩, -, h⟩ := Option.bind_eq_some_iff.mp h
    obtain ⟨offset, hoffset, h⟩ := Option.bind_eq_some_iff.mp h
    obtain ⟨d, hcivil, h⟩ := Option.bind_eq_some_iff.mp h
    exact ⟨year, month, day, hour, minute, second, nano, d, offset, cs₁₂, lt_of_exactNumber? hyear,
      hcivil, hoffset, h⟩

/-- A year of four digits is far from the ends, and an offset is less than a day. -/
lemma inRange_of_zoned? (h : zoned? cs = some t) : t.InRange := by
  obtain ⟨year, month, day, hour, minute, second, nano, d, offset, rest, hyear, hcivil, hoffset,
    h⟩ := exists_of_zoned? h
  have hclock := second_of_instant? h
  have hless := lt_of_offset? hoffset
  have hbounds := Date.year_eq_iff.mp (Date.year_of_ofCivil? hcivil)
  have hlow : Date.yearStart 0 ≤ Date.yearStart year := Date.yearStart_mono (by omega)
  have hhigh : Date.yearStart (year + 1) ≤ Date.yearStart 10000 := Date.yearStart_mono (by omega)
  have hzero : Date.yearStart 0 = -719528 := by decide
  have hten : Date.yearStart 10000 = 2932897 := by decide
  obtain ⟨hfirst, hlast⟩ := Date.ends
  rw [Instant.InRange, Date.inRange_iff, hfirst, hlast]
  simp only [Instant.date, Instant.daySeconds] at hclock hless ⊢
  omega

end Calendar

lemma Date.inRange_of_read? {s : String} {d : Date} (h : Date.read? s = some d) : d.InRange := by
  unfold Date.read? at h
  split at h
  · next d' hd =>
    obtain rfl := Option.some.inj h
    exact Calendar.inRange_of_date? hd
  · contradiction

lemma Instant.inRange_of_read? {s : String} {t : Instant} (h : Instant.read? s = some t) :
    t.InRange := by
  unfold Instant.read? at h
  split at h
  · next t' ht =>
    obtain rfl := Option.some.inj h
    exact Calendar.inRange_of_zoned? ht
  · exact Calendar.inRange_of_naive? h

lemma Literal.inRange_of_instantOfText? {s : String} {t : Instant}
    (h : Literal.instantOfText? s = some t) : t.InRange := by
  unfold Literal.instantOfText? at h
  split at h
  · next t' ht =>
    obtain rfl := Option.some.inj h
    exact Instant.inRange_of_read? ht
  · obtain ⟨d, hd, rfl⟩ := Option.map_eq_some_iff.mp h
    rw [Instant.InRange, Instant.date_midnight]
    exact Date.inRange_of_read? hd

namespace Moment

/-- Whether a moment lies in the calendar. -/
def InRange : Moment → Prop
  | date d => d.InRange
  | instant t => t.InRange

/-- **What a row writes lies in the calendar.** -/
theorem inRange_of_ofDocument? {w : Document} {m : Moment} (h : ofDocument? w = some m) :
    m.InRange := by
  unfold ofDocument? at h
  split at h
  · next s =>
    split at h
    · next d hd =>
      obtain rfl := Option.some.inj h
      exact Date.inRange_of_read? hd
    · obtain ⟨t, ht, rfl⟩ := Option.map_eq_some_iff.mp h
      exact Literal.inRange_of_instantOfText? ht
  · contradiction

end Moment

end EntityFilter
