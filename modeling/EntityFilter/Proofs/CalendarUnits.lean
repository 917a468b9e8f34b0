import EntityFilter.Proofs.WrittenDates

/-!
# Years, months and weeks as spans of days

A date lies in a year, in a month of it, and in a week of the year that its Thursday lies in.  All
three are spans of days: a date has the year, or the year and the month, exactly if its day is not
before the first day of these and before the first day of the next ones (`Date.year_eq_iff`,
`Date.month_eq_iff`), and two dates have the week in common exactly if they have the Monday in
common (`Date.week_eq_iff`).

The year of a date is estimated from its day and corrected; the estimate is never off by more than
one (`Date.yearOf_bounds`).
-/

namespace EntityFilter.Date

variable {d e : Date} {y : Int} {m n : Nat} {leap : Bool}

lemma day_inj : d.day = e.day ↔ d = e :=
  ⟨fun h => congrArg mk h, congrArg day⟩

/-! ## Years -/

/-- **The year that is read off a day** is the one that the day lies in. -/
theorem yearOf_bounds (day : Int) :
    yearStart (yearOf day) ≤ day ∧ day < yearStart (yearOf day + 1) := by
  have hlow : yearStart (400 * (day + 719162) / 146097 + 1 - 1) ≤ day := by
    simp only [yearStart]
    omega
  have hhigh : day < yearStart (400 * (day + 719162) / 146097 + 1 + 1 + 1) := by
    simp only [yearStart]
    omega
  unfold yearOf
  dsimp only
  split
  · next hbefore => exact ⟨hlow, by rwa [Int.sub_add_cancel]⟩
  · next hbefore =>
    split
    · next hafter => exact ⟨hafter, hhigh⟩
    · next hafter => exact ⟨by omega, by omega⟩

/-- **A year** is the span of days from its first one to the first one of the next year. -/
theorem year_eq_iff : d.year = y ↔ yearStart y ≤ d.day ∧ d.day < yearStart (y + 1) := by
  obtain ⟨hlow, hhigh⟩ := yearOf_bounds d.day
  constructor
  · rintro rfl
    exact ⟨hlow, hhigh⟩
  · rintro ⟨hy, hy'⟩
    show yearOf d.day = y
    rcases lt_trichotomy (yearOf d.day) y with h | h | h
    · have hmono : yearStart (yearOf d.day + 1) ≤ yearStart y := yearStart_mono h
      omega
    · exact h
    · have hmono : yearStart (y + 1) ≤ yearStart (yearOf d.day) := yearStart_mono h
      omega

lemma day_eq (d : Date) : d.day = yearStart d.year + d.dayOfYear := by
  have hbounds := (year_eq_iff (d := d)).mp rfl
  unfold dayOfYear
  omega

lemma dayOfYear_lt (d : Date) : d.dayOfYear < 365 + (isLeap d.year).toNat := by
  have hbounds := (year_eq_iff (d := d)).mp rfl
  have hnext := yearStart_succ d.year
  have hday := d.day_eq
  omega

/-! ## Months -/

lemma monthOf_bounds (h : n < 365 + leap.toNat) :
    1 ≤ monthOf leap n ∧ monthOf leap n ≤ 12 ∧ daysBefore leap (monthOf leap n) ≤ n ∧
      n < daysBefore leap (monthOf leap n + 1) := by
  -- a year has few enough days to look at each of them
  have hall : ∀ leap : Bool, ∀ n < 365 + leap.toNat,
      1 ≤ monthOf leap n ∧ monthOf leap n ≤ 12 ∧ daysBefore leap (monthOf leap n) ≤ n ∧
        n < daysBefore leap (monthOf leap n + 1) := by
    decide +kernel
  exact hall leap n h

lemma month_bounds (d : Date) : 1 ≤ d.month ∧ d.month ≤ 12 :=
  ⟨(monthOf_bounds d.dayOfYear_lt).1, (monthOf_bounds d.dayOfYear_lt).2.1⟩

/-- The first day of a month; the thirteenth month is the first one of the next year. -/
def monthStart (y : Int) (m : Nat) : Int := yearStart y + daysBefore (isLeap y) m

lemma monthStart_one (y : Int) : monthStart y 1 = yearStart y := Int.add_zero _

lemma monthStart_thirteen (y : Int) : monthStart y 13 = yearStart (y + 1) := by
  have hdays : daysBefore (isLeap y) 13 = 365 + (isLeap y).toNat := rfl
  rw [monthStart, hdays, yearStart_succ]
  omega

lemma monthStart_mono (hm : 1 ≤ m) (h : m ≤ n) (hn : n ≤ 13) : monthStart y m ≤ monthStart y n := by
  have hdays := daysBefore_mono (isLeap y) hm h hn
  unfold monthStart
  omega

/-- **A month of a year** is the span of days from its first one to the first one of the next
month. -/
theorem month_eq_iff (hm : 1 ≤ m) (hm' : m ≤ 12) :
    d.year = y ∧ d.month = m ↔ monthStart y m ≤ d.day ∧ d.day < monthStart y (m + 1) := by
  have hmonth : d.year = y → monthStart y d.month ≤ d.day ∧ d.day < monthStart y (d.month + 1) := by
    rintro rfl
    have hbounds := monthOf_bounds d.dayOfYear_lt
    have hday := d.day_eq
    unfold monthStart month
    omega
  constructor
  · rintro ⟨hyear, rfl⟩
    exact hmonth hyear
  · rintro ⟨hlow, hhigh⟩
    have hfirst : monthStart y 1 ≤ monthStart y m := monthStart_mono (by omega) hm (by omega)
    have hlast : monthStart y (m + 1) ≤ monthStart y 13 :=
      monthStart_mono (by omega) (by omega) (by omega)
    rw [monthStart_one] at hfirst
    rw [monthStart_thirteen] at hlast
    have hyear : d.year = y := year_eq_iff.mpr ⟨by omega, by omega⟩
    refine ⟨hyear, ?_⟩
    obtain ⟨hlow', hhigh'⟩ := hmonth hyear
    have hbounds := d.month_bounds
    rcases lt_trichotomy d.month m with h | h | h
    · have hmono : monthStart y (d.month + 1) ≤ monthStart y m :=
        monthStart_mono (by omega) h (by omega)
      omega
    · exact h
    · have hmono : monthStart y (m + 1) ≤ monthStart y d.month :=
        monthStart_mono (by omega) h (by omega)
      omega

/-! ## Weeks -/

lemma monday_eq_iff :
    d.monday = e.monday ↔ e.monday.day ≤ d.day ∧ d.day < e.monday.day + 7 := by
  simp only [monday, addDays, weekday, mk.injEq]
  omega

/-- **Two dates are in the same week** of the same year, as the weeks are counted, exactly if the
week begins with the same Monday. -/
theorem week_eq_iff :
    d.isoYear = e.isoYear ∧ d.isoWeek = e.isoWeek ↔ d.monday = e.monday := by
  constructor
  · rintro ⟨hyear, hweek⟩
    have hday := (d.monday.addDays 3).day_eq
    have hday' := (e.monday.addDays 3).day_eq
    unfold isoYear at hyear
    unfold isoWeek at hweek
    rw [hyear] at hday
    -- both Thursdays have the same year, and are less than a week apart
    simp only [monday, addDays, weekday, mk.injEq] at hday hday' hweek ⊢
    omega
  · intro h
    simp only [isoYear, isoWeek, h, and_self]

end EntityFilter.Date
