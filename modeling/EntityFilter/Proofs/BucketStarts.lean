import EntityFilter.Proofs.NamedPeriods

/-!
# Truncation to the beginning of a bucket

The dates and the instants of one bucket agree in the parts that name it: the year, the year and the
quarter, the year and the month, the week and the year that it is counted in, the date, or the date
and the hour (`TruncKind.DatesAgree`, `TruncKind.Agree`).  They fill a span whose first moment can
be told from its own parts (`TruncKind.BeginsDate`, `TruncKind.Begins`): the first day of a month, a
Monday, a full hour.

Truncation finds that moment.  It is the last beginning of a bucket that is not after its argument,
so truncating twice is truncating once and the order is kept, and it is the same for two arguments
exactly if they agree in the parts (`TruncKind.truncation_exact`).  All of this follows from one
fact for each kind of bucket: those who agree with an argument fill the span that starts with its
truncation (`StartsSpans`).  Days have no end here, so nothing is asked of the range.
-/

namespace EntityFilter

/-! ## Spans and their starts -/

/-- Those who agree with an argument fill a span of positions that starts with its truncation. -/
structure StartsSpans {α : Type} (position : α → Int) (agree : α → α → Prop) (truncate : α → α) :
    Prop where
  equivalence : Equivalence agree
  span : ∀ x, ∃ next, ∀ y, agree y x ↔ position (truncate x) ≤ position y ∧ position y < next

/-- The laws of truncation: it finds the last beginning that is not after its argument, once and for
all and in order, and the same one for those who agree. -/
structure IsTruncation {α : Type} (le : α → α → Prop) (begins : α → Prop) (agree : α → α → Prop)
    (truncate : α → α) : Prop where
  begins_truncate : ∀ x, begins (truncate x)
  truncate_le : ∀ x, le (truncate x) x
  le_truncate : ∀ b x, begins b → le b x → le b (truncate x)
  idempotent : ∀ x, truncate (truncate x) = truncate x
  mono : ∀ x y, le x y → le (truncate x) (truncate y)
  eq_iff : ∀ x y, truncate x = truncate y ↔ agree x y

namespace StartsSpans

variable {α : Type} {position : α → Int} {le agree : α → α → Prop} {begins : α → Prop}
  {truncate : α → α} {x y : α}

lemma position_le (h : StartsSpans position agree truncate) (x : α) :
    position (truncate x) ≤ position x := by
  obtain ⟨next, hspan⟩ := h.span x
  exact ((hspan x).mp (h.equivalence.refl x)).1

/-- What stands between the start of a span and someone in it belongs to the span. -/
lemma agree_of_between (h : StartsSpans position agree truncate)
    (hlow : position (truncate x) ≤ position y) (hhigh : position y ≤ position x) : agree y x := by
  obtain ⟨next, hspan⟩ := h.span x
  have hx := (hspan x).mp (h.equivalence.refl x)
  exact (hspan y).mpr ⟨hlow, by omega⟩

lemma agree_truncate (h : StartsSpans position agree truncate) (x : α) : agree (truncate x) x :=
  h.agree_of_between (le_refl _) (h.position_le x)

lemma position_le_of_agree (h : StartsSpans position agree truncate) (hxy : agree x y) :
    position (truncate y) ≤ position (truncate x) := by
  obtain ⟨next, hspan⟩ := h.span y
  exact ((hspan _).mp (h.equivalence.trans (h.agree_truncate x) hxy)).1

lemma position_eq_of_agree (h : StartsSpans position agree truncate) (hxy : agree x y) :
    position (truncate x) = position (truncate y) :=
  le_antisymm (h.position_le_of_agree (h.equivalence.symm hxy)) (h.position_le_of_agree hxy)

/-- **Spans that overlap are the same**, so their starts are in the order of what lies in them. -/
lemma position_mono (h : StartsSpans position agree truncate) (hxy : position x ≤ position y) :
    position (truncate x) ≤ position (truncate y) := by
  by_contra hlt
  have hstart := h.position_le x
  have hagree : agree (truncate x) y := h.agree_of_between (by omega) (by omega)
  have heq := h.position_eq_of_agree
    (h.equivalence.trans (h.equivalence.symm (h.agree_truncate x)) hagree)
  omega

/-- **The laws of truncation** hold of the starts of spans, if these can be told by themselves and
are before all that has no lesser position. -/
theorem isTruncation (h : StartsSpans position agree truncate)
    (hbegins : ∀ x, begins x ↔ truncate x = x)
    (hposition : ∀ x y, le x y → position x ≤ position y)
    (hle : ∀ x y, position (truncate x) ≤ position y → le (truncate x) y)
    (hinj : ∀ x y, position (truncate x) = position (truncate y) → truncate x = truncate y) :
    IsTruncation le begins agree truncate := by
  have hidempotent : ∀ x, truncate (truncate x) = truncate x := fun x =>
    hinj _ _ (h.position_eq_of_agree (h.agree_truncate x))
  have hmono : ∀ x y, le x y → le (truncate x) (truncate y) := fun x y hxy =>
    hle _ _ (h.position_mono (hposition x y hxy))
  refine ⟨fun x => (hbegins _).mpr (hidempotent x), fun x => hle _ _ (h.position_le x),
    fun b x hb hbx => ?_, hidempotent, hmono, fun x y => ⟨fun heq => ?_, fun hxy => ?_⟩⟩
  · have hfixed := hmono b x hbx
    rwa [(hbegins b).mp hb] at hfixed
  · have hx := h.equivalence.symm (h.agree_truncate x)
    rw [heq] at hx
    exact h.equivalence.trans hx (h.agree_truncate y)
  · exact hinj _ _ (h.position_eq_of_agree hxy)

end StartsSpans

/-! ## First days of months -/

namespace Date

variable {d : Date} {y : Int} {m n : Nat}

lemma day_eq_monthStart (d : Date) : d.day + 1 = monthStart d.year d.month + d.dayOfMonth := by
  have hbounds := monthOf_bounds d.dayOfYear_lt
  have hday := d.day_eq
  unfold dayOfMonth monthStart month
  omega

/-- **Consecutive months of a year** are the span of days from the first one of these months to the
first one of the month after them. -/
theorem months_iff (hm : 1 ≤ m) (hmn : m ≤ n) (hn : n ≤ 13) :
    d.year = y ∧ m ≤ d.month ∧ d.month < n ↔ monthStart y m ≤ d.day ∧ d.day < monthStart y n := by
  obtain ⟨hfirst, hlast⟩ := d.month_bounds
  have hmonth := (month_eq_iff (d := d) hfirst hlast).mp ⟨rfl, rfl⟩
  constructor
  · rintro ⟨rfl, hlow, hhigh⟩
    have hbefore : monthStart d.year m ≤ monthStart d.year d.month :=
      monthStart_mono hm hlow (by omega)
    have hafter : monthStart d.year (d.month + 1) ≤ monthStart d.year n :=
      monthStart_mono (by omega) hhigh hn
    omega
  · rintro ⟨hlow, hhigh⟩
    have hstart : monthStart y 1 ≤ monthStart y m := monthStart_mono (le_refl 1) hm (by omega)
    have hend : monthStart y n ≤ monthStart y 13 := monthStart_mono (by omega) hn (le_refl 13)
    rw [monthStart_one] at hstart
    rw [monthStart_thirteen] at hend
    obtain rfl : d.year = y := year_eq_iff.mpr ⟨by omega, by omega⟩
    refine ⟨rfl, ?_, ?_⟩
    · by_contra hlt
      have hmono : monthStart d.year (d.month + 1) ≤ monthStart d.year m :=
        monthStart_mono (by omega) (by omega) (by omega)
      omega
    · by_contra hge
      have hmono : monthStart d.year n ≤ monthStart d.year d.month :=
        monthStart_mono (by omega) (by omega) (by omega)
      omega

/-- The first day of a month, told by its parts. -/
lemma ofCivil_first_eq_iff (hm : 1 ≤ m) (hm' : m ≤ 12) :
    ofCivil y m 1 = d ↔ d.year = y ∧ d.month = m ∧ d.dayOfMonth = 1 := by
  have hday := d.day_eq_monthStart
  constructor
  · rintro rfl
    obtain ⟨hyear, hmonth⟩ := Shortcut.month_ofCivil (y := y) hm hm'
    rw [hyear, hmonth, Shortcut.ofCivil_first] at hday
    exact ⟨hyear, hmonth, by omega⟩
  · rintro ⟨rfl, rfl, hfirst⟩
    rw [← day_inj, Shortcut.ofCivil_first]
    omega

end Date

lemma Instant.eq_iff {s t : Instant} : s = t ↔ s.second = t.second ∧ s.nano = t.nano := by
  cases s
  cases t
  rw [Instant.mk.injEq]

namespace TruncKind

variable {k : TruncKind} {d e : Date} {s t : Instant}

/-! ## Buckets of dates -/

/-- Two dates agree in the parts that name their buckets.  A date has no hours. -/
def DatesAgree (k : TruncKind) (d e : Date) : Prop :=
  match k with
  | year => DatePart.year.ofDate d = DatePart.year.ofDate e
  | quarter => DatePart.year.ofDate d = DatePart.year.ofDate e ∧
    DatePart.quarter.ofDate d = DatePart.quarter.ofDate e
  | month => DatePart.year.ofDate d = DatePart.year.ofDate e ∧
    DatePart.month.ofDate d = DatePart.month.ofDate e
  | week => d.isoYear = e.isoYear ∧ DatePart.week.ofDate d = DatePart.week.ofDate e
  | day | hour => d = e

/-- A date is the first one of its bucket. -/
def BeginsDate (k : TruncKind) (d : Date) : Prop :=
  match k with
  | year => d.month = 1 ∧ d.dayOfMonth = 1
  | quarter => d.month % 3 = 1 ∧ d.dayOfMonth = 1
  | month => d.dayOfMonth = 1
  | week => d.weekday = 0
  | day | hour => True

lemma datesAgree_equivalence (k : TruncKind) : Equivalence k.DatesAgree := by
  constructor <;> cases k <;> grind [DatesAgree]

/-- **The dates of a bucket** are the span of days that starts with the truncation. -/
lemma startsSpans_dates (k : TruncKind) : StartsSpans Date.day k.DatesAgree k.truncateDate := by
  refine ⟨k.datesAgree_equivalence, fun d => ?_⟩
  obtain ⟨hfirst, hlast⟩ := d.month_bounds
  -- the kinds that consist of months
  have hmonths : ∀ {m n : Nat} {agree : Date → Prop}, 1 ≤ m → m ≤ n → n ≤ 13 →
      (∀ e, agree e ↔ e.year = d.year ∧ m ≤ e.month ∧ e.month < n) →
      ∃ next, ∀ e, agree e ↔ (Date.ofCivil d.year m 1).day ≤ e.day ∧ e.day < next :=
    fun hm hmn hn hagree => ⟨Date.monthStart d.year _, fun e => by
      rw [hagree, Shortcut.ofCivil_first, Date.months_iff hm hmn hn]⟩
  cases k with
  | year =>
    refine hmonths (n := 13) (le_refl 1) (by decide) (le_refl 13) fun e => ?_
    have hmonth := e.month_bounds
    simp only [DatesAgree, DatePart.ofDate]
    omega
  | quarter =>
    refine hmonths (n := (d.month - 1) / 3 * 3 + 4) (by omega) (by omega) (by omega) fun e => ?_
    have hmonth := e.month_bounds
    simp only [DatesAgree, DatePart.ofDate]
    omega
  | month =>
    refine hmonths (n := d.month + 1) hfirst (by omega) (by omega) fun e => ?_
    simp only [DatesAgree, DatePart.ofDate]
    omega
  | week =>
    refine ⟨d.monday.day + 7, fun e => ?_⟩
    rw [DatesAgree, DatePart.ofDate, DatePart.ofDate, Nat.cast_inj, Date.week_eq_iff,
      Date.monday_eq_iff]
    rfl
  | day | hour =>
    refine ⟨d.day + 1, fun e => ?_⟩
    rw [DatesAgree, ← Date.day_inj, truncateDate]
    omega

lemma beginsDate_iff : k.BeginsDate d ↔ k.truncateDate d = d := by
  obtain ⟨hfirst, hlast⟩ := d.month_bounds
  cases k with
  | year =>
    rw [truncateDate, Date.ofCivil_first_eq_iff (le_refl 1) (by decide), BeginsDate]
    omega
  | quarter =>
    rw [truncateDate, Date.ofCivil_first_eq_iff (by omega) (by omega), BeginsDate]
    omega
  | month =>
    rw [truncateDate, Date.ofCivil_first_eq_iff hfirst hlast, BeginsDate]
    omega
  | week =>
    rw [truncateDate, ← Date.day_inj, BeginsDate, Date.monday, Date.addDays]
    dsimp only
    omega
  | day | hour => simp [BeginsDate, truncateDate]

/-! ## Buckets of instants -/

/-- Two instants agree in the parts that name their buckets. -/
def Agree (k : TruncKind) (s t : Instant) : Prop :=
  match k with
  | hour => s.date = t.date ∧ DatePart.hour.ofInstant s = DatePart.hour.ofInstant t
  | k => k.DatesAgree s.date t.date

/-- An instant is the first one of its bucket: a full hour, or the midnight of a first date. -/
def Begins (k : TruncKind) (t : Instant) : Prop :=
  match k with
  | hour => t.timeOfDay % 3600 = 0 ∧ t.nano = 0
  | k => k.BeginsDate t.date ∧ t.timeOfDay = 0 ∧ t.nano = 0

lemma agree_of_ne (h : k ≠ hour) : k.Agree s t ↔ k.DatesAgree s.date t.date := by
  cases k with
  | hour => exact absurd rfl h
  | _ => rfl

lemma begins_of_ne (h : k ≠ hour) :
    k.Begins t ↔ k.BeginsDate t.date ∧ t.timeOfDay = 0 ∧ t.nano = 0 := by
  cases k with
  | hour => exact absurd rfl h
  | _ => rfl

lemma truncate_of_ne (h : k ≠ hour) : k.truncate t = .midnight (k.truncateDate t.date) := by
  cases k with
  | hour => exact absurd rfl h
  | _ => rfl

lemma nano_truncate (k : TruncKind) (t : Instant) : (k.truncate t).nano = 0 := by
  cases k <;> rfl

lemma agree_equivalence (k : TruncKind) : Equivalence k.Agree := by
  by_cases hk : k = hour
  · subst hk
    constructor <;> grind [Agree]
  · have hdates := k.datesAgree_equivalence
    exact ⟨fun s => (agree_of_ne hk).mpr (hdates.refl _),
      fun h => (agree_of_ne hk).mpr (hdates.symm ((agree_of_ne hk).mp h)),
      fun h h' => (agree_of_ne hk).mpr
        (hdates.trans ((agree_of_ne hk).mp h) ((agree_of_ne hk).mp h'))⟩

/-- **The instants of a bucket** are the span of seconds that starts with the truncation. -/
lemma startsSpans (k : TruncKind) : StartsSpans Instant.second k.Agree k.truncate := by
  refine ⟨k.agree_equivalence, fun t => ?_⟩
  by_cases hk : k = hour
  · subst hk
    refine ⟨t.hourStart.second + 3600, fun s => ?_⟩
    simp only [Agree, DatePart.ofInstant, Instant.hour, Instant.timeOfDay, Instant.date,
      Instant.daySeconds, Date.mk.injEq, truncate, Instant.hourStart]
    omega
  · obtain ⟨next, hspan⟩ := k.startsSpans_dates.span t.date
    refine ⟨next * Instant.daySeconds, fun s => ?_⟩
    rw [agree_of_ne hk, hspan, truncate_of_ne hk]
    simp only [Instant.midnight, Instant.date, Instant.daySeconds]
    omega

lemma begins_iff : k.Begins t ↔ k.truncate t = t := by
  by_cases hk : k = hour
  · subst hk
    obtain ⟨second, nano⟩ := t
    simp only [Begins, Instant.timeOfDay, Instant.daySeconds, truncate, Instant.hourStart,
      Instant.mk.injEq]
    omega
  · obtain ⟨second, nano⟩ := t
    rw [begins_of_ne hk, beginsDate_iff, truncate_of_ne hk, ← Date.day_inj]
    simp only [Instant.timeOfDay, Instant.midnight, Instant.date, Instant.daySeconds,
      Instant.mk.injEq]
    omega

/-! ## Truncation -/

/-- **Truncation finds the beginning of a bucket**, for dates and for instants: the last beginning
that is not after the argument, and the same one exactly for those who agree in the parts that name
the bucket. -/
theorem truncation_exact (k : TruncKind) :
    IsTruncation (fun d e : Date => d.day ≤ e.day) k.BeginsDate k.DatesAgree k.truncateDate ∧
      IsTruncation (fun s t : Instant => s.isLe t) k.Begins k.Agree k.truncate := by
  constructor
  · exact k.startsSpans_dates.isTruncation (fun _ => beginsDate_iff) (fun _ _ => id)
      (fun _ _ => id) fun _ _ => Date.day_inj.mp
  · refine k.startsSpans.isTruncation (fun _ => begins_iff) (fun s t h => ?_) (fun s t h => ?_)
      fun s t h => ?_
    · have hle := Instant.isLe_iff.mp h
      omega
    · have hnano := k.nano_truncate s
      exact Instant.isLe_iff.mpr (by omega)
    · have hs := k.nano_truncate s
      have ht := k.nano_truncate t
      exact Instant.eq_iff.mpr ⟨h, by omega⟩

/-- The week of the fifth of January 2025 begins in the year before. -/
example : (week.truncateDate ⟨20093⟩).render = "2024-12-30" := by decide

end TruncKind

end EntityFilter
