import EntityFilter.Literal
import Mathlib.Data.String.Basic
import Mathlib.Order.Compare
import Mathlib.Tactic.Ring

/-!
# Dates in the order of their texts

A text writes a date or an instant in many ways: digits may be left out, blanks may stand in
between, and the clock may be that of any offset.  The order of texts is in general not the order of
what they write.  It is among texts in one notation: dates of four, two and two digits
(`DateText.compareText_eq`), and instants of such a date and a clock of two digits for hours,
minutes and seconds, as long as the rest of the text, which gives the fraction and the offset, is
the same (`InstantText.compareText_eq`).

Both orders are lexicographic.  For the texts, equally many digits are in the order of the numbers
that they write (`Calendar.Digits.compare_eq`); for the calendar, a date of an earlier year, of an
earlier month in it or of an earlier day in that is the earlier date (`Date.compare_ofCivil?`).
-/

namespace EntityFilter

/-- An order that is decided by another one first. -/
lemma compare_eq_then {α β : Type} [LinearOrder α] [LinearOrder β] {i j : α} {y z : β}
    {o : Ordering} (hlt : y < z → i < j) (hgt : z < y → j < i) (heq : y = z → compare i j = o) :
    compare i j = (compare y z).then o := by
  rcases lt_trichotomy y z with h | h | h
  · rw [compare_lt_iff_lt.mpr h, compare_lt_iff_lt.mpr (hlt h)]
    rfl
  · rw [compare_eq_iff_eq.mpr h, heq h]
    rfl
  · rw [compare_gt_iff_gt.mpr h, compare_gt_iff_gt.mpr (hgt h)]
    rfl

lemma compare_eq_compare {α β : Type} [LinearOrder α] [LinearOrder β] {i j : α} {y z : β}
    (hlt : y < z → i < j) (hgt : z < y → j < i) (heq : y = z → i = j) :
    compare i j = compare y z := by
  rw [compare_eq_then hlt hgt fun h => compare_eq_iff_eq.mpr (heq h), Ordering.then_eq]

/-! ## The order of the calendar -/

namespace Date

variable {y z : Int} {m n d e : Nat} {a b : Date}

lemma yearStart_succ (y : Int) : yearStart (y + 1) = yearStart y + 365 + (isLeap y).toNat := by
  have hleap : isLeap y = true ↔ y % 4 = 0 ∧ (y % 100 ≠ 0 ∨ y % 400 = 0) := by
    simp only [isLeap, Bool.and_eq_true, Bool.or_eq_true, beq_iff_eq, bne_iff_ne]
  simp only [yearStart, Int.add_sub_cancel]
  cases h : isLeap y with
  | true =>
    have hrule := hleap.mp h
    rw [Bool.toNat_true]
    omega
  | false =>
    have hrule := mt hleap.mpr (by simp [h])
    rw [Bool.toNat_false]
    omega

lemma yearStart_mono (h : y ≤ z) : yearStart y ≤ yearStart z := by
  simp only [yearStart]
  omega

lemma daysBefore_mono (leap : Bool) (hm : 1 ≤ m) (h : m ≤ n) (hn : n ≤ 13) :
    daysBefore leap m ≤ daysBefore leap n := by
  have hall : ∀ leap : Bool, ∀ n ≤ 13, ∀ m ≤ n, 1 ≤ m →
      daysBefore leap m ≤ daysBefore leap n := by
    decide
  exact hall leap n hn m h hm

/-- A date lies in its year and its month. -/
lemma ofCivil?_eq_some (h : ofCivil? y m d = some a) :
    a.day = yearStart y + daysBefore (isLeap y) m + d - 1 ∧ 1 ≤ m ∧ m ≤ 12 ∧ 1 ≤ d ∧
      daysBefore (isLeap y) m + d ≤ daysBefore (isLeap y) (m + 1) := by
  unfold ofCivil? at h
  split at h
  · next hvalid =>
    obtain ⟨-, -, hm, hm', hd, hd'⟩ := hvalid
    have hmono : daysBefore (isLeap y) m ≤ daysBefore (isLeap y) (m + 1) :=
      daysBefore_mono _ hm (by omega) (by omega)
    unfold daysIn at hd'
    obtain rfl := Option.some.inj h
    exact ⟨rfl, hm, hm', hd, by omega⟩
  · contradiction

lemma day_lt_of_year_lt (ha : ofCivil? y m d = some a) (hb : ofCivil? z n e = some b) (h : y < z) :
    a.day < b.day := by
  obtain ⟨hday, hm, hm', -, hlast⟩ := ofCivil?_eq_some ha
  obtain ⟨hday', -, -, hfirst, -⟩ := ofCivil?_eq_some hb
  have hend : daysBefore (isLeap y) (m + 1) ≤ daysBefore (isLeap y) 13 :=
    daysBefore_mono _ (by omega) (by omega) (by omega)
  have hyear : daysBefore (isLeap y) 13 = 365 + (isLeap y).toNat := rfl
  have hnext := yearStart_succ y
  have hstart : yearStart (y + 1) ≤ yearStart z := yearStart_mono h
  omega

lemma day_lt_of_month_lt (ha : ofCivil? y m d = some a) (hb : ofCivil? y n e = some b)
    (h : m < n) : a.day < b.day := by
  obtain ⟨hday, hm, -, -, hlast⟩ := ofCivil?_eq_some ha
  obtain ⟨hday', -, hn, hfirst, -⟩ := ofCivil?_eq_some hb
  have hmonth : daysBefore (isLeap y) (m + 1) ≤ daysBefore (isLeap y) n :=
    daysBefore_mono _ (by omega) h (by omega)
  omega

/-- **Dates are in the order of year, month and day.** -/
theorem compare_ofCivil? (ha : ofCivil? y m d = some a) (hb : ofCivil? z n e = some b) :
    compare a b = (compare y z).then ((compare m n).then (compare d e)) := by
  show compare a.day b.day = _
  refine compare_eq_then (day_lt_of_year_lt ha hb) (day_lt_of_year_lt hb ha) ?_
  rintro rfl
  refine compare_eq_then (day_lt_of_month_lt ha hb) (day_lt_of_month_lt hb ha) ?_
  rintro rfl
  obtain ⟨hday, -⟩ := ofCivil?_eq_some ha
  obtain ⟨hday', -⟩ := ofCivil?_eq_some hb
  exact compare_eq_compare (by omega) (by omega) (by omega)

end Date

/-! ## The order of texts -/

lemma Document.compareText_eq (s t : String) : compareText s t = compare s.toList t.toList := by
  have hlists : ∀ xs ys : List Char,
      (if xs < ys then Ordering.lt else if xs = ys then .eq else .gt) = compare xs ys := by
    intro xs
    induction xs with
    | nil =>
      intro ys
      cases ys with
      | nil => rfl
      | cons y ys => simp
    | cons x xs ih =>
      intro ys
      cases ys with
      | nil => simp
      | cons y ys =>
        rw [List.compare_cons_cons, ← ih]
        simp only [List.cons_lt_cons_iff, List.cons.injEq]
        rcases lt_trichotomy x y with h | rfl | h
        · simp [compare_lt_iff_lt.mpr h, h]
        · simp
        · simp [compare_gt_iff_gt.mpr h, h.not_gt, h.ne']
  rw [← hlists, compareText]
  simp only [String.lt_iff_toList_lt, String.toList_inj]

namespace Calendar

variable {xs ys xs' ys' ds rest : List Char} {width : Nat} {c : Char}

/-- Texts whose beginnings have the same length are compared by these first. -/
lemma compare_append (h : xs.length = ys.length) :
    compare (xs ++ xs') (ys ++ ys') = (compare xs ys).then (compare xs' ys') := by
  induction xs generalizing ys with
  | nil =>
    obtain rfl := List.length_eq_zero_iff.mp h.symm
    rfl
  | cons x xs ih =>
    cases ys with
    | nil => simp at h
    | cons y ys =>
      rw [List.cons_append, List.cons_append, List.compare_cons_cons, List.compare_cons_cons,
        ih (by simpa using h), Ordering.then_assoc]

/-- A given number of digits. -/
structure Digits (width : Nat) (ds : List Char) : Prop where
  length_eq : ds.length = width
  isDigit : ∀ c ∈ ds, c.isDigit

lemma foldl_digits (cs : List Char) (n : Nat) :
    cs.foldl (fun n c => n * 10 + (c.toNat - '0'.toNat)) n =
      n * 10 ^ cs.length + numberOf cs := by
  induction cs generalizing n with
  | nil => simp [numberOf]
  | cons d cs ih =>
    have hnumber : numberOf (d :: cs) =
        (0 * 10 + (d.toNat - '0'.toNat)) * 10 ^ cs.length + numberOf cs := ih _
    rw [List.foldl_cons, ih, hnumber, List.length_cons]
    ring

lemma numberOf_cons (c : Char) (cs : List Char) :
    numberOf (c :: cs) = (c.toNat - '0'.toNat) * 10 ^ cs.length + numberOf cs :=
  (foldl_digits cs _).trans (by ring)

namespace Digits

lemma of_all (hlength : ds.length = width) (h : ds.all Char.isDigit) : Digits width ds :=
  ⟨hlength, List.all_eq_true.mp h⟩

lemma tail (h : Digits (width + 1) (c :: ds)) : Digits width ds :=
  ⟨by simpa using h.length_eq, fun d hd => h.isDigit d (List.mem_cons_of_mem _ hd)⟩

lemma numberOf_lt (h : Digits width ds) : numberOf ds < 10 ^ width := by
  induction ds generalizing width with
  | nil =>
    obtain rfl := h.length_eq
    decide
  | cons c ds ih =>
    obtain rfl := h.length_eq
    have hrest := ih h.tail
    have hdigit := Text.toNat_of_isDigit (h.isDigit c (List.mem_cons_self ..))
    have hzero : '0'.toNat = 48 := rfl
    have hfirst : (c.toNat - 48) * 10 ^ ds.length ≤ 9 * 10 ^ ds.length :=
      Nat.mul_le_mul_right _ (by omega)
    rw [numberOf_cons, hzero, List.length_cons, Nat.pow_succ]
    omega

/-- A greater first digit makes a greater number. -/
lemma numberOf_lt_of_lt {x y : Char} (hx : Digits (width + 1) (x :: xs))
    (hy : Digits (width + 1) (y :: ys)) (h : x < y) : numberOf (x :: xs) < numberOf (y :: ys) := by
  have hrest := hx.tail.numberOf_lt
  have hdigit := Text.toNat_of_isDigit (hx.isDigit x (List.mem_cons_self ..))
  have hlt : x.toNat < y.toNat := h
  have hzero : '0'.toNat = 48 := rfl
  have hfirst : (x.toNat - 48 + 1) * 10 ^ width ≤ (y.toNat - 48) * 10 ^ width :=
    Nat.mul_le_mul_right _ (by omega)
  rw [numberOf_cons, numberOf_cons, hx.tail.length_eq, hy.tail.length_eq, hzero]
  rw [Nat.add_mul] at hfirst
  omega

/-- **Equally many digits** are in the order of the numbers that they write. -/
theorem compare_eq (hx : Digits width xs) (hy : Digits width ys) :
    compare xs ys = compare (numberOf xs) (numberOf ys) := by
  induction width generalizing xs ys with
  | zero =>
    obtain rfl := List.length_eq_zero_iff.mp hx.length_eq
    obtain rfl := List.length_eq_zero_iff.mp hy.length_eq
    rfl
  | succ width ih =>
    cases xs with
    | nil => simpa using hx.length_eq
    | cons x xs =>
      cases ys with
      | nil => simpa using hy.length_eq
      | cons y ys =>
        rw [List.compare_cons_cons, ih hx.tail hy.tail]
        refine (compare_eq_then (numberOf_lt_of_lt hx hy) (numberOf_lt_of_lt hy hx) ?_).symm
        rintro rfl
        rw [numberOf_cons, numberOf_cons, hx.tail.length_eq, hy.tail.length_eq]
        exact compare_eq_compare (by omega) (by omega) (by omega)

end Digits

/-! ## Reading digits -/

lemma takeWhile_isDigit (h : Digits width ds) :
    ((ds ++ rest).takeWhile Char.isDigit).take width = ds := by
  rw [List.takeWhile_append_of_pos h.isDigit, ← h.length_eq, List.take_left]

lemma number?_digits (h : Digits width ds) (hw : width ≠ 0) :
    number? width (ds ++ rest) = some (numberOf ds, rest) := by
  unfold number?
  rw [takeWhile_isDigit h]
  cases ds with
  | nil => exact absurd h.length_eq.symm hw
  | cons c ds => simp

lemma exactNumber?_digits (h : Digits width ds) :
    exactNumber? width (ds ++ rest) = some (numberOf ds, rest) := by
  unfold exactNumber?
  rw [takeWhile_isDigit h, if_pos h.length_eq, ← h.length_eq, List.drop_left]

lemma some_bind {α β : Type} (a : α) (f : α → Option β) : (some a >>= f) = f a := rfl

lemma mark?_self (c : Char) (rest : List Char) : mark? c (c :: rest) = some rest := if_pos rfl

lemma dropWhile_isBlank (h : Digits width ds) (hw : width ≠ 0) :
    (ds ++ rest).dropWhile Text.isBlank = ds ++ rest := by
  cases ds with
  | nil => exact absurd h.length_eq.symm hw
  | cons c ds =>
    have hblank := Text.isBlank_of_isDigit (h.isDigit c (List.mem_cons_self ..))
    exact List.dropWhile_cons_of_neg (by simp [hblank])

lemma loose?_digits (h : Digits 2 ds) : loose? (ds ++ rest) = some (numberOf ds, rest) := by
  rw [loose?, dropWhile_isBlank h (by decide), number?_digits h (by decide)]

lemma year?_digits (h : Digits 4 ds) :
    year? (ds ++ rest) = some ((numberOf ds : Int), rest) := by
  have hnumber : number? 4 (ds ++ rest) = some (numberOf ds, rest) := number?_digits h (by decide)
  have hsign : ∀ sign, sign.isDigit = false → ∀ cs, ds ++ rest ≠ sign :: cs := by
    rintro sign hsign cs hcs
    obtain ⟨c, ds, rfl⟩ := List.exists_cons_of_length_eq_add_one h.length_eq
    obtain ⟨rfl, -⟩ := List.cons.inj hcs
    exact absurd (h.isDigit c (List.mem_cons_self ..)) (by simp [hsign])
  unfold year?
  rw [dropWhile_isBlank h (by decide)]
  split
  · next hcs => exact absurd hcs (hsign _ rfl _)
  · next hcs => exact absurd hcs (hsign _ rfl _)
  · rw [hnumber, Option.map_some]

end Calendar

open Calendar

/-- A text of a date, with four digits for the year and two for the month and the day. -/
structure DateText where
  year : List Char
  month : List Char
  day : List Char
  isYear : Digits 4 year
  isMonth : Digits 2 month
  isDay : Digits 2 day

/-- A text of a time of day, with two digits for the hour, the minute and the second. -/
structure ClockText where
  hour : List Char
  minute : List Char
  second : List Char
  isHour : Digits 2 hour
  isMinute : Digits 2 minute
  isSecond : Digits 2 second

namespace DateText

variable {t u : DateText} {a b : Date} {rest : List Char}

/-- The characters of the text. -/
def chars (t : DateText) : List Char := t.year ++ '-' :: (t.month ++ '-' :: t.day)

lemma length_chars (t : DateText) : t.chars.length = 10 := by
  simp [chars, t.isYear.length_eq, t.isMonth.length_eq, t.isDay.length_eq]

/-- The date that is written, if the calendar has it. -/
def date? (t : DateText) : Option Date :=
  Date.ofCivil? (numberOf t.year) (numberOf t.month) (numberOf t.day)

lemma date?_append (t : DateText) (rest : List Char) :
    Calendar.date? (t.chars ++ rest) = t.date?.map fun d => (d, rest) := by
  have hchars : t.chars ++ rest =
      t.year ++ '-' :: (t.month ++ '-' :: (t.day ++ rest)) := by simp [chars]
  rw [hchars]
  simp only [Calendar.date?, year?_digits t.isYear, loose?_digits t.isMonth, loose?_digits t.isDay,
    mark?_self, Option.bind_eq_bind, Option.bind_some, date?]
  cases Date.ofCivil? _ _ _ <;> rfl

lemma compare_chars (ht : t.date? = some a) (hu : u.date? = some b) :
    compare t.chars u.chars = compare a b := by
  have hyear : t.year.length = u.year.length := t.isYear.length_eq.trans u.isYear.length_eq.symm
  have hmonth : t.month.length = u.month.length :=
    t.isMonth.length_eq.trans u.isMonth.length_eq.symm
  have hcast : compare (numberOf t.year : Int) (numberOf u.year) =
      compare (numberOf t.year) (numberOf u.year) :=
    compare_eq_compare (by omega) (by omega) (by omega)
  rw [Date.compare_ofCivil? ht hu, hcast, chars, chars, compare_append hyear,
    List.compare_cons_cons, compare_append hmonth, List.compare_cons_cons,
    t.isYear.compare_eq u.isYear, t.isMonth.compare_eq u.isMonth, t.isDay.compare_eq u.isDay]
  rfl

/-- The text. -/
def text (t : DateText) : String := String.ofList t.chars

lemma date_read?_text (t : DateText) : Date.read? t.text = t.date? := by
  have hdate := t.date?_append []
  rw [List.append_nil] at hdate
  rw [Date.read?, text, String.toList_ofList, hdate]
  cases t.date? <;> rfl

/-- A date alone is no instant. -/
lemma instant_read?_text (t : DateText) : Instant.read? t.text = none := by
  have hzoned : zoned? t.chars = none := by
    have hchars : t.chars = t.year ++ '-' :: (t.month ++ '-' :: (t.day ++ [])) := by simp [chars]
    rw [hchars, zoned?, exactNumber?_digits t.isYear, some_bind]
    dsimp -zeta only
    rw [mark?_self, some_bind, exactNumber?_digits t.isMonth, some_bind]
    dsimp -zeta only
    rw [mark?_self, some_bind, exactNumber?_digits t.isDay, some_bind]
    rfl
  have hnaive : naive? t.chars = none := by
    have hdate := t.date?_append []
    rw [List.append_nil] at hdate
    rw [naive?, hdate]
    cases t.date? <;> rfl
  rw [Instant.read?, text, String.toList_ofList, hzoned]
  exact hnaive

/-- **Dates in one notation** are in the order of their texts. -/
theorem compareText_eq (ht : t.date? = some a) (hu : u.date? = some b) :
    Document.compareText t.text u.text = compare a b := by
  rw [Document.compareText_eq, text, text, String.toList_ofList, String.toList_ofList,
    compare_chars ht hu]

end DateText

namespace ClockText

variable {t u : ClockText} {a b : Date} {i j : Instant} {nano : Nat} {offset : Int}
  {rest : List Char}

/-- The characters of the text. -/
def chars (t : ClockText) : List Char := t.hour ++ ':' :: (t.minute ++ ':' :: t.second)

lemma length_chars (t : ClockText) : t.chars.length = 8 := by
  simp [chars, t.isHour.length_eq, t.isMinute.length_eq, t.isSecond.length_eq]

/-- The instant that is written on a date. -/
def instant? (t : ClockText) (d : Date) (nano : Nat) (offset : Int) : Option Instant :=
  Calendar.instant? d (numberOf t.hour) (numberOf t.minute) (numberOf t.second) nano offset

lemma compare_chars (t u : ClockText) :
    compare t.chars u.chars = (compare (numberOf t.hour) (numberOf u.hour)).then
      ((compare (numberOf t.minute) (numberOf u.minute)).then
        (compare (numberOf t.second) (numberOf u.second))) := by
  have hhour : t.hour.length = u.hour.length := t.isHour.length_eq.trans u.isHour.length_eq.symm
  have hminute : t.minute.length = u.minute.length :=
    t.isMinute.length_eq.trans u.isMinute.length_eq.symm
  rw [chars, chars, compare_append hhour, List.compare_cons_cons, compare_append hminute,
    List.compare_cons_cons, t.isHour.compare_eq u.isHour, t.isMinute.compare_eq u.isMinute,
    t.isSecond.compare_eq u.isSecond]
  rfl

/-- A clock that shows second 60 is at second 59 still, with the nanoseconds of one more. -/
lemma instant?_eq_some (h : t.instant? a nano offset = some i) :
    ∃ (second : Nat) (leap : Nat),
      (numberOf t.second < 60 ∧ second = numberOf t.second ∧ leap = 0 ∨
        numberOf t.second = 60 ∧ second = 59 ∧ leap = 1) ∧
      numberOf t.hour < 24 ∧ numberOf t.minute < 60 ∧
      i.second = a.day * 86400 + numberOf t.hour * 3600 + numberOf t.minute * 60 + second - offset ∧
      i.nano = nano + leap * 1000000000 := by
  simp only [instant?, Calendar.instant?, Instant.daySeconds, Instant.secondNanos] at h
  split at h
  · next hvalid =>
    obtain ⟨hhour, hminute, hsecond⟩ := hvalid
    obtain rfl := Option.some.inj h
    by_cases hleap : numberOf t.second = 60
    · exact ⟨59, 1, .inr ⟨hleap, rfl, rfl⟩, hhour, hminute, by simp [hleap], by simp [hleap]⟩
    · exact ⟨numberOf t.second, 0, .inl ⟨by omega, rfl, rfl⟩, hhour, hminute, by simp [hleap],
        by simp [hleap]⟩
  · contradiction

/-- A leap second comes after the second before it and before the next minute. -/
lemma compare_instant? (hi : t.instant? a nano offset = some i)
    (hj : u.instant? b nano offset = some j) :
    compare i j = (compare a b).then (compare t.chars u.chars) := by
  obtain ⟨second, leap, hleap, hhour, hminute, hsecond, hnano⟩ := instant?_eq_some hi
  obtain ⟨second', leap', hleap', hhour', hminute', hsecond', hnano'⟩ := instant?_eq_some hj
  -- the count of seconds and the leap second together are one number
  have hcount : compare (2 * i.second + leap) (2 * j.second + leap') =
      (compare i.second j.second).then (compare i.nano j.nano) :=
    compare_eq_then (by omega) (by omega) fun h => compare_eq_compare (by omega) (by omega)
      (by omega)
  show (compare i.second j.second).then (compare i.nano j.nano) =
    (compare a.day b.day).then (compare t.chars u.chars)
  rw [← hcount, compare_chars]
  refine compare_eq_then (by omega) (by omega) fun hday => ?_
  refine compare_eq_then (by omega) (by omega) fun hour => ?_
  refine compare_eq_then (by omega) (by omega) fun minute => ?_
  exact compare_eq_compare (by omega) (by omega) (by omega)

lemma naiveTime?_append (t : ClockText) (d : Date) (rest : List Char) :
    naiveTime? d (t.chars ++ rest) = if rest.isEmpty then t.instant? d 0 0 else none := by
  have hchars : t.chars ++ rest =
      t.hour ++ ':' :: (t.minute ++ ':' :: (t.second ++ rest)) := by simp [chars]
  rw [hchars]
  simp only [naiveTime?, loose?_digits t.isHour, loose?_digits t.isMinute,
    loose?_digits t.isSecond, mark?_self, Option.bind_eq_bind, Option.bind_some, instant?]

end ClockText

/-- The fraction and the offset behind the seconds; without an offset the clock is that of Universal
Time, and there is no fraction. -/
def Calendar.afterSeconds? (rest : List Char) : Option (Nat × Int) :=
  if rest.isEmpty then some (0, 0)
  else (fraction? rest).bind fun (nano, cs) => (offset? cs).map fun offset => (nano, offset)

/-- A text of an instant up to the seconds. -/
structure InstantText where
  date : DateText
  clock : ClockText

namespace InstantText

variable {t u : InstantText} {i j : Instant} {rest : String}

/-- The characters of the text. -/
def chars (t : InstantText) : List Char := t.date.chars ++ 'T' :: t.clock.chars

/-- The text, with what stands behind the seconds. -/
def text (t : InstantText) (rest : String) : String := String.ofList t.chars ++ rest

lemma zoned?_append (t : InstantText) (rest : List Char) :
    zoned? (t.chars ++ rest) = (fraction? rest).bind fun x => (offset? x.2).bind fun offset =>
      t.date.date?.bind fun d => t.clock.instant? d x.1 offset := by
  have hchars : t.chars ++ rest = t.date.year ++ '-' :: (t.date.month ++ '-' :: (t.date.day ++
      'T' :: (t.clock.hour ++ ':' :: (t.clock.minute ++ ':' :: (t.clock.second ++ rest))))) := by
    simp [chars, DateText.chars, ClockText.chars]
  -- one number and one mark at a time, since the separator in the middle has several forms
  rw [hchars, zoned?, exactNumber?_digits t.date.isYear, some_bind]
  dsimp -zeta only
  rw [mark?_self, some_bind, exactNumber?_digits t.date.isMonth, some_bind]
  dsimp -zeta only
  rw [mark?_self, some_bind, exactNumber?_digits t.date.isDay, some_bind]
  simp only
  rw [some_bind, exactNumber?_digits t.clock.isHour, some_bind]
  dsimp only
  rw [mark?_self, some_bind, exactNumber?_digits t.clock.isMinute, some_bind]
  dsimp only
  rw [mark?_self, some_bind, exactNumber?_digits t.clock.isSecond, some_bind]
  rfl

lemma naive?_append (t : InstantText) (rest : List Char) :
    naive? (t.chars ++ rest) =
      if rest.isEmpty then t.date.date?.bind fun d => t.clock.instant? d 0 0 else none := by
  have hlate : ∀ (d : Date) (cs : List Char),
      naiveTime? d (('T' :: cs).dropWhile Text.isBlank) = none := fun _ _ => rfl
  have hdate := t.date.date?_append ('T' :: (t.clock.chars ++ rest))
  have hchars : t.chars ++ rest = t.date.chars ++ 'T' :: (t.clock.chars ++ rest) := by simp [chars]
  rw [naive?, hchars, hdate]
  cases t.date.date? with
  | none => simp
  | some d =>
    simp only [Option.map_some, mark?_self, Option.bind_some, t.clock.naiveTime?_append, hlate]
    split <;> simp_all

/-- What an instant text writes is read off its date, its clock and the rest. -/
lemma instant_read?_text (t : InstantText) (rest : String) :
    Instant.read? (t.text rest) = (afterSeconds? rest.toList).bind fun x =>
      t.date.date?.bind fun d => t.clock.instant? d x.1 x.2 := by
  have hchars : (t.text rest).toList = t.chars ++ rest.toList := by simp [text]
  rw [Instant.read?, hchars, zoned?_append, naive?_append, afterSeconds?]
  by_cases hrest : rest.toList.isEmpty
  · rw [if_pos hrest, if_pos hrest, List.isEmpty_iff.mp hrest]
    rfl
  · rw [if_neg hrest, if_neg hrest, Option.bind_assoc]
    simp only [Option.bind_map]
    split
    · next hzoned => exact hzoned.symm
    · next hzoned => exact hzoned.symm

/-- **Instants in one notation** are in the order of their texts. -/
theorem compareText_eq (hi : Instant.read? (t.text rest) = some i)
    (hj : Instant.read? (u.text rest) = some j) :
    Document.compareText (t.text rest) (u.text rest) = compare i j := by
  rw [instant_read?_text] at hi hj
  obtain ⟨⟨nano, offset⟩, hrest, hi⟩ := Option.bind_eq_some_iff.mp hi
  obtain ⟨a, ha, hi⟩ := Option.bind_eq_some_iff.mp hi
  rw [hrest, Option.bind_some] at hj
  obtain ⟨b, hb, hj⟩ := Option.bind_eq_some_iff.mp hj
  have hdate : t.date.chars.length = u.date.chars.length :=
    t.date.length_chars.trans u.date.length_chars.symm
  have hclock : t.clock.chars.length = u.clock.chars.length :=
    t.clock.length_chars.trans u.clock.length_chars.symm
  have hsame : compare rest.toList rest.toList = .eq := Std.ReflCmp.compare_self
  rw [Document.compareText_eq, ClockText.compare_instant? hi hj]
  simp only [text, chars, String.toList_append, String.toList_ofList, List.append_assoc,
    List.cons_append]
  rw [compare_append hdate, List.compare_cons_cons, compare_append hclock, hsame,
    Ordering.then_eq, DateText.compare_chars ha hb]
  rfl

end InstantText

end EntityFilter
