import EntityFilter.Proofs.CanonicalLeaves
import EntityFilter.Proofs.NamedPeriods

/-!
# Dates and instants read from texts

An operand that is compared with a date field is turned into dates, and one that is compared with a
field of instants is turned into instants.  Both read the same texts, but in different orders: the
one tries the form of a date first, the other the forms of an instant.  The orders do not matter,
because no text has both forms (`Date.read?_of_read?`): an instant goes on where a date has to end.
So the date of a text is the date of its instant (`Literal.dateOfText?_eq_map`), and turning a
literal into instants on the way to dates changes nothing (`Literal.coercions_commute`).

What neither coercion understands is what holds neither a date nor an instant, nor a text that
writes one, at whatever depth of lists (`Literal.HoldsTime`).  These are exactly the literals that
both leave as they are.
-/

namespace EntityFilter

namespace Calendar

variable {width n : Nat} {cs rest : List Char} {t : Instant}

/-! ## A text that writes an instant with an offset -/

/-- What is read as a number of exactly so many digits begins with a digit, and is read alike as a
number of at most so many. -/
lemma number?_of_exactNumber? (hwidth : width ≠ 0) (h : exactNumber? width cs = some (n, rest)) :
    number? width cs = some (n, rest) ∧ ∃ c cs', cs = c :: cs' ∧ c.isDigit := by
  unfold exactNumber? at h
  simp only at h
  split at h
  · next hlength =>
    obtain ⟨rfl, rfl⟩ := Prod.mk.inj (Option.some.inj h)
    cases cs with
    | nil => exact absurd (hlength.symm.trans (by simp)) hwidth
    | cons c cs' =>
      have hdigit : c.isDigit := by
        by_contra hc
        rw [List.takeWhile_cons_of_neg hc, List.take_nil] at hlength
        exact hwidth hlength.symm
      refine ⟨?_, c, cs', rfl, hdigit⟩
      unfold number?
      split
      · next hnil =>
        rw [hnil] at hlength
        exact absurd hlength.symm hwidth
      · rw [hlength]
  · contradiction

lemma loose?_of_exactNumber? (h : exactNumber? 2 cs = some (n, rest)) :
    loose? cs = some (n, rest) := by
  obtain ⟨hnumber, c, cs', rfl, hdigit⟩ := number?_of_exactNumber? (by decide) h
  rw [loose?, List.dropWhile_cons_of_neg (by simp [Text.isBlank_of_isDigit hdigit]), hnumber]

lemma year?_of_exactNumber? (h : exactNumber? 4 cs = some (n, rest)) :
    year? cs = some ((n : Int), rest) := by
  obtain ⟨hnumber, c, cs', rfl, hdigit⟩ := number?_of_exactNumber? (by decide) h
  unfold year?
  rw [List.dropWhile_cons_of_neg (by simp [Text.isBlank_of_isDigit hdigit])]
  split
  · next heq => exact absurd hdigit (by simp [(List.cons.inj heq).1])
  · next heq => exact absurd hdigit (by simp [(List.cons.inj heq).1])
  · rw [hnumber, Option.map_some]

/-- An instant with an offset begins with a date, and does not end there. -/
lemma date?_of_zoned? (h : zoned? cs = some t) : ∃ d c rest, date? cs = some (d, c :: rest) := by
  unfold zoned? at h
  obtain ⟨⟨year, cs₁⟩, hyear, h⟩ := Option.bind_eq_some_iff.mp h
  obtain ⟨cs₂, hmark, h⟩ := Option.bind_eq_some_iff.mp h
  obtain ⟨⟨month, cs₃⟩, hmonth, h⟩ := Option.bind_eq_some_iff.mp h
  obtain ⟨cs₄, hmark', h⟩ := Option.bind_eq_some_iff.mp h
  obtain ⟨⟨day, cs₅⟩, hday, h⟩ := Option.bind_eq_some_iff.mp h
  dsimp only at hyear h hmark hmonth hmark' hday
  have hdate : date? cs = (Date.ofCivil? year month day).map fun d => (d, cs₅) := by
    simp only [date?, year?_of_exactNumber? hyear, hmark, loose?_of_exactNumber? hmonth, hmark',
      loose?_of_exactNumber? hday, Option.bind_eq_bind, Option.bind_some]
    cases Date.ofCivil? year month day <;> rfl
  cases hcivil : Date.ofCivil? year month day with
  | none =>
    simp only [hcivil] at h
    split at h <;>
      simp only [Option.bind_eq_bind, Option.bind_none, Option.bind_fun_none, reduceCtorEq] at h
  | some d =>
    cases cs₅ with
    | nil => cases h
    | cons c rest => exact ⟨d, c, rest, by rw [hdate, hcivil, Option.map_some]⟩

/-- An instant without an offset does not end where its date does. -/
lemma naive?_of_date? {d : Date} (h : date? cs = some (d, [])) : naive? cs = none := by
  rw [naive?, h]
  rfl

end Calendar

/-- **No text has both forms**: what writes an instant does not write a date. -/
theorem Date.read?_of_read? {s : String} {t : Instant} (h : Instant.read? s = some t) :
    Date.read? s = none := by
  cases hdate : Date.read? s with
  | none => rfl
  | some d =>
    -- the date takes all of the text, so nothing is left for a time
    have hall : Calendar.date? s.toList = some (d, []) := by
      unfold Date.read? at hdate
      split at hdate
      · next hread => rw [hread, Option.some.inj hdate]
      · contradiction
    unfold Instant.read? at h
    split at h
    · next hzoned =>
      obtain ⟨d', c, rest, hread⟩ := Calendar.date?_of_zoned? hzoned
      simp [hall] at hread
    · rw [Calendar.naive?_of_date? hall] at h
      contradiction

namespace Literal

variable {f g h : Literal → Literal} {v x : Literal} {items : List Literal} {s : String}

/-- **The date of a text is the date of its instant.** -/
lemma dateOfText?_eq_map (s : String) : dateOfText? s = (instantOfText? s).map Instant.date := by
  unfold dateOfText? instantOfText?
  cases ht : Instant.read? s with
  | some t => rw [Date.read?_of_read? ht]
  | none =>
    cases Date.read? s with
    | none => rfl
    | some d => exact congrArg some (Instant.date_midnight d).symm

/-! ## Coercions one after the other -/

/-- Coercions that agree on single values agree on lists of them. -/
lemma IsCoercion.comp_eq (hf : IsCoercion f) (hg : IsCoercion g) (hh : IsCoercion h)
    (hplain : ∀ v, v.isPlain → f (g v) = h v) (v : Literal) : f (g v) = h v := by
  induction v using of_items with
  | plain v hv => exact hplain v hv
  | document d => rw [hg.document, hf.document, hh.document]
  | list items ih =>
    rw [hg.list, hf.list, hh.list, List.map_map]
    exact congrArg Literal.list (List.map_congr_left ih)

/-- Dates stay dates. -/
lemma coerceDate_coerceDate (v : Literal) : v.coerceDate.coerceDate = v.coerceDate := by
  have hc := isCoercion_coerceDate
  refine hc.comp_eq hc hc (fun v _ => ?_) v
  cases v with
  | text s => cases hs : dateOfText? s <;> simp [coerceDate, hs]
  | list | document => contradiction
  | _ => rfl

/-- Instants stay instants. -/
lemma coerceInstant_coerceInstant (v : Literal) :
    v.coerceInstant.coerceInstant = v.coerceInstant := by
  have hc := isCoercion_coerceInstant
  refine hc.comp_eq hc hc (fun v _ => ?_) v
  cases v with
  | text s => cases hs : instantOfText? s <;> simp [coerceInstant, hs]
  | list | document => contradiction
  | _ => rfl

/-- Instants on the way to dates change nothing. -/
lemma coerceDate_coerceInstant (v : Literal) : v.coerceInstant.coerceDate = v.coerceDate := by
  refine isCoercion_coerceDate.comp_eq isCoercion_coerceInstant isCoercion_coerceDate
    (fun v _ => ?_) v
  cases v with
  | text s =>
    cases hs : instantOfText? s <;> simp [coerceDate, coerceInstant, dateOfText?_eq_map, hs]
  | date d => exact congrArg date (Instant.date_midnight d)
  | list | document => contradiction
  | _ => rfl

/-! ## What is left as it is -/

/-- A date, an instant, or a text that writes one of them. -/
def isTime : Literal → Bool
  | text s => (Date.read? s).isSome || (Instant.read? s).isSome
  | date _ | instant _ => true
  | _ => false

/-- A literal is the other one, or stands in it, in lists of any depth. -/
inductive StandsIn (x : Literal) : Literal → Prop where
  | self : StandsIn x x
  | item {v : Literal} {items : List Literal} (hv : v ∈ items) (hx : StandsIn x v) :
    StandsIn x (list items)

/-- Somewhere in the literal is a date or an instant, or a text that writes one. -/
def HoldsTime (v : Literal) : Prop := ∃ x, StandsIn x v ∧ x.isTime

lemma holdsTime_list : (list items).HoldsTime ↔ ∃ v ∈ items, v.HoldsTime := by
  constructor
  · rintro ⟨x, hx, htime⟩
    cases hx with
    | self => contradiction
    | item hv hx => exact ⟨_, hv, x, hx, htime⟩
  · rintro ⟨v, hv, x, hx, htime⟩
    exact ⟨x, .item hv hx, htime⟩

lemma holdsTime_of_isPlain (h : v.isPlain) : v.HoldsTime ↔ v.isTime := by
  constructor
  · rintro ⟨x, hx, htime⟩
    cases hx with
    | self => exact htime
    | item => contradiction
  · exact fun htime => ⟨v, .self, htime⟩

/-- A text is no time if neither of the coercions reads it. -/
lemma isTime_text_eq_false_iff : (text s).isTime = false ↔ instantOfText? s = none := by
  simp only [isTime, instantOfText?]
  cases Instant.read? s <;> cases Date.read? s <;> simp

lemma map_eq_self_iff : items.map f = items ↔ ∀ v ∈ items, f v = v := by
  conv_lhs => rhs; rw [← List.map_id items]
  exact List.map_inj_left

/-- **What both coercions leave as it is** holds no time. -/
lemma not_holdsTime_iff : ¬v.HoldsTime ↔ v.coerceDate = v ∧ v.coerceInstant = v := by
  induction v using of_items with
  | plain v hv =>
    rw [holdsTime_of_isPlain hv, Bool.not_eq_true]
    cases v with
    | text s =>
      rw [isTime_text_eq_false_iff]
      cases hs : instantOfText? s <;> simp [coerceDate, coerceInstant, dateOfText?_eq_map, hs]
    | list | document => contradiction
    | _ => simp [isTime, coerceDate, coerceInstant]
  | document d =>
    refine iff_of_true ?_ ⟨rfl, rfl⟩
    rintro ⟨x, hx, htime⟩
    cases hx
    contradiction
  | list items ih =>
    rw [holdsTime_list, isCoercion_coerceDate.list, isCoercion_coerceInstant.list]
    simp only [list.injEq, map_eq_self_iff, not_exists, not_and]
    constructor
    · intro hnone
      exact ⟨fun v hv => ((ih v hv).mp (hnone v hv)).1, fun v hv => ((ih v hv).mp (hnone v hv)).2⟩
    · rintro ⟨hdate, hinstant⟩ v hv
      exact (ih v hv).mpr ⟨hdate v hv, hinstant v hv⟩

/-- **The coercions of an operand commute.**  Each of them has no effect after itself, and what is
turned into dates may have been turned into instants before.  A literal holds no time exactly if
both of them, and one after the other in either order, leave it as it is. -/
theorem coercions_commute (v : Literal) :
    v.coerceDate.coerceDate = v.coerceDate ∧
    v.coerceInstant.coerceInstant = v.coerceInstant ∧
    v.coerceInstant.coerceDate = v.coerceDate ∧
    (¬v.HoldsTime ↔ v.coerceDate = v ∧ v.coerceInstant = v ∧
      v.coerceInstant.coerceDate = v ∧ v.coerceDate.coerceInstant = v) := by
  refine ⟨coerceDate_coerceDate v, coerceInstant_coerceInstant v, coerceDate_coerceInstant v, ?_⟩
  rw [not_holdsTime_iff]
  constructor
  · rintro ⟨hdate, hinstant⟩
    exact ⟨hdate, hinstant, by rw [hinstant, hdate], by rw [hdate, hinstant]⟩
  · rintro ⟨hdate, hinstant, -, -⟩
    exact ⟨hdate, hinstant⟩

/-- An evening west of the meridian is a morning of the next day, either way. -/
example : (text "2024-03-10T22:30:00-05:00").coerceDate = date ⟨19793⟩ ∧
    (text "2024-03-10T22:30:00-05:00").coerceInstant.coerceDate = date ⟨19793⟩ := by
  exact ⟨rfl, rfl⟩

end Literal

end EntityFilter
