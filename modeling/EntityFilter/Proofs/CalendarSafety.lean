import EntityFilter.Proofs.AskedPeriods
import EntityFilter.Proofs.CalendarEnds
import EntityFilter.Row.Annotation

/-!
# Filters at the ends of the calendar

The calendar can end while a filter is compiled, within a named period, and while rows are
annotated, on the way to the beginning of a week.  There is no result then.

Compiling has a result exactly if all named periods fit into the calendar that the filter asks for
(`Compiler.compile?_eq_some_iff`).  Filtering rows has a result exactly if no projection truncates a
date in a row to the week that the calendar begins in (`CompiledFilter.keep?_eq_some_iff`); which
date that is depends on the projections that have been stored in the row before.  Where there is a
result, it is the one that knows of no end.

Every filter is compiled at a present that the calendar goes back a year from, except on the last
day (`Compiler.isSome_compile?_iff`).
-/

namespace EntityFilter

/-! ## Filters that are compiled -/

section

variable {c : Compiler} {f : Filter}

lemma Compiler.fitsCalendar_iff {names : List Shortcut} (hnow : c.now.InRange) :
    c.fitsCalendar names ↔ ∀ name ∈ names, name.Fits c.now := by
  rw [fitsCalendar, List.all_eq_true]
  refine forall₂_congr fun name _ => ?_
  rw [Shortcut.period?_eq hnow]
  by_cases hfits : name.Fits c.now <;> simp [hfits]

/-- **When a filter is compiled**: the calendar does not end within a named period that this asks
for.  The result is the one of `compile` then. -/
theorem Compiler.compile?_eq_some_iff {entity : String} {r : Except FilterError CompiledFilter}
    (hnow : c.now.InRange) :
    c.compile? f entity = some r ↔ c.compile f entity = r ∧
      ∀ compiled e name, r = .ok compiled → c.catalog.entity? entity = some e →
        c.AsksFor f e name → name.Fits c.now := by
  unfold compile?
  split
  · next compiled e hcompile he =>
    rw [Option.ite_none_right_eq_some, fitsCalendar_iff hnow, Option.some.injEq, hcompile]
    constructor
    · rintro ⟨hfits, rfl⟩
      refine ⟨rfl, fun compiled' e' name _ he' hasks => ?_⟩
      obtain rfl := Option.some.inj (he.symm.trans he')
      exact hfits name (mem_periods_iff.mpr hasks)
    · rintro ⟨rfl, hfits⟩
      exact ⟨fun name hname => hfits compiled e name rfl he (mem_periods_iff.mp hname), rfl⟩
  · next hother =>
    constructor
    · intro h
      obtain rfl := Option.some.inj h
      exact ⟨rfl, fun compiled e name hr he _ => (hother compiled e hr he).elim⟩
    · exact fun h => congrArg some h.1

end

/-! ## Rows that are annotated -/

/-- Computing an expression for a row leaves the calendar: it is the week of a date before the first
Monday. -/
def ProjectionExpr.LeavesCalendar (expr : ProjectionExpr) (row : Document) : Prop :=
  ∃ path m, expr = .dateTrunc path .week ∧
    (row.readField? path).bind Moment.ofDocument? = some m ∧ m.toDate.day < Date.firstMonday.day

/-- No projection leaves the calendar when a row is annotated: it is computed for the rows of its
path, which hold the projections in front of it already. -/
def Document.StaysInCalendar (set : ProjectionSet) (row : Document) : Prop :=
  ∀ earlier p later, set.toList = earlier ++ p :: later →
    ∀ target ∈ (earlier.foldl annotateWith row).related p.scope.segments,
      ¬p.expr.LeavesCalendar target

section

variable {expr : ProjectionExpr} {row d : Document} {set : ProjectionSet} {m : Moment}
  {k : TruncKind}

lemma Moment.truncated?_eq (hm : m.InRange) :
    m.truncated? k = if k.Fits m.toDate then some (m.truncated k) else none := by
  cases m with
  | date d =>
    rw [truncated?, TruncKind.truncateDate?_eq hm, apply_ite (Option.map _), Option.map_some,
      Option.map_none]
    rfl
  | instant t =>
    rw [truncated?, TruncKind.truncate?_eq hm, apply_ite (Option.map _), Option.map_some,
      Option.map_none]
    rfl

lemma ProjectionExpr.fitsCalendar_iff : expr.fitsCalendar row ↔ ¬expr.LeavesCalendar row := by
  cases expr with
  | dateTrunc path k =>
    rw [fitsCalendar]
    cases hread : (row.readField? path).bind Moment.ofDocument? with
    | none =>
      refine iff_of_true rfl ?_
      rintro ⟨path', m, heq, hread', -⟩
      obtain ⟨rfl, -⟩ := ProjectionExpr.dateTrunc.inj heq
      rw [hread] at hread'
      contradiction
    | some m =>
      obtain ⟨w, -, hw⟩ := Option.bind_eq_some_iff.mp hread
      have hleaves : (dateTrunc path k).LeavesCalendar row ↔ ¬k.Fits m.toDate := by
        rw [TruncKind.Fits, Classical.not_imp, not_le]
        constructor
        · rintro ⟨path', m', heq, hread', hbefore⟩
          obtain ⟨rfl, rfl⟩ := ProjectionExpr.dateTrunc.inj heq
          obtain rfl := Option.some.inj (hread.symm.trans hread')
          exact ⟨rfl, hbefore⟩
        · rintro ⟨rfl, hbefore⟩
          exact ⟨path, m, rfl, hread, hbefore⟩
      have hm : m.InRange := Moment.inRange_of_ofDocument? hw
      rw [hleaves, not_not, Option.all_some, Moment.truncated?_eq hm]
      by_cases hfits : k.Fits m.toDate <;> simp [hfits]
  | _ => simp [fitsCalendar, LeavesCalendar]

/-! ### Runs of guarded steps -/

section

variable {α β : Type} {Safe : β → α → Prop}

/-- A run of guarded steps has a result if every step is safe where it is made. -/
lemma foldlM_guarded {step? : α → β → Option α} {step : α → β → α}
    (hstep : ∀ a b a', step? a b = some a' ↔ step a b = a' ∧ Safe b a) (bs : List β) (a a' : α) :
    bs.foldlM step? a = some a' ↔ bs.foldl step a = a' ∧
      ∀ earlier b later, bs = earlier ++ b :: later → Safe b (earlier.foldl step a) := by
  induction bs generalizing a with
  | nil => simp [pure]
  | cons b bs ih =>
    rw [List.foldlM_cons, Option.bind_eq_bind, Option.bind_eq_some_iff]
    constructor
    · rintro ⟨a₁, hfirst, hrest⟩
      obtain ⟨rfl, hsafe⟩ := (hstep _ _ _).mp hfirst
      obtain ⟨hfold, hall⟩ := (ih _).mp hrest
      refine ⟨hfold, fun earlier b' later heq => ?_⟩
      cases earlier with
      | nil =>
        obtain ⟨rfl, -⟩ := List.cons.inj heq
        exact hsafe
      | cons x earlier =>
        obtain ⟨rfl, htail⟩ := List.cons.inj heq
        exact hall earlier b' later htail
    · rintro ⟨hfold, hall⟩
      have hrest : ∀ earlier b' later, bs = earlier ++ b' :: later →
          Safe b' (earlier.foldl step (step a b)) :=
        fun earlier b' later heq => hall (b :: earlier) b' later (by rw [heq, List.cons_append])
      exact ⟨step a b, (hstep _ _ _).mpr ⟨rfl, hall [] b bs rfl⟩, (ih _).mpr ⟨hfold, hrest⟩⟩

/-- Guarded steps on the elements of a list have results if all of them are safe. -/
lemma mapM_guarded {f? : α → Option β} {f : α → β} {Safe : α → Prop}
    (hf : ∀ a b, f? a = some b ↔ f a = b ∧ Safe a) (as : List α) (bs : List β) :
    as.mapM f? = some bs ↔ as.map f = bs ∧ ∀ a ∈ as, Safe a := by
  induction as generalizing bs with
  | nil => simp [pure]
  | cons a as ih =>
    simp only [List.mapM_cons, Option.bind_eq_bind, Option.bind_eq_some_iff, hf, ih, pure,
      Option.some.injEq, List.map_cons, List.forall_mem_cons]
    constructor
    · rintro ⟨b, ⟨rfl, hsafe⟩, bs', ⟨rfl, hall⟩, rfl⟩
      exact ⟨rfl, hsafe, hall⟩
    · rintro ⟨rfl, hsafe, hall⟩
      exact ⟨_, ⟨rfl, hsafe⟩, _, ⟨rfl, hall⟩, rfl⟩

end

/-! ### Annotated rows -/

lemma Document.annotateWith?_eq_some_iff {p : Projection} :
    row.annotateWith? p = some d ↔ row.annotateWith p = d ∧
      ∀ target ∈ row.related p.scope.segments, ¬p.expr.LeavesCalendar target := by
  rw [annotateWith?, Option.ite_none_right_eq_some, List.all_eq_true, Option.some.injEq, and_comm]
  simp only [ProjectionExpr.fitsCalendar_iff]

/-- **When a row is annotated**: no projection leaves the calendar on the way. -/
theorem Document.annotate?_eq_some_iff :
    annotate? set row = some d ↔ annotate set row = d ∧ StaysInCalendar set row :=
  foldlM_guarded (fun _ _ _ => annotateWith?_eq_some_iff) set.toList row d

/-- **When rows are filtered**: all of them are annotated.  The rows that are kept are those of
`apply` then. -/
theorem CompiledFilter.keep?_eq_some_iff {compiled : CompiledFilter} {rows kept : List Document} :
    compiled.keep? rows = some kept ↔ compiled.apply rows = kept ∧
      ∀ row ∈ rows, row.StaysInCalendar compiled.projections := by
  rw [keep?, Option.map_eq_some_iff]
  simp only [mapM_guarded fun _ _ => Document.annotate?_eq_some_iff]
  constructor
  · rintro ⟨annotated, ⟨rfl, hall⟩, rfl⟩
    exact ⟨rfl, hall⟩
  · rintro ⟨rfl, hall⟩
    exact ⟨_, ⟨rfl, hall⟩, rfl⟩

end

/-! ## Presents at which everything is compiled -/

lemma Shortcut.fits_all_iff {now : Instant} :
    (∀ name : Shortcut, name.Fits now) ↔ now.GoesBack 365 ∧ now.date.day < Date.last.day := by
  constructor
  · intro h
    exact ⟨h .pastYear, h .today⟩
  · rintro ⟨hback, hlast⟩ name
    have hcounted : now.countedSecond ≤ now.second + 1 := by
      unfold Instant.countedSecond
      split <;> omega
    have hmonday : Date.firstMonday.day = Date.first.day + 4 := rfl
    cases name <;>
      simp only [Fits, Instant.GoesBack, Instant.date, Instant.daySeconds] at hback hlast ⊢ <;>
      omega

namespace Launch

/-- A product has a date of its release. -/
def product : Entity :=
  (Entity.withField { name := "Product" } { name := "id", kind := .id }).withField
    { name := "released", kind := .date }

def compilerAt (now : Instant) : Compiler :=
  { catalog := Catalog.withEntity {} product, settings := { features := .all }, now }

/-- The noon of a day in the summer of 2024. -/
def summer : Instant := ⟨1718452800, 0⟩

/-- A time lies in a named period. -/
def during (name : Shortcut) : Leaf := .single name.name (.bool true)

/-- The release lies in a named period. -/
def releasedIn (name : Shortcut) : Filter :=
  .node [("released", .field "released" (during name))]

/-- The release lies in a week that does not begin before 2024. -/
def releasedInWeek : Filter :=
  .node [("released_trunc", .trunc ⟨"released", .week, .single "gte" (.text "2024-01-01")⟩)]

lemma compile_releasedIn (name : Shortcut) (now : Instant) :
    ∃ compiled, (compilerAt now).compile (releasedIn name) "Product" = .ok compiled := by
  have hlimits : (compilerAt now).settings.limits.error? (releasedIn name) = none := by
    cases name <;> rfl
  exact ⟨_, Compiler.compile_eq_ok (n := "Product") (e := product) rfl hlimits⟩

/-- What the filter on the week of the release is compiled to. -/
def weekly : CompiledFilter :=
  let c := compilerAt summer
  let set := c.projections releasedInWeek product
  { projections := set, predicate := c.predicate? releasedInWeek product set }

lemma fits_summer (name : Shortcut) : name.Fits summer :=
  Shortcut.fits_all_iff.mpr (by decide) name

lemma compile_releasedInWeek :
    (compilerAt summer).compile releasedInWeek "Product" = .ok weekly :=
  Compiler.compile_eq_ok (n := "Product") (e := product) rfl rfl

lemma asksFor_releasedIn (name : Shortcut) (now : Instant) :
    (compilerAt now).AsksFor (releasedIn name) product name := by
  have hvisit : ⟨{ entity := product }, "released", .field "released" (during name)⟩ ∈
      (releasedIn name).visits (compilerAt now) { entity := product } := List.mem_cons_self
  have hfield : product.field? "released" = some { name := "released", kind := .date } := rfl
  have hasks : (during name).AsksFor .date name := ⟨rfl, true, List.mem_cons_self⟩
  exact .predicate ⟨_, hvisit, _, _, _, _, .field rfl hfield nofun, hasks⟩

end Launch

open Launch

/-- **The presents at which every filter is compiled**: 365 days before them and the next day are in
the calendar. -/
theorem Compiler.isSome_compile?_iff {now : Instant} (hnow : now.InRange) :
    (∀ (c : Compiler) (f : Filter) (entity : String), c.now = now → (c.compile? f entity).isSome) ↔
      now.GoesBack 365 ∧ now.date.day < Date.last.day := by
  rw [← Shortcut.fits_all_iff]
  constructor
  · intro h name
    obtain ⟨r, hr⟩ :=
      Option.isSome_iff_exists.mp (h (compilerAt now) (releasedIn name) "Product" rfl)
    obtain ⟨compiled, hcompiled⟩ := compile_releasedIn name now
    obtain ⟨heq, hfits⟩ := (compile?_eq_some_iff (c := compilerAt now) hnow).mp hr
    have hentity : (compilerAt now).catalog.entity? "Product" = some product := rfl
    exact hfits compiled product name (heq.symm.trans hcompiled) hentity
      (asksFor_releasedIn name now)
  · rintro h c f entity rfl
    exact Option.isSome_of_eq_some
      ((compile?_eq_some_iff hnow).mpr ⟨rfl, fun _ _ name _ _ _ => h name⟩)

/-! ## Compiling and filtering -/

/-- **When filters and rows stay in the calendar.**  Dates and instants are truncated if the
calendar has the first day of their bucket, and named periods are computed if it does not end within
them.  A filter is compiled if all named periods fit that it asks for, and rows are filtered if no
projection truncates a date in them to a week that the calendar lacks.  What rows write lies in the
calendar already. -/
theorem Compiler.completes_iff {c : Compiler} (hnow : c.now.InRange) :
    (∀ (k : TruncKind) (d : Date), d.InRange →
      k.truncateDate? d = if k.Fits d then some (k.truncateDate d) else none) ∧
    (∀ (k : TruncKind) (t : Instant), t.InRange →
      k.truncate? t = if k.Fits t.date then some (k.truncate t) else none) ∧
    (∀ name : Shortcut,
      name.period? c.now = if name.Fits c.now then some (name.period c.now) else none) ∧
    (∀ (w : Document) (m : Moment), Moment.ofDocument? w = some m → m.InRange) ∧
    (∀ (f : Filter) (entity : String) (r : Except FilterError CompiledFilter),
      c.compile? f entity = some r ↔ c.compile f entity = r ∧
        ∀ compiled e name, r = .ok compiled → c.catalog.entity? entity = some e →
          c.AsksFor f e name → name.Fits c.now) ∧
    ∀ (compiled : CompiledFilter) (rows kept : List Document),
      compiled.keep? rows = some kept ↔ compiled.apply rows = kept ∧
        ∀ row ∈ rows, row.StaysInCalendar compiled.projections :=
  ⟨fun _ _ => TruncKind.truncateDate?_eq, fun _ _ => TruncKind.truncate?_eq,
    fun _ => Shortcut.period?_eq hnow, fun _ _ => Moment.inRange_of_ofDocument?,
    fun _ _ _ => compile?_eq_some_iff hnow, fun _ _ _ => CompiledFilter.keep?_eq_some_iff⟩

/-- A product that was released on the first Monday of the calendar: its week is found, and it is
not kept. -/
theorem Compiler.completes_iff_firstMonday :
    let c := compilerAt summer
    let row := Document.object [("id", .int 1), ("released", .text "-262143-01-05")]
    c.now.InRange ∧ TruncKind.week.truncateDate? .firstMonday = some .firstMonday ∧
      (Shortcut.pastYear.period? c.now).isSome ∧
      c.compile? (releasedIn .today) "Product" = some (c.compile (releasedIn .today) "Product") ∧
      c.compile? releasedInWeek "Product" = some (.ok weekly) ∧ weekly.keep? [row] = some [] := by
  intro c row
  have hnow : c.now.InRange := by decide
  obtain ⟨hdates, -, hperiods, -, hcompile, hkeep⟩ := c.completes_iff hnow
  refine ⟨hnow, ?_, ?_, ?_, ?_, ?_⟩
  · rw [hdates .week .firstMonday (by decide), if_pos (by decide)]
    decide
  · have hpast : Shortcut.pastYear.Fits c.now := fits_summer _
    rw [hperiods, if_pos hpast]
    rfl
  · exact (hcompile _ _ _).mpr ⟨rfl, fun _ _ name _ _ _ => fits_summer name⟩
  · exact (hcompile _ _ _).mpr ⟨compile_releasedInWeek, fun _ _ name _ _ _ => fits_summer name⟩
  · have hempty : (weekly.apply [row]).isEmpty := rfl
    have hsome : (Document.annotate? weekly.projections row).isSome := rfl
    obtain ⟨d, hd⟩ := Option.isSome_iff_exists.mp hsome
    have hstays := (Document.annotate?_eq_some_iff.mp hd).2
    refine (hkeep _ _ _).mpr ⟨List.isEmpty_iff.mp hempty, fun x hx => ?_⟩
    rwa [List.mem_singleton.mp hx]

/-- The first four days of the calendar have no Monday, and its last day has no next one.  A filter
on what is released today is not compiled on the last day, and a product that was released on the
first day cannot be filtered by the week of its release. -/
theorem Compiler.completes_not_always :
    (¬∀ (k : TruncKind) (d : Date), d.InRange → (k.truncateDate? d).isSome) ∧
    (¬∀ (k : TruncKind) (t : Instant), t.InRange → (k.truncate? t).isSome) ∧
    (¬∀ (name : Shortcut) (now : Instant), now.InRange → (name.period? now).isSome) ∧
    (¬∀ (c : Compiler) (f : Filter) (entity : String), c.now.InRange →
      (c.compile? f entity).isSome) ∧
    ¬∀ (c : Compiler) (f : Filter) (entity : String) (compiled : CompiledFilter)
      (rows : List Document), c.now.InRange → c.compile? f entity = some (.ok compiled) →
        (compiled.keep? rows).isSome := by
  refine ⟨fun h => ?_, fun h => ?_, fun h => ?_, fun h => ?_, fun h => ?_⟩
  · exact absurd (h .week .first (by decide)) (by decide)
  · exact absurd (h .week (.midnight .first) (by decide)) (by decide)
  · exact absurd (h .today (.midnight .last) (by decide)) (by decide)
  · exact absurd (h (compilerAt (.midnight .last)) (releasedIn .today) "Product" (by decide))
      Bool.false_ne_true
  · have hnow : (compilerAt summer).now.InRange := by decide
    have hcompile : (compilerAt summer).compile? releasedInWeek "Product" =
        some (.ok weekly) :=
      (compile?_eq_some_iff hnow).mpr
        ⟨compile_releasedInWeek, fun _ _ name _ _ _ => fits_summer name⟩
    exact absurd (h _ _ _ _ [.object [("id", .int 1), ("released", .text "-262143-01-01")]] hnow
      hcompile) Bool.false_ne_true

end EntityFilter
