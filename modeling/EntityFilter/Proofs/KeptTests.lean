import EntityFilter.Proofs.Handles

/-!
# No test is lost

A visited entry contributes its tests to the predicate of the filter, however deep it stands: a
conjunction and a disjunction have the tests of their parts, a negation has those of what it
negates, and rows that are looked for are looked for with their predicate.  So the tests of the
entries are kept (`Filter.tests_subset`).  Together with `Filter.test_provenance` this says exactly
which tests the predicate of a filter makes: those of its visited entries, and the searches for
identifiers that it includes (`Filter.mem_tests_iff`).
-/

namespace EntityFilter

/-! ## The tests of connectives -/

namespace Predicate

variable {path : RelationPath} {ps qs : List Predicate} {p : Predicate}

@[simp]
lemma testsOfAll_append :
    testsOfAll path (ps ++ qs) = testsOfAll path ps ++ testsOfAll path qs := by
  induction ps with
  | nil => rfl
  | cons p ps ih => simp [testsOfAll, ih]

@[simp]
lemma testsOfAll_singleton : testsOfAll path [p] = p.tests path := by simp [testsOfAll]

lemma mem_testsOfAll_toList {t : RelationPath × Predicate} {p : Option Predicate} :
    t ∈ testsOfAll path p.toList ↔ ∃ q, p = some q ∧ t ∈ q.tests path := by
  simp [mem_testsOfAll]

lemma testsOfAll_conjuncts : testsOfAll path p.conjuncts = p.tests path := by
  cases p with
  | all parts => rw [conjuncts, tests]
  | _ => exact testsOfAll_singleton

lemma testsOfAll_disjuncts : testsOfAll path p.disjuncts = p.tests path := by
  cases p with
  | any parts => rw [disjuncts, tests]
  | _ => exact testsOfAll_singleton

lemma testsOfAll_flatMap_conjuncts :
    testsOfAll path (ps.flatMap conjuncts) = testsOfAll path ps := by
  induction ps with
  | nil => rfl
  | cons p ps ih =>
    rw [List.flatMap_cons, testsOfAll_append, testsOfAll_conjuncts, ih, testsOfAll]

lemma testsOfAll_flatMap_disjuncts :
    testsOfAll path (ps.flatMap disjuncts) = testsOfAll path ps := by
  induction ps with
  | nil => rfl
  | cons p ps ih =>
    rw [List.flatMap_cons, testsOfAll_append, testsOfAll_disjuncts, ih, testsOfAll]

/-- A conjunction makes the tests of its parts. -/
lemma testsOfAll_and? : testsOfAll path (and? ps).toList = testsOfAll path ps := by
  have hparts : testsOfAll path (and? ps).toList = testsOfAll path (ps.flatMap conjuncts) := by
    cases h : and? ps with
    | none => rw [and?_eq_none h, Option.toList_none]
    | some p =>
      rw [Option.toList_some, testsOfAll_singleton]
      rcases and?_eq_some h with hone | ⟨rfl, -⟩
      · rw [hone, testsOfAll_singleton]
      · rw [tests]
  rw [hparts, testsOfAll_flatMap_conjuncts]

/-- A disjunction makes the tests of its parts. -/
lemma testsOfAll_or? : testsOfAll path (or? ps).toList = testsOfAll path ps := by
  have hparts : testsOfAll path (or? ps).toList = testsOfAll path (ps.flatMap disjuncts) := by
    cases h : or? ps with
    | none => rw [or?_eq_none h, Option.toList_none]
    | some p =>
      rw [Option.toList_some, testsOfAll_singleton]
      rcases or?_eq_some h with hone | ⟨rfl, -⟩
      · rw [hone, testsOfAll_singleton]
      · rw [tests]
  rw [hparts, testsOfAll_flatMap_disjuncts]

@[simp]
lemma tests_not : p.not.tests path = p.tests path := by
  cases p with
  | negation q => rw [not, tests]
  | _ => rfl

lemma tests_andThen (q : Predicate) : (p.andThen q).tests path = p.tests path ++ q.tests path := by
  rw [andThen, tests, testsOfAll_append, testsOfAll_conjuncts, testsOfAll_conjuncts]

end Predicate

/-! ## The tests of filters -/

open Predicate

section

variable {path relation : RelationPath} {entity : String} {p : Option Predicate}

/-- Whatever a quantifier asks of rows, it tests each row by the predicate. -/
lemma Quantifier.tests_predicate (quantifier : Quantifier) :
    (quantifier.predicate relation entity p).tests path =
      testsOfAll (path ++ relation) p.toList := by
  have hfound : (existence relation entity p).tests path =
      testsOfAll (path ++ relation) p.toList := by
    cases p with
    | none => rfl
    | some p => simp [tests_existence]
  cases quantifier with
  | some => exact hfound
  | none => rw [Quantifier.predicate, tests_not, hfound]
  | every =>
    cases p with
    | none => exact hfound
    | some p =>
      rw [Quantifier.predicate, tests_andThen, tests_not, tests_existence, tests_not]
      simp [tests]

lemma ExistenceTest.tests_predicate (t : ExistenceTest) :
    (t.predicate relation entity p).tests path = testsOfAll (path ++ relation) p.toList := by
  have hfound : (existence relation entity p).tests path =
      testsOfAll (path ++ relation) p.toList := Quantifier.some.tests_predicate
  unfold ExistenceTest.predicate
  cases t.expected <;> simpa using hfound

lemma Scope.tests_subset_widen? (s : Scope) (values : List Literal) :
    testsOfAll path p.toList ⊆ testsOfAll path (s.widen? values p).toList := by
  cases p with
  | none => exact List.nil_subset _
  | some p =>
    simp only [Scope.widen?]
    split
    · exact List.Subset.refl _
    · rw [testsOfAll_or?]
      simp [testsOfAll]

end

/-- The tests of a visited entry by itself, each with the path to the rows it is made on. -/
def Visit.tests (c : Compiler) (set : ProjectionSet) (v : Visit) :
    List (RelationPath × Predicate) :=
  testsOfAll v.scope.rows (v.predicate? c set).toList

lemma Visit.mem_tests {c : Compiler} {set : ProjectionSet} {v : Visit}
    {t : RelationPath × Predicate} : t ∈ v.tests c set ↔ v.Emits c set t :=
  mem_testsOfAll_toList

/-- What an entry contributes by itself is part of its predicate. -/
lemma FilterEntry.tests_own_subset {c : Compiler} {set : ProjectionSet} (s : Scope) (key : String)
    (e : FilterEntry) :
    Visit.tests c set ⟨s, key, e⟩ ⊆ testsOfAll s.rows (e.predicate? c set s key).toList := by
  cases e with
  | all _ | any _ | negation _ | included _ | existence _ | related _ _ | quantified _ _ _ =>
    exact List.nil_subset _
  | _ => exact List.Subset.refl _

mutual

/-- **No test of a visited entry is lost.** -/
theorem Filter.tests_subset {c : Compiler} {set : ProjectionSet} {v : Visit} :
    ∀ {s : Scope} (f : Filter), v ∈ f.visits c s →
      v.tests c set ⊆ testsOfAll s.rows (f.predicate? c set s).toList
  | s, .node es, hv => by
    rw [Filter.predicate?]
    refine List.Subset.trans ?_ (s.tests_subset_widen? _)
    rw [testsOfAll_and?]
    exact FilterEntry.tests_subset_predicates es hv

theorem FilterEntry.tests_subset_predicates {c : Compiler} {set : ProjectionSet} {v : Visit} :
    ∀ {s : Scope} (es : List (String × FilterEntry)), v ∈ FilterEntry.visitsOfAll c s es →
      v.tests c set ⊆ testsOfAll s.rows (FilterEntry.predicates c set s es)
  | _, [], hv => by simp [FilterEntry.visitsOfAll] at hv
  | s, (key, e) :: es, hv => by
    simp only [FilterEntry.visitsOfAll, List.mem_cons, List.mem_append] at hv
    rw [FilterEntry.predicates, testsOfAll_append]
    rcases hv with rfl | hv | hv
    · exact List.subset_append_of_subset_left _ (FilterEntry.tests_own_subset s key e)
    · exact List.subset_append_of_subset_left _ (FilterEntry.tests_subset e hv)
    · exact List.subset_append_of_subset_right _ (FilterEntry.tests_subset_predicates es hv)

theorem FilterEntry.tests_subset {c : Compiler} {set : ProjectionSet} {v : Visit} {s : Scope}
    {key : String} :
    ∀ e : FilterEntry, v ∈ e.visitsBelow c s →
      v.tests c set ⊆ testsOfAll s.rows (e.predicate? c set s key).toList
  | .all fs, hv => by
    rw [FilterEntry.predicate?, testsOfAll_and?]
    exact Filter.tests_subset_predicates fs hv
  | .any fs, hv => by
    rw [FilterEntry.predicate?, testsOfAll_or?]
    exact Filter.tests_subset_predicates fs hv
  | .negation f, hv => by
    have h : v.tests c set ⊆ testsOfAll s.rows (f.predicate? c set s).toList :=
      Filter.tests_subset f hv
    rw [FilterEntry.predicate?]
    cases hp : f.predicate? c set s with
    | none => rwa [hp] at h
    | some p => simpa [hp] using h
  | .related relation f, hv => by
    simp only [FilterEntry.visitsBelow] at hv
    split at hv
    · next inner h =>
      simp only [FilterEntry.predicate?, h]
      -- a joined row is tested where it is joined
      obtain ⟨-, r, target, -, -, rfl⟩ := Compiler.joinedScope?_eq_some.mp h
      exact Filter.tests_subset f hv
    · simp at hv
  | .quantified relation quantifier f, hv => by
    simp only [FilterEntry.visitsBelow] at hv
    split at hv
    · next inner h =>
      simp only [FilterEntry.predicate?, h]
      obtain ⟨-, r, target, -, -, rfl⟩ := Compiler.rowsScope?_eq_some.mp h
      rw [Option.toList_some, testsOfAll_singleton, Quantifier.tests_predicate,
        ← Scope.rows_enter s relation target]
      exact Filter.tests_subset f hv
    · simp at hv
  | .existence items, hv => by
    rw [FilterEntry.predicate?, testsOfAll_and?]
    exact ExistenceTest.tests_subset_predicates items hv
  | .id _, hv | .quick _, hv | .included _, hv | .search _, hv | .window _, hv
  | .subquery _, hv | .compare _, hv | .aggregate _ _, hv | .trunc _, hv | .extract _, hv
  | .count _ _, hv | .field _ _, hv => by
    simp [FilterEntry.visitsBelow] at hv

theorem Filter.tests_subset_predicates {c : Compiler} {set : ProjectionSet} {v : Visit} :
    ∀ {s : Scope} (fs : List Filter), v ∈ Filter.visitsOfAll c s fs →
      v.tests c set ⊆ testsOfAll s.rows (Filter.predicates c set s fs)
  | _, [], hv => by simp [Filter.visitsOfAll] at hv
  | s, f :: fs, hv => by
    simp only [Filter.visitsOfAll, List.mem_append] at hv
    rw [Filter.predicates, testsOfAll_append]
    rcases hv with hv | hv
    · exact List.subset_append_of_subset_left _ (Filter.tests_subset f hv)
    · exact List.subset_append_of_subset_right _ (Filter.tests_subset_predicates fs hv)

theorem ExistenceTest.tests_subset_predicates {c : Compiler} {set : ProjectionSet} {v : Visit} :
    ∀ {s : Scope} (items : List (ExistenceTest × Option Filter)),
      v ∈ ExistenceTest.visitsOfAll c s items →
      v.tests c set ⊆ testsOfAll s.rows (ExistenceTest.predicates c set s items)
  | _, [], hv => by simp [ExistenceTest.visitsOfAll] at hv
  | s, (t, none) :: items, hv => by
    rw [ExistenceTest.predicates, testsOfAll_append]
    exact List.subset_append_of_subset_right _ (ExistenceTest.tests_subset_predicates items hv)
  | s, (t, some f) :: items, hv => by
    rw [ExistenceTest.predicates, testsOfAll_append]
    simp only [ExistenceTest.visitsOfAll] at hv
    split at hv
    · next target h =>
      rcases List.mem_append.mp hv with hv | hv
      · refine List.subset_append_of_subset_left _ ?_
        rw [h, Option.map_some, Option.toList_some, testsOfAll_singleton,
          ExistenceTest.tests_predicate, ← Scope.rows_enter s t.relation target]
        exact Filter.tests_subset f hv
      · exact List.subset_append_of_subset_right _ (ExistenceTest.tests_subset_predicates items hv)
    · exact List.subset_append_of_subset_right _ (ExistenceTest.tests_subset_predicates items hv)

end

/-- **The tests of a filter are those of its visited entries**, and searches for identifiers that it
includes. -/
theorem Filter.mem_tests_iff {c : Compiler} {set : ProjectionSet} {s : Scope} {f : Filter}
    {t : RelationPath × Predicate} (ht : ¬IncludesKeys t) :
    t ∈ testsOfAll s.rows (f.predicate? c set s).toList ↔
      ∃ v ∈ f.visits c s, t ∈ v.tests c set := by
  constructor
  · intro h
    obtain ⟨p, hp, h⟩ := mem_testsOfAll.mp h
    rcases Filter.test_provenance (Option.mem_toList.mp hp) h with hkeys | ⟨v, hv, hq⟩
    · exact absurd hkeys ht
    · exact ⟨v, hv, Visit.mem_tests.mpr hq⟩
  · rintro ⟨v, hv, h⟩
    exact Filter.tests_subset f hv h

end EntityFilter
