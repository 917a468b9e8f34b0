import EntityFilter.Compiled
import Mathlib.Logic.Relation
import Mathlib.Tactic.Common

/-!
# The walk that both phases of compilation make

Collecting projections and building the predicate walk a filter in the same way, from visit to visit
(`Filter.visits`).  The scopes are those that relations lead to, step by step
(`Filter.reaches_of_mem_visits`).

Two facts make the list of visits useful.  The first phase is a fold over it (`Filter.collect_eq_foldl`).  And
what the entries say by themselves decides what the whole predicate says: `Compiler.Carries` names
the ways in which compilation puts predicates together, and a property that all of them keep holds
of the predicate of a filter once it holds of the entries (`Filter.predicate?_of_carries`).
-/

namespace EntityFilter

/-! ## Steps from scope to scope -/

namespace Compiler

variable {c : Compiler} {s inner : Scope} {name : String} {target : Entity}

lemma canFollow_of_canNest (h : c.canNest s) : c.canFollow s := by
  simp only [canNest, canFollow, decide_eq_true_eq] at h ⊢
  omega

lemma toMany?_eq_some :
    c.toMany? s name = some target ↔
      c.canFollow s ∧ ∃ r, c.relation? s name = some (r, target) ∧ r.isToMany := by
  unfold toMany?
  by_cases hf : c.canFollow s
  · rcases hr : c.relation? s name with _ | ⟨r, t⟩
    · simp [hf]
    · by_cases hm : r.isToMany <;> simp [hf, hm]
  · simp [hf]

lemma joinedScope?_eq_some :
    c.joinedScope? s name = some inner ↔
      c.canNest s ∧ ∃ r target, c.relation? s name = some (r, target) ∧ r.isToOne ∧
        inner = s.join name target := by
  unfold joinedScope?
  by_cases hn : c.canNest s
  · rcases hr : c.relation? s name with _ | ⟨r, t⟩
    · simp [hn]
    · by_cases ho : r.isToOne
      · constructor
        · intro h
          exact ⟨hn, r, t, rfl, ho, by simpa [hn, ho] using h.symm⟩
        · rintro ⟨-, r', t', heq, -, rfl⟩
          cases heq
          simp [hn, ho]
      · simp [hn, ho]
  · simp [hn]

lemma rowsScope?_eq_some :
    c.rowsScope? s name = some inner ↔
      c.canNest s ∧ ∃ r target, c.relation? s name = some (r, target) ∧ r.isToMany ∧
        inner = s.enter name target := by
  unfold rowsScope?
  by_cases hn : c.canNest s
  · rcases hr : c.relation? s name with _ | ⟨r, t⟩
    · simp [hn]
    · by_cases hm : r.isToMany
      · constructor
        · intro h
          exact ⟨hn, r, t, rfl, hm, by simpa [hn, hm] using h.symm⟩
        · rintro ⟨-, r', t', heq, -, rfl⟩
          cases heq
          simp [hn, hm]
      · simp [hn, hm]
  · simp [hn]

lemma existenceTarget?_eq_some {conditional : Bool} :
    c.existenceTarget? s name conditional = some target ↔
      c.settings.features.existence ∧ c.canFollow s ∧ (conditional → c.canNest s) ∧
        ∃ r, c.relation? s name = some (r, target) := by
  unfold existenceTarget?
  rcases hr : c.relation? s name with _ | ⟨r, t⟩
  · simp
  · by_cases he : c.settings.features.existence <;> by_cases hf : c.canFollow s <;>
      by_cases hn : c.canNest s <;> cases conditional <;> simp [he, hf, hn]

/-- One step of the walk into a relation: the row of a relation to one row is joined, and the rows
of any relation are entered. -/
inductive Steps (c : Compiler) : Scope → Scope → Prop where
  | join {s : Scope} {name : String} {r : Relation} {target : Entity} :
      c.canNest s → c.relation? s name = some (r, target) → r.isToOne →
      Steps c s (s.join name target)
  | enter {s : Scope} {name : String} {r : Relation} {target : Entity} :
      c.canNest s → c.relation? s name = some (r, target) →
      Steps c s (s.enter name target)

lemma steps_of_joinedScope? (h : c.joinedScope? s name = some inner) : c.Steps s inner := by
  obtain ⟨hn, r, target, hr, ho, rfl⟩ := joinedScope?_eq_some.mp h
  exact .join hn hr ho

lemma steps_of_rowsScope? (h : c.rowsScope? s name = some inner) : c.Steps s inner := by
  obtain ⟨hn, r, target, hr, -, rfl⟩ := rowsScope?_eq_some.mp h
  exact .enter hn hr

lemma steps_of_existenceTarget? (h : c.existenceTarget? s name true = some target) :
    c.Steps s (s.enter name target) := by
  obtain ⟨-, -, hn, r, hr⟩ := existenceTarget?_eq_some.mp h
  exact .enter (hn rfl) hr

end Compiler

/-! ## Where visits take place -/

/-- A scope that the walk goes to from a visited entry. -/
inductive Visit.Opens (c : Compiler) (v : Visit) : Scope → Prop where
  | join {relation : String} {f : Filter} {inner : Scope} : v.entry = .related relation f →
      c.joinedScope? v.scope relation = some inner → Opens c v inner
  | rows {relation : String} {quantifier : Quantifier} {f : Filter} {inner : Scope} :
      v.entry = .quantified relation quantifier f →
      c.rowsScope? v.scope relation = some inner → Opens c v inner
  | test {items : List (ExistenceTest × Option Filter)} {t : ExistenceTest} {f : Filter}
      {target : Entity} : v.entry = .existence items → (t, some f) ∈ items →
      c.existenceTarget? v.scope t.relation true = some target →
      Opens c v (v.scope.enter t.relation target)

lemma Visit.steps_of_opens {c : Compiler} {v : Visit} {inner : Scope} (h : v.Opens c inner) :
    c.Steps v.scope inner := by
  cases h with
  | join _ h => exact Compiler.steps_of_joinedScope? h
  | rows _ h => exact Compiler.steps_of_rowsScope? h
  | test _ _ h => exact Compiler.steps_of_existenceTarget? h

mutual

/-- **The walk keeps what every step keeps**: a property of scopes that holds where the walk begins,
and that visited entries hand on to the scopes they open, holds of the scope of every visit. -/
theorem Filter.scope_of_mem_visits {c : Compiler} {P : Scope → Prop} :
    ∀ {s : Scope} (f : Filter), P s →
      (∀ v ∈ f.visits c s, P v.scope → ∀ inner, v.Opens c inner → P inner) →
      ∀ v ∈ f.visits c s, P v.scope
  | _, .node es, hs, hstep => FilterEntry.scope_of_mem_visitsOfAll es hs hstep

theorem FilterEntry.scope_of_mem_visitsOfAll {c : Compiler} {P : Scope → Prop} :
    ∀ {s : Scope} (es : List (String × FilterEntry)), P s →
      (∀ v ∈ FilterEntry.visitsOfAll c s es, P v.scope → ∀ inner, v.Opens c inner → P inner) →
      ∀ v ∈ FilterEntry.visitsOfAll c s es, P v.scope
  | _, [], _, _, _, hv => by simp [FilterEntry.visitsOfAll] at hv
  | s, (key, e) :: es, hs, hstep, v, hv => by
    simp only [FilterEntry.visitsOfAll, List.mem_cons, List.mem_append] at hv hstep
    rcases hv with rfl | hv | hv
    · exact hs
    · exact FilterEntry.scope_of_mem_visitsBelow e hs (hstep ⟨s, key, e⟩ (.inl rfl) hs)
        (fun w hw => hstep w (.inr (.inl hw))) v hv
    · exact FilterEntry.scope_of_mem_visitsOfAll es hs (fun w hw => hstep w (.inr (.inr hw))) v hv

theorem FilterEntry.scope_of_mem_visitsBelow {c : Compiler} {P : Scope → Prop} {s : Scope}
    {key : String} :
    ∀ e : FilterEntry, P s → (∀ inner, Visit.Opens c ⟨s, key, e⟩ inner → P inner) →
      (∀ v ∈ e.visitsBelow c s, P v.scope → ∀ inner, v.Opens c inner → P inner) →
      ∀ v ∈ e.visitsBelow c s, P v.scope
  | .all fs, hs, _, hstep => Filter.scope_of_mem_visitsOfAll fs hs hstep
  | .any fs, hs, _, hstep => Filter.scope_of_mem_visitsOfAll fs hs hstep
  | .negation f, hs, _, hstep => Filter.scope_of_mem_visits f hs hstep
  | .related relation f, _, hown, hstep => by
    simp only [FilterEntry.visitsBelow] at hstep ⊢
    split
    · next inner h =>
      simp only [h] at hstep
      exact Filter.scope_of_mem_visits f (hown inner (.join rfl h)) hstep
    · simp
  | .quantified relation _ f, _, hown, hstep => by
    simp only [FilterEntry.visitsBelow] at hstep ⊢
    split
    · next inner h =>
      simp only [h] at hstep
      exact Filter.scope_of_mem_visits f (hown inner (.rows rfl h)) hstep
    · simp
  | .existence items, _, hown, hstep =>
    ExistenceTest.scope_of_mem_visitsOfAll items (fun t f hm _ h => hown _ (.test rfl hm h)) hstep
  | .id _, _, _, _ | .quick _, _, _, _ | .included _, _, _, _ | .search _, _, _, _
  | .window _, _, _, _ | .subquery _, _, _, _ | .compare _, _, _, _ | .aggregate _ _, _, _, _
  | .trunc _, _, _, _ | .extract _, _, _, _ | .count _ _, _, _, _ | .field _ _, _, _, _ => by
    simp [FilterEntry.visitsBelow]

theorem Filter.scope_of_mem_visitsOfAll {c : Compiler} {P : Scope → Prop} :
    ∀ {s : Scope} (fs : List Filter), P s →
      (∀ v ∈ Filter.visitsOfAll c s fs, P v.scope → ∀ inner, v.Opens c inner → P inner) →
      ∀ v ∈ Filter.visitsOfAll c s fs, P v.scope
  | _, [], _, _, _, hv => by simp [Filter.visitsOfAll] at hv
  | _, f :: fs, hs, hstep, v, hv => by
    simp only [Filter.visitsOfAll, List.mem_append] at hv hstep
    rcases hv with hv | hv
    · exact Filter.scope_of_mem_visits f hs (fun w hw => hstep w (.inl hw)) v hv
    · exact Filter.scope_of_mem_visitsOfAll fs hs (fun w hw => hstep w (.inr hw)) v hv

theorem ExistenceTest.scope_of_mem_visitsOfAll {c : Compiler} {P : Scope → Prop} {s : Scope} :
    ∀ items : List (ExistenceTest × Option Filter),
      (∀ t f, (t, some f) ∈ items → ∀ target,
        c.existenceTarget? s t.relation true = some target → P (s.enter t.relation target)) →
      (∀ v ∈ ExistenceTest.visitsOfAll c s items, P v.scope → ∀ inner, v.Opens c inner → P inner) →
      ∀ v ∈ ExistenceTest.visitsOfAll c s items, P v.scope
  | [], _, _, _, hv => by simp [ExistenceTest.visitsOfAll] at hv
  | (_, none) :: items, hown, hstep, v, hv =>
    ExistenceTest.scope_of_mem_visitsOfAll items
      (fun t f hm => hown t f (List.mem_cons_of_mem _ hm)) hstep v hv
  | (t, some f) :: items, hown, hstep, v, hv => by
    have hrest := fun t f hm => hown t f (List.mem_cons_of_mem _ hm)
    simp only [ExistenceTest.visitsOfAll] at hv hstep
    split at hv
    · next target h =>
      simp only [h, List.mem_append] at hv hstep
      rcases hv with hv | hv
      · exact Filter.scope_of_mem_visits f (hown t f List.mem_cons_self target h)
          (fun w hw => hstep w (.inl hw)) v hv
      · exact ExistenceTest.scope_of_mem_visitsOfAll items hrest
          (fun w hw => hstep w (.inr hw)) v hv
    · next h =>
      simp only [h] at hstep
      exact ExistenceTest.scope_of_mem_visitsOfAll items hrest hstep v hv

end

/-- The walk reaches every scope step by step. -/
theorem Filter.reaches_of_mem_visits {c : Compiler} {s : Scope} {f : Filter} {v : Visit}
    (hv : v ∈ f.visits c s) : Relation.ReflTransGen c.Steps s v.scope :=
  f.scope_of_mem_visits .refl (fun _ _ hs _ ho => hs.tail (Visit.steps_of_opens ho)) v hv

/-! ### Which entries are visited -/

mutual

/-- Only entries of the filter are visited. -/
theorem Filter.mem_allEntries_of_mem_visits {c : Compiler} {v : Visit} :
    ∀ {s : Scope} (f : Filter), v ∈ f.visits c s → v.entry ∈ f.allEntries
  | _, .node es, hv => FilterEntry.mem_allOfEntries_of_mem_visitsOfAll es hv

theorem FilterEntry.mem_allOfEntries_of_mem_visitsOfAll {c : Compiler} {v : Visit} :
    ∀ {s : Scope} (es : List (String × FilterEntry)), v ∈ FilterEntry.visitsOfAll c s es →
      v.entry ∈ FilterEntry.allOfEntries es
  | _, [], hv => by simp [FilterEntry.visitsOfAll] at hv
  | s, (key, e) :: es, hv => by
    simp only [FilterEntry.visitsOfAll, List.mem_cons, List.mem_append] at hv
    simp only [FilterEntry.allOfEntries, List.cons_append, List.mem_cons, List.mem_append]
    rcases hv with rfl | hv | hv
    · exact .inl rfl
    · exact .inr (.inl (FilterEntry.mem_nested_of_mem_visitsBelow e hv))
    · exact .inr (.inr (FilterEntry.mem_allOfEntries_of_mem_visitsOfAll es hv))

theorem FilterEntry.mem_nested_of_mem_visitsBelow {c : Compiler} {v : Visit} :
    ∀ {s : Scope} (e : FilterEntry), v ∈ e.visitsBelow c s → v.entry ∈ e.nested
  | _, .all fs, hv => Filter.mem_allOfFilters_of_mem_visitsOfAll fs hv
  | _, .any fs, hv => Filter.mem_allOfFilters_of_mem_visitsOfAll fs hv
  | _, .negation f, hv => Filter.mem_allEntries_of_mem_visits f hv
  | s, .related relation f, hv => by
    simp only [FilterEntry.visitsBelow] at hv
    split at hv
    · exact Filter.mem_allEntries_of_mem_visits f hv
    · simp at hv
  | s, .quantified relation _ f, hv => by
    simp only [FilterEntry.visitsBelow] at hv
    split at hv
    · exact Filter.mem_allEntries_of_mem_visits f hv
    · simp at hv
  | _, .existence items, hv => ExistenceTest.mem_allOfTests_of_mem_visitsOfAll items hv
  | _, .id _, hv | _, .quick _, hv | _, .included _, hv | _, .search _, hv | _, .window _, hv
  | _, .subquery _, hv | _, .compare _, hv | _, .aggregate _ _, hv | _, .trunc _, hv
  | _, .extract _, hv | _, .count _ _, hv | _, .field _ _, hv => by
    simp [FilterEntry.visitsBelow] at hv

theorem Filter.mem_allOfFilters_of_mem_visitsOfAll {c : Compiler} {v : Visit} :
    ∀ {s : Scope} (fs : List Filter), v ∈ Filter.visitsOfAll c s fs →
      v.entry ∈ FilterEntry.allOfFilters fs
  | _, [], hv => by simp [Filter.visitsOfAll] at hv
  | _, f :: fs, hv => by
    simp only [Filter.visitsOfAll, List.mem_append] at hv
    simp only [FilterEntry.allOfFilters, List.mem_append]
    rcases hv with hv | hv
    · exact .inl (Filter.mem_allEntries_of_mem_visits f hv)
    · exact .inr (Filter.mem_allOfFilters_of_mem_visitsOfAll fs hv)

theorem ExistenceTest.mem_allOfTests_of_mem_visitsOfAll {c : Compiler} {v : Visit} :
    ∀ {s : Scope} (items : List (ExistenceTest × Option Filter)),
      v ∈ ExistenceTest.visitsOfAll c s items → v.entry ∈ FilterEntry.allOfTests items
  | _, [], hv => by simp [ExistenceTest.visitsOfAll] at hv
  | _, (_, none) :: items, hv => ExistenceTest.mem_allOfTests_of_mem_visitsOfAll items hv
  | s, (t, some f) :: items, hv => by
    simp only [FilterEntry.allOfTests, List.mem_append]
    simp only [ExistenceTest.visitsOfAll] at hv
    split at hv
    · rcases List.mem_append.mp hv with hv | hv
      · exact .inl (Filter.mem_allEntries_of_mem_visits f hv)
      · exact .inr (ExistenceTest.mem_allOfTests_of_mem_visitsOfAll items hv)
    · exact .inr (ExistenceTest.mem_allOfTests_of_mem_visitsOfAll items hv)

end

/-! ## The first phase is a fold over the visits -/

/-- Add the projections that a visited entry asks for itself. -/
def Visit.collect (c : Compiler) (set : ProjectionSet) (v : Visit) : ProjectionSet :=
  c.collectOwn v.scope v.key v.entry set

mutual

/-- **Collecting goes from visit to visit.** -/
theorem Filter.collect_eq_foldl (c : Compiler) :
    ∀ (s : Scope) (set : ProjectionSet) (f : Filter),
      f.collect c s set = (f.visits c s).foldl (Visit.collect c) set
  | s, set, .node es => by
    simp only [Filter.collect, Filter.visits]
    exact FilterEntry.collectAll_eq_foldl c s set es

theorem FilterEntry.collectAll_eq_foldl (c : Compiler) :
    ∀ (s : Scope) (set : ProjectionSet) (es : List (String × FilterEntry)),
      FilterEntry.collectAll c s set es =
        (FilterEntry.visitsOfAll c s es).foldl (Visit.collect c) set
  | _, _, [] => rfl
  | s, set, (key, e) :: es => by
    rw [FilterEntry.collectAll, FilterEntry.collectAll_eq_foldl c s _ es,
      FilterEntry.collect_eq_foldl c s set key e]
    simp only [FilterEntry.visitsOfAll, List.foldl_cons, List.foldl_append]

theorem FilterEntry.collect_eq_foldl (c : Compiler) :
    ∀ (s : Scope) (set : ProjectionSet) (key : String) (e : FilterEntry),
      e.collect c s key set =
        (e.visitsBelow c s).foldl (Visit.collect c) (Visit.collect c set ⟨s, key, e⟩)
  | s, set, _, .all fs => Filter.collectAll_eq_foldl c s set fs
  | s, set, _, .any fs => Filter.collectAll_eq_foldl c s set fs
  | s, set, _, .negation f => Filter.collect_eq_foldl c s set f
  | s, set, _, .related relation f => by
    simp only [FilterEntry.collect, FilterEntry.visitsBelow]
    cases c.joinedScope? s relation with
    | none => rfl
    | some inner => exact Filter.collect_eq_foldl c inner set f
  | s, set, _, .quantified relation _ f => by
    simp only [FilterEntry.collect, FilterEntry.visitsBelow]
    cases c.rowsScope? s relation with
    | none => rfl
    | some inner => exact Filter.collect_eq_foldl c inner set f
  | s, set, _, .existence items => ExistenceTest.collectAll_eq_foldl c s set items
  | _, _, _, .id _ | _, _, _, .quick _ | _, _, _, .included _ | _, _, _, .search _
  | _, _, _, .window _ | _, _, _, .subquery _ | _, _, _, .compare _ | _, _, _, .aggregate _ _
  | _, _, _, .trunc _ | _, _, _, .extract _ | _, _, _, .count _ _ | _, _, _, .field _ _ => rfl

theorem Filter.collectAll_eq_foldl (c : Compiler) :
    ∀ (s : Scope) (set : ProjectionSet) (fs : List Filter),
      Filter.collectAll c s set fs = (Filter.visitsOfAll c s fs).foldl (Visit.collect c) set
  | _, _, [] => rfl
  | s, set, f :: fs => by
    rw [Filter.collectAll, Filter.collectAll_eq_foldl c s _ fs, Filter.collect_eq_foldl c s set f]
    simp only [Filter.visitsOfAll, List.foldl_append]

theorem ExistenceTest.collectAll_eq_foldl (c : Compiler) :
    ∀ (s : Scope) (set : ProjectionSet) (items : List (ExistenceTest × Option Filter)),
      ExistenceTest.collectAll c s set items =
        (ExistenceTest.visitsOfAll c s items).foldl (Visit.collect c) set
  | _, _, [] => rfl
  | s, set, (_, none) :: items => ExistenceTest.collectAll_eq_foldl c s set items
  | s, set, (t, some f) :: items => by
    simp only [ExistenceTest.collectAll, ExistenceTest.visitsOfAll]
    cases c.existenceTarget? s t.relation true with
    | none => exact ExistenceTest.collectAll_eq_foldl c s set items
    | some target =>
      simp only [List.foldl_append]
      rw [ExistenceTest.collectAll_eq_foldl c s _ items,
        Filter.collect_eq_foldl c (s.enter t.relation target) set f]

end

/-! ## What the second phase keeps -/

/-- The predicate of an entry that holds no filters; nothing for the others. -/
def FilterEntry.ownPredicate? (c : Compiler) (set : ProjectionSet) (s : Scope) (key : String) :
    FilterEntry → Option Predicate
  | .id leaf => c.idPredicate? s leaf
  | .quick text => Compiler.quickPredicate? s text
  | .search request => c.searchPredicate? set s request
  | .window items => Predicate.and? (items.filterMap fun w =>
      (c.planWindow? s w).bind fun p => c.projected? set p w.filter)
  | .subquery items => Predicate.and? (items.filterMap fun q =>
      (c.planSubquery? s q).bind fun p => c.projected? set p q.filter)
  | .compare items => Predicate.and? (items.filterMap (Compiler.comparisonPredicate? s))
  | .aggregate a condition => Predicate.and? (a.functions.filterMap fun (function, leaf) =>
      (c.planAggregate? s a (condition.map Prod.snd) function).bind fun p => c.projected? set p leaf)
  | .trunc t => (c.planTrunc? s t).bind fun p => c.projected? set p t.filter
  | .extract e => (c.planExtract? s e).bind fun p => c.projected? set p e.filter
  | .count relation leaf =>
    if s.entity.hasField key then c.fieldPredicate? s key leaf
    else (c.planCount? s relation).bind fun p => c.projected? set p leaf
  | .field name leaf => c.fieldPredicate? s name leaf
  | .all _ | .any _ | .negation _ | .included _ | .existence _ | .related _ _
  | .quantified _ _ _ => none

/-- The predicate of a visited entry by itself. -/
def Visit.predicate? (c : Compiler) (set : ProjectionSet) (v : Visit) : Option Predicate :=
  v.entry.ownPredicate? c set v.scope v.key

/-- The names of the relations that a visited entry follows by itself.  A name of a field is not
taken for one of a relation. -/
def Visit.relations (v : Visit) : List String :=
  match v.entry with
  | .related relation _ | .quantified relation _ _ => [relation]
  | .existence items => items.map fun item => item.1.relation
  | .aggregate a _ => [a.relation]
  | .subquery items => items.map SubqueryFilter.relation
  | .count relation _ => if v.scope.entity.hasField v.key then [] else [relation]
  | .field name _ => if v.scope.entity.hasField name then [] else [name]
  | _ => []

/-- A property of predicates in their scopes that is kept by every way in which compilation puts
predicates together, as long as the relations that it follows are admitted. -/
structure Compiler.Carries (c : Compiler) (Q : Scope → Predicate → Prop)
    (Admits : Scope → String → Prop := fun _ _ => True) : Prop where
  and? : ∀ {s ps p}, (∀ q ∈ ps, Q s q) → Predicate.and? ps = some p → Q s p
  or? : ∀ {s ps p}, (∀ q ∈ ps, Q s q) → Predicate.or? ps = some p → Q s p
  not : ∀ {s p}, Q s p → Q s p.not
  included : ∀ s values, Q s (.member (.field (s.fieldPath s.entity.primaryKey)) values false)
  join : ∀ {s name r target p}, Admits s name → c.canNest s →
    c.relation? s name = some (r, target) → r.isToOne → Q (s.join name target) p → Q s p
  someRow : ∀ {s name r target}, Admits s name → c.canFollow s →
    c.relation? s name = some (r, target) →
    Q s (.existence (s.relationPath name) target.name none)
  someRowWith : ∀ {s name r target p}, Admits s name → c.canNest s →
    c.relation? s name = some (r, target) → Q (s.enter name target) p →
    Q s (.existence (s.relationPath name) target.name (some p))

/-- The relations that a visited entry follows are admitted, and its predicate has the property. -/
structure Visit.Carries (c : Compiler) (set : ProjectionSet) (Q : Scope → Predicate → Prop)
    (Admits : Scope → String → Prop) (v : Visit) : Prop where
  admits : ∀ name ∈ v.relations, Admits v.scope name
  predicate : ∀ p, v.predicate? c set = some p → Q v.scope p

namespace Compiler.Carries

variable {c : Compiler} {Q : Scope → Predicate → Prop} {Admits : Scope → String → Prop}
  {s : Scope} {name : String} {r : Relation} {target : Entity} {p : Option Predicate}

/-- Rows behind a relation, with or without a predicate on them. -/
lemma existence (hQ : c.Carries Q Admits) (hname : Admits s name) (hn : c.canNest s)
    (hr : c.relation? s name = some (r, target))
    (hp : ∀ q, p = some q → Q (s.enter name target) q) :
    Q s (.existence (s.relationPath name) target.name p) := by
  cases p with
  | none => exact hQ.someRow hname (canFollow_of_canNest hn) hr
  | some q => exact hQ.someRowWith hname hn hr (hp q rfl)

lemma quantified (hQ : c.Carries Q Admits) (hname : Admits s name) (hn : c.canNest s)
    (hr : c.relation? s name = some (r, target))
    (hp : ∀ q, p = some q → Q (s.enter name target) q) (quantifier : Quantifier) :
    Q s (quantifier.predicate (s.relationPath name) target.name p) := by
  cases quantifier with
  | some => exact hQ.existence hname hn hr hp
  | none => exact hQ.not (hQ.existence hname hn hr hp)
  | every =>
    have hsome := hQ.someRow hname (canFollow_of_canNest hn) hr
    cases p with
    | none => exact hsome
    | some p =>
      -- the rows are there, and none of them fails the predicate
      have hfails := hQ.not (hQ.someRowWith hname hn hr (hQ.not (hp p rfl)))
      have hboth : ∀ q ∈ [Predicate.existence (s.relationPath name) target.name none,
          (Predicate.existence (s.relationPath name) target.name (some p.not)).not], Q s q := by
        intro q hq
        simp only [List.mem_cons, List.not_mem_nil, or_false] at hq
        rcases hq with rfl | rfl
        · exact hsome
        · exact hfails
      exact hQ.and? hboth rfl

lemma expected (hQ : c.Carries Q Admits) (t : ExistenceTest) {path : RelationPath} {entity : String}
    (h : Q s (.existence path entity p)) : Q s (t.predicate path entity p) := by
  unfold ExistenceTest.predicate
  cases t.expected
  · exact hQ.not h
  · exact h

lemma widen (hQ : c.Carries Q Admits) {values : List Literal} {q : Predicate}
    (hp : ∀ q, p = some q → Q s q) (h : s.widen? values p = some q) : Q s q := by
  cases p with
  | none => simp [Scope.widen?] at h
  | some p =>
    by_cases hv : values.isEmpty
    · simp only [Scope.widen?, hv, if_true, Option.some.injEq] at h
      exact hp q (by rw [h])
    · simp only [Scope.widen?, hv] at h
      exact hQ.or? (by simpa using ⟨hp p rfl, hQ.included s values⟩) h

end Compiler.Carries

mutual

/-- **What is carried holds of the predicate of a filter** once it holds of the predicates of the
visited entries. -/
theorem Filter.predicate?_of_carries {c : Compiler} {set : ProjectionSet}
    {Q : Scope → Predicate → Prop} {Admits : Scope → String → Prop} (hQ : c.Carries Q Admits) :
    ∀ {s : Scope} (f : Filter),
      (∀ v ∈ f.visits c s, v.Carries c set Q Admits) →
      ∀ p, f.predicate? c set s = some p → Q s p
  | s, .node es, hv, p, hp => by
    rw [Filter.predicate?] at hp
    refine hQ.widen (fun q hq => ?_) hp
    exact hQ.and? (FilterEntry.predicates_of_carries hQ es hv) hq

theorem FilterEntry.predicates_of_carries {c : Compiler} {set : ProjectionSet}
    {Q : Scope → Predicate → Prop} {Admits : Scope → String → Prop} (hQ : c.Carries Q Admits) :
    ∀ {s : Scope} (es : List (String × FilterEntry)),
      (∀ v ∈ FilterEntry.visitsOfAll c s es, v.Carries c set Q Admits) →
      ∀ p ∈ FilterEntry.predicates c set s es, Q s p
  | _, [], _, p, hp => by simp [FilterEntry.predicates] at hp
  | s, (key, e) :: es, hv, p, hp => by
    simp only [FilterEntry.visitsOfAll, List.mem_cons, List.mem_append] at hv
    simp only [FilterEntry.predicates, List.mem_append, Option.mem_toList] at hp
    rcases hp with hp | hp
    · exact FilterEntry.predicate?_of_carries hQ e (hv ⟨s, key, e⟩ (.inl rfl))
        (fun v hm => hv v (.inr (.inl hm))) p hp
    · exact FilterEntry.predicates_of_carries hQ es (fun v hm => hv v (.inr (.inr hm))) p hp

theorem FilterEntry.predicate?_of_carries {c : Compiler} {set : ProjectionSet}
    {Q : Scope → Predicate → Prop} {Admits : Scope → String → Prop} (hQ : c.Carries Q Admits)
    {s : Scope} {key : String} :
    ∀ e : FilterEntry,
      Visit.Carries c set Q Admits ⟨s, key, e⟩ →
      (∀ v ∈ e.visitsBelow c s, v.Carries c set Q Admits) →
      ∀ p, e.predicate? c set s key = some p → Q s p
  | .all fs => by
    intro _ hv p hp
    exact hQ.and? (Filter.predicates_of_carries hQ fs hv) hp
  | .any fs => by
    intro _ hv p hp
    exact hQ.or? (Filter.predicates_of_carries hQ fs hv) hp
  | .negation f => by
    intro _ hv p hp
    simp only [FilterEntry.predicate?] at hp
    obtain ⟨q, hq, rfl⟩ := Option.map_eq_some_iff.mp hp
    exact hQ.not (Filter.predicate?_of_carries hQ f hv q hq)
  | .included _ => by
    intro _ _ p hp
    simp [FilterEntry.predicate?] at hp
  | .related relation f => by
    intro ho hv p hp
    simp only [FilterEntry.predicate?] at hp
    simp only [FilterEntry.visitsBelow] at hv
    split at hp
    · next inner h =>
      simp only [h] at hv
      obtain ⟨hn, r, target, hr, hone, rfl⟩ := Compiler.joinedScope?_eq_some.mp h
      exact hQ.join (ho.admits _ List.mem_cons_self) hn hr hone (Filter.predicate?_of_carries hQ f hv p hp)
    · simp at hp
  | .quantified relation quantifier f => by
    intro ho hv p hp
    simp only [FilterEntry.predicate?] at hp
    simp only [FilterEntry.visitsBelow] at hv
    split at hp
    · next inner h =>
      simp only [h] at hv
      obtain ⟨hn, r, target, hr, -, rfl⟩ := Compiler.rowsScope?_eq_some.mp h
      obtain rfl := Option.some.inj hp
      exact hQ.quantified (ho.admits _ List.mem_cons_self) hn hr
        (Filter.predicate?_of_carries hQ f hv) quantifier
    · simp at hp
  | .existence items => by
    intro ho hv p hp
    have hitems : ∀ item ∈ items, Admits s item.1.relation := fun item hi =>
      ho.admits _ (List.mem_map.mpr ⟨item, hi, rfl⟩)
    exact hQ.and? (ExistenceTest.predicates_of_carries hQ items hitems hv) hp
  | .id _ | .quick _ | .search _ | .window _ | .subquery _ | .compare _ | .aggregate _ _
  | .trunc _ | .extract _ | .count _ _ | .field _ _ => by
    intro ho _ p hp
    exact ho.predicate p hp

theorem Filter.predicates_of_carries {c : Compiler} {set : ProjectionSet}
    {Q : Scope → Predicate → Prop} {Admits : Scope → String → Prop} (hQ : c.Carries Q Admits) :
    ∀ {s : Scope} (fs : List Filter),
      (∀ v ∈ Filter.visitsOfAll c s fs, v.Carries c set Q Admits) →
      ∀ p ∈ Filter.predicates c set s fs, Q s p
  | _, [], _, p, hp => by simp [Filter.predicates] at hp
  | s, f :: fs, hv, p, hp => by
    simp only [Filter.visitsOfAll, List.mem_append] at hv
    simp only [Filter.predicates, List.mem_append, Option.mem_toList] at hp
    rcases hp with hp | hp
    · exact Filter.predicate?_of_carries hQ f (fun v hm => hv v (.inl hm)) p hp
    · exact Filter.predicates_of_carries hQ fs (fun v hm => hv v (.inr hm)) p hp

theorem ExistenceTest.predicates_of_carries {c : Compiler} {set : ProjectionSet}
    {Q : Scope → Predicate → Prop} {Admits : Scope → String → Prop} (hQ : c.Carries Q Admits) :
    ∀ {s : Scope} (items : List (ExistenceTest × Option Filter)),
      (∀ item ∈ items, Admits s item.1.relation) →
      (∀ v ∈ ExistenceTest.visitsOfAll c s items, v.Carries c set Q Admits) →
      ∀ p ∈ ExistenceTest.predicates c set s items, Q s p
  | _, [], _, _, p, hp => by simp [ExistenceTest.predicates] at hp
  | s, (t, none) :: items, hi, hv, p, hp => by
    obtain ⟨hname, hi⟩ := List.forall_mem_cons.mp hi
    simp only [ExistenceTest.predicates, List.mem_append, Option.mem_toList,
      Option.map_eq_some_iff] at hp
    rcases hp with ⟨target, h, rfl⟩ | hp
    · obtain ⟨-, hf, -, r, hr⟩ := Compiler.existenceTarget?_eq_some.mp h
      exact hQ.expected t (hQ.someRow hname hf hr)
    · exact ExistenceTest.predicates_of_carries hQ items hi hv p hp
  | s, (t, some f) :: items, hi, hv, p, hp => by
    obtain ⟨hname, hi⟩ := List.forall_mem_cons.mp hi
    simp only [ExistenceTest.predicates, List.mem_append, Option.mem_toList,
      Option.map_eq_some_iff] at hp
    simp only [ExistenceTest.visitsOfAll] at hv
    rcases hp with ⟨target, h, rfl⟩ | hp
    · simp only [h, List.mem_append] at hv
      obtain ⟨-, -, hn, r, hr⟩ := Compiler.existenceTarget?_eq_some.mp h
      exact hQ.expected t (hQ.existence hname (hn rfl) hr
        (Filter.predicate?_of_carries hQ f fun v hm => hv v (.inl hm)))
    · refine ExistenceTest.predicates_of_carries hQ items hi (fun v hm => ?_) p hp
      split at hv
      · exact hv v (List.mem_append_right _ hm)
      · exact hv v hm

end

/-! ## A shop

Products of brands, both with reviews: the smallest catalog in which a row is reached through a
relation to one row, through a relation to many, and through both. -/

namespace Shop

def review : Entity :=
  Entity.withField (Entity.withField { name := "Review" } { name := "id", kind := .id })
    { name := "text", kind := .text }

def brand : Entity :=
  ((Entity.withField { name := "Brand" } { name := "id", kind := .id }).withField
    { name := "name", kind := .text }).withRelation
      { name := "reviews", cardinality := .many, target := "Review" }

def product : Entity :=
  (((Entity.withField { name := "Product" } { name := "id", kind := .id }).withField
    { name := "name", kind := .text }).withRelation
      { name := "brand", cardinality := .one, target := "Brand" }).withRelation
        { name := "reviews", cardinality := .many, target := "Review" }

/-- Compilation against the shop, every feature switched on. -/
def compiler : Compiler :=
  { catalog := ((Catalog.withEntity {} product).withEntity brand).withEntity review
    settings := { features := .all }
    now := ⟨0, 0⟩ }

/-- A leaf of one operator. -/
def leaf (operator : String) (operand : Literal) : Leaf := ⟨.ofList [(operator, operand)]⟩

end Shop

end EntityFilter
