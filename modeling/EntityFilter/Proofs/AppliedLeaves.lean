import EntityFilter.Proofs.KeptTests

/-!
# What the leaves of an entry are applied to

`Visit.Offers` says which values the leaves of a visited entry may be applied to.  Here each leaf is
tied to its value: `Visit.Applies` has one constructor for each way in which compilation applies a
leaf, with the path to the rows on which it tests.  An entry makes the tests of its applied leaves,
searches for free text, comparisons of fields and full-text searches, and it makes all of these
(`Visit.mem_tests_iff`).
-/

namespace EntityFilter

open Predicate

/-! ## Leaves and their values -/

/-- Whether an entry asks for planned values.  A name of a field asks for the field. -/
def FilterEntry.isPlanned (s : Scope) (key : String) : FilterEntry → Bool
  | .window _ | .subquery _ | .aggregate _ _ | .trunc _ | .extract _ => true
  | .count _ _ => !s.entity.hasField key
  | _ => false

/-- A visited entry has planned a value, with a leaf on it. -/
inductive Visit.PlansLeaf (c : Compiler) (v : Visit) : Plan → Leaf → Prop where
  | window {items : List WindowFilter} {w : WindowFilter} {plan : Plan} :
      v.entry = .window items → w ∈ items → c.planWindow? v.scope w = some plan →
      PlansLeaf c v plan w.filter
  | subquery {items : List SubqueryFilter} {q : SubqueryFilter} {plan : Plan} :
      v.entry = .subquery items → q ∈ items → c.planSubquery? v.scope q = some plan →
      PlansLeaf c v plan q.filter
  | aggregate {a : Aggregation} {condition : Option (Filter × UInt32)}
      {function : AggregateFunction} {leaf : Leaf} {plan : Plan} :
      v.entry = .aggregate a condition → (function, leaf) ∈ a.functions →
      c.planAggregate? v.scope a (condition.map Prod.snd) function = some plan →
      PlansLeaf c v plan leaf
  | trunc {t : TruncFilter} {plan : Plan} : v.entry = .trunc t →
      c.planTrunc? v.scope t = some plan → PlansLeaf c v plan t.filter
  | extract {e : ExtractFilter} {plan : Plan} : v.entry = .extract e →
      c.planExtract? v.scope e = some plan → PlansLeaf c v plan e.filter
  | count {relation : String} {leaf : Leaf} {plan : Plan} : v.entry = .count relation leaf →
      ¬v.scope.entity.hasField v.key → c.planCount? v.scope relation = some plan →
      PlansLeaf c v plan leaf

/-- **What a visited entry plans**, case by case. -/
theorem Visit.mem_planned_iff {c : Compiler} {v : Visit} {plan : Plan} {leaf : Leaf} :
    (plan, leaf) ∈ v.planned c ↔ v.PlansLeaf c plan leaf := by
  have hone : ∀ (plan? : Option Plan) (l : Leaf),
      plan?.map (fun p => (p, l)) = some (plan, leaf) ↔ plan? = some plan ∧ l = leaf := by
    intro plan? l
    cases plan? <;> simp
  constructor
  · intro h
    obtain ⟨s, key, e⟩ := v
    cases e with
    | window items =>
      obtain ⟨w, hw, hasked⟩ := List.mem_filterMap.mp h
      obtain ⟨hplan, rfl⟩ := (hone _ _).mp hasked
      exact .window rfl hw hplan
    | subquery items =>
      obtain ⟨q, hq, hasked⟩ := List.mem_filterMap.mp h
      obtain ⟨hplan, rfl⟩ := (hone _ _).mp hasked
      exact .subquery rfl hq hplan
    | aggregate a condition =>
      obtain ⟨⟨function, l⟩, hf, hasked⟩ := List.mem_filterMap.mp h
      obtain ⟨hplan, rfl⟩ := (hone _ _).mp hasked
      exact .aggregate rfl hf hplan
    | trunc t =>
      obtain ⟨hplan, rfl⟩ := (hone _ _).mp (Option.mem_toList.mp h)
      exact .trunc rfl hplan
    | extract e =>
      obtain ⟨hplan, rfl⟩ := (hone _ _).mp (Option.mem_toList.mp h)
      exact .extract rfl hplan
    | count relation l =>
      simp only [planned, FilterEntry.planned] at h
      split at h
      · simp at h
      · next hreal =>
        obtain ⟨hplan, rfl⟩ := (hone _ _).mp (Option.mem_toList.mp h)
        exact .count rfl hreal hplan
    | _ => simp [planned, FilterEntry.planned] at h
  · intro h
    unfold planned
    cases h with
    | @window _ w _ hentry hitem hplan | @subquery _ w _ hentry hitem hplan =>
      rw [hentry]
      exact List.mem_filterMap.mpr ⟨w, hitem, by rw [hplan]; rfl⟩
    | aggregate hentry hf hplan =>
      rw [hentry]
      exact List.mem_filterMap.mpr ⟨_, hf, by simp only [hplan]; rfl⟩
    | trunc hentry hplan | extract hentry hplan =>
      rw [hentry]
      exact Option.mem_toList.mpr (by rw [hplan]; rfl)
    | count hentry hreal hplan =>
      rw [hentry, FilterEntry.planned, if_neg hreal]
      exact Option.mem_toList.mpr (by rw [hplan]; rfl)

/-- A leaf of a visited entry is applied to a value of a kind, on the rows at the end of a path. -/
inductive Visit.Applies (c : Compiler) (set : ProjectionSet) (v : Visit) :
    Leaf → RelationPath → Operand → FieldKind → Prop where
  /-- The primary key. -/
  | key {leaf : Leaf} : v.entry = .id leaf →
      Applies c set v leaf v.scope.rows (.field (v.scope.fieldPath v.scope.entity.primaryKey))
        v.scope.entity.primaryKeyKind
  /-- A field of the entity. -/
  | field {name : String} {leaf : Leaf} {f : Field} : v.named? = some (name, leaf) →
      v.scope.entity.field? name = some f → (f.kind.isArray → c.settings.features.array) →
      Applies c set v leaf v.scope.rows (.field (v.scope.fieldPath name)) f.kind
  /-- The primary key of the one row that a relation leads to. -/
  | keyOfRow {name : String} {leaf : Leaf} {r : Relation} {target : Entity} :
      v.named? = some (name, leaf) → v.scope.entity.field? name = none → c.canFollow v.scope →
      c.relation? v.scope name = some (r, target) → r.isToOne →
      Applies c set v leaf v.scope.rows
        (.field (.under (v.scope.relationPath name) target.primaryKey)) target.primaryKeyKind
  /-- The primary key of a row among those that a relation leads to. -/
  | keyOfRows {name : String} {leaf : Leaf} {r : Relation} {target : Entity} :
      v.named? = some (name, leaf) → v.scope.entity.field? name = none → c.canFollow v.scope →
      c.relation? v.scope name = some (r, target) → r.isToMany →
      Applies c set v leaf (v.scope.rows ++ v.scope.relationPath name)
        (.field (.single target.primaryKey)) target.primaryKeyKind
  /-- A projection that has been collected. -/
  | projection {plan : Plan} {leaf : Leaf} {handle : ProjectionHandle} :
      (plan, leaf) ∈ v.planned c → set.lookup? plan.key = some handle →
      Applies c set v leaf v.scope.rows (.projection handle) plan.kind

/-- A test that a visited entry makes. -/
inductive Visit.Tests (c : Compiler) (set : ProjectionSet) (v : Visit) :
    RelationPath × Predicate → Prop where
  | leaf {l : Leaf} {path : RelationPath} {o : Operand} {kind : FieldKind} {q : Predicate}
      {t : RelationPath × Predicate} : v.Applies c set l path o kind →
      l.predicate? o kind c.now = some q → t ∈ q.tests path → Tests c set v t
  | quick {text : String} {f : Field} : v.entry = .quick text → (Text.trim text).isEmpty = false →
      f ∈ v.scope.entity.quickSearchFields →
      Tests c set v
        (v.scope.rows, .text (.field (v.scope.fieldPath f.name)) .contains (Text.trim text) true)
  | comparison {items : List FieldComparison} {cmp : FieldComparison} {left right : Field} :
      v.entry = .compare items → cmp ∈ items → v.scope.entity.field? cmp.left = some left →
      v.scope.entity.field? cmp.right = some right →
      left.kind.family.isComparableWith right.kind.family →
      Tests c set v (v.scope.rows, .compareOperands (.field (v.scope.fieldPath cmp.left)) cmp.op
        (.field (v.scope.fieldPath cmp.right)))
  | search {search : SearchFilter} {plan : SearchPlan} {vector : ProjectionHandle} :
      v.entry = .search search → c.planSearch? v.scope search = some plan →
      set.lookup? plan.vector = some vector →
      (∀ rank, plan.rank = some rank → (set.lookup? rank).isSome) →
      Tests c set v (v.scope.rows, .search vector search.query search.mode plan.config)
  | rank {search : SearchFilter} {plan : SearchPlan} {vector handle : ProjectionHandle}
      {rank : ProjectionKey} {least : Float} :
      v.entry = .search search → c.planSearch? v.scope search = some plan →
      set.lookup? plan.vector = some vector → plan.rank = some rank →
      search.minRank = some least → set.lookup? rank = some handle →
      Tests c set v (v.scope.rows, .compare (.projection handle) .gte (.float least))

/-! ## The tests of contributions -/

section

variable {c : Compiler} {set : ProjectionSet} {s : Scope} {v : Visit} {path : RelationPath}
  {t : RelationPath × Predicate}

lemma FilterEntry.isPlanned_of_mem_planned {e : FilterEntry} {key : String} {x : Plan × Leaf}
    (h : x ∈ e.planned c s key) : e.isPlanned s key := by
  cases e with
  | window | subquery | aggregate | trunc | extract => rfl
  | count relation leaf =>
    simp only [FilterEntry.planned] at h
    split at h
    · simp at h
    · next hreal => simpa [FilterEntry.isPlanned] using hreal
  | _ => simp [FilterEntry.planned] at h

/-- A planned entry makes the tests of its leaves on what has been collected. -/
lemma FilterEntry.testsOfAll_planned {e : FilterEntry} {key : String} (he : e.isPlanned s key) :
    testsOfAll path (e.ownPredicate? c set s key).toList =
      testsOfAll path ((e.planned c s key).filterMap fun (plan, l) => c.projected? set plan l) := by
  have hone : ∀ (plan? : Option Plan) (leaf : Leaf),
      (plan?.bind fun plan => c.projected? set plan leaf).toList =
        (plan?.map fun plan => (plan, leaf)).toList.filterMap
          fun (plan, l) => c.projected? set plan l := by
    intro plan? leaf
    cases plan? with
    | none => rfl
    | some plan => cases h : c.projected? set plan leaf <;> simp [h]
  cases e with
  | window items | subquery items | aggregate a condition =>
    simp only [FilterEntry.ownPredicate?, FilterEntry.planned, testsOfAll_and?,
      List.filterMap_filterMap]
    congr 2
    funext i
    rw [Option.bind_map]
    rfl
  | trunc t => exact congrArg (testsOfAll path) (hone _ t.filter)
  | extract e => exact congrArg (testsOfAll path) (hone _ e.filter)
  | count relation leaf =>
    have hreal : ¬s.entity.hasField key := by simpa [FilterEntry.isPlanned] using he
    simp only [FilterEntry.ownPredicate?, FilterEntry.planned, hreal]
    exact congrArg (testsOfAll path) (hone _ leaf)
  | _ => simp [FilterEntry.isPlanned] at he

/-- What a planned entry tests: the leaves of its plans, on what has been collected. -/
lemma FilterEntry.mem_tests_planned {e : FilterEntry} {key : String} (he : e.isPlanned s key) :
    t ∈ testsOfAll path (e.ownPredicate? c set s key).toList ↔
      ∃ plan l handle q, (plan, l) ∈ e.planned c s key ∧ set.lookup? plan.key = some handle ∧
        l.predicate? (.projection handle) plan.kind c.now = some q ∧ t ∈ q.tests path := by
  rw [testsOfAll_planned he, mem_testsOfAll]
  constructor
  · rintro ⟨q, hq, ht⟩
    obtain ⟨⟨plan, l⟩, hm, hq⟩ := List.mem_filterMap.mp hq
    obtain ⟨handle, hh, hq⟩ := Option.bind_eq_some_iff.mp hq
    exact ⟨plan, l, handle, q, hm, hh, hq, ht⟩
  · rintro ⟨plan, l, handle, q, hm, hh, hq, ht⟩
    have hprojected : c.projected? set plan l = some q :=
      Option.bind_eq_some_iff.mpr ⟨handle, hh, hq⟩
    exact ⟨q, List.mem_filterMap.mpr ⟨(plan, l), hm, hprojected⟩, ht⟩

lemma Visit.predicate?_of_named {name : String} {leaf : Leaf} (h : v.named? = some (name, leaf)) :
    v.predicate? c set = c.fieldPredicate? v.scope name leaf := by
  obtain ⟨s, key, e⟩ := v
  unfold Visit.named? at h
  split at h
  · next hentry =>
    obtain ⟨rfl, rfl⟩ := Prod.mk.inj (Option.some.inj h)
    obtain rfl : e = _ := hentry
    rfl
  · next hentry =>
    split at h
    · next hkey =>
      obtain ⟨rfl, rfl⟩ := Prod.mk.inj (Option.some.inj h)
      obtain rfl : e = _ := hentry
      simp only [Visit.predicate?, FilterEntry.ownPredicate?]
      exact if_pos hkey
    · simp at h
  · simp at h

/-- What an entry that names a field or a relation tests. -/
lemma Visit.tests_of_named {name : String} {leaf : Leaf} (h : v.named? = some (name, leaf))
    (ht : t ∈ testsOfAll v.scope.rows (c.fieldPredicate? v.scope name leaf).toList) :
    v.Tests c set t := by
  obtain ⟨q, hq, ht⟩ := mem_testsOfAll_toList.mp ht
  unfold Compiler.fieldPredicate? at hq
  split at hq
  · next f hf =>
    split at hq
    · simp at hq
    · next hgate =>
      exact .leaf (.field h hf fun ha => by simpa [ha] using hgate) hq ht
  · next hnone =>
    unfold Compiler.relationPredicate? at hq
    split at hq
    · next hfollow =>
      split at hq
      · next r target hr =>
        simp only at hq
        split at hq
        · next ho => exact .leaf (.keyOfRow h hnone hfollow hr ho) hq ht
        · next ho =>
          obtain ⟨row, hrow, rfl⟩ := Option.map_eq_some_iff.mp hq
          have hm : r.isToMany := by
            cases hc : r.cardinality <;> simp_all [Relation.isToOne, Relation.isToMany]
          exact .leaf (.keyOfRows h hnone hfollow hr hm) hrow ht
      · simp at hq
    · simp at hq

lemma Visit.tests_of_quick {text : String} (h : v.entry = .quick text)
    (ht : t ∈ testsOfAll v.scope.rows (Compiler.quickPredicate? v.scope text).toList) :
    v.Tests c set t := by
  unfold Compiler.quickPredicate? at ht
  simp only at ht
  split at ht
  · simp [testsOfAll] at ht
  · next htext =>
    rw [testsOfAll_or?] at ht
    obtain ⟨q, hq, ht⟩ := mem_testsOfAll.mp ht
    obtain ⟨f, hf, rfl⟩ := List.mem_map.mp hq
    obtain rfl := List.mem_singleton.mp ht
    exact .quick h (by simpa using htext) hf

lemma Visit.tests_of_compare {items : List FieldComparison} (h : v.entry = .compare items)
    (ht : t ∈ testsOfAll v.scope.rows
      (Predicate.and? (items.filterMap (Compiler.comparisonPredicate? v.scope))).toList) :
    v.Tests c set t := by
  rw [testsOfAll_and?] at ht
  obtain ⟨q, hq, ht⟩ := mem_testsOfAll.mp ht
  obtain ⟨cmp, hm, hq⟩ := List.mem_filterMap.mp hq
  unfold Compiler.comparisonPredicate? at hq
  split at hq
  · next left right hleft hright =>
    split at hq
    · next hcomparable =>
      obtain rfl := Option.some.inj hq
      obtain rfl := List.mem_singleton.mp ht
      exact .comparison h hm hleft hright hcomparable
    · simp at hq
  · simp at hq

/-- A search succeeds if its document has been collected, and so has its rank if it has one. -/
lemma Compiler.searchPredicate?_eq_some_iff {search : SearchFilter} {q : Predicate} :
    c.searchPredicate? set s search = some q ↔
      ∃ plan vector, c.planSearch? s search = some plan ∧
        set.lookup? plan.vector = some vector ∧
        (plan.rank = none ∧ q = .search vector search.query search.mode plan.config ∨
          ∃ rank least handle, plan.rank = some rank ∧ search.minRank = some least ∧
            set.lookup? rank = some handle ∧
            q = .all [.search vector search.query search.mode plan.config,
              .compare (.projection handle) .gte (.float least)]) := by
  simp only [searchPredicate?, bind, Option.bind_eq_some_iff]
  refine exists_congr fun plan => ?_
  constructor
  · rintro ⟨hplan, vector, hvector, hq⟩
    obtain ⟨-, hrank, -, -⟩ := planSearch?_eq_some hplan
    refine ⟨vector, hplan, hvector, ?_⟩
    cases hleast : search.minRank with
    | none =>
      rw [hleast, Option.map_none] at hrank
      simp only [hrank, hleast] at hq
      exact .inl ⟨hrank, (Option.some.inj hq).symm⟩
    | some least =>
      rw [hleast, Option.map_some] at hrank
      simp only [hrank, hleast] at hq
      obtain ⟨handle, hh, hq⟩ := Option.bind_eq_some_iff.mp hq
      exact .inr ⟨_, least, handle, hrank, rfl, hh, (Option.some.inj hq).symm⟩
  · rintro ⟨vector, hplan, hvector, ⟨hrank, rfl⟩ | ⟨rank, least, handle, hrank, hleast, hh, rfl⟩⟩
    · refine ⟨hplan, vector, hvector, ?_⟩
      simp only [hrank]
    · refine ⟨hplan, vector, hvector, ?_⟩
      simp only [hrank, hleast]
      exact Option.bind_eq_some_iff.mpr ⟨handle, hh, rfl⟩

lemma Visit.tests_of_search {search : SearchFilter} (h : v.entry = .search search)
    (ht : t ∈ testsOfAll v.scope.rows (c.searchPredicate? set v.scope search).toList) :
    v.Tests c set t := by
  obtain ⟨q, hq, ht⟩ := mem_testsOfAll_toList.mp ht
  obtain ⟨plan, vector, hplan, hvector,
    ⟨hrank, rfl⟩ | ⟨rank, least, handle, hrank, hleast, hh, rfl⟩⟩ :=
    Compiler.searchPredicate?_eq_some_iff.mp hq
  · obtain rfl := List.mem_singleton.mp ht
    exact .search h hplan hvector (by simp [hrank])
  · simp only [Predicate.tests, testsOfAll, List.cons_append, List.nil_append, List.mem_cons,
      List.not_mem_nil, or_false] at ht
    rcases ht with rfl | rfl
    · exact .search h hplan hvector (by simp [hrank, hh])
    · exact .rank h hplan hvector hrank hleast hh

/-! ### The tests that are made -/

/-- An entry makes no tests but those that are listed. -/
lemma Visit.tests_of_mem_tests (ht : t ∈ v.tests c set) : v.Tests c set t := by
  by_cases hplanned : v.entry.isPlanned v.scope v.key
  · obtain ⟨plan, l, handle, q, hm, hh, hq, ht⟩ := (FilterEntry.mem_tests_planned hplanned).mp ht
    exact .leaf (.projection hm hh) hq ht
  · obtain ⟨s, key, e⟩ := v
    cases e with
    | id leaf =>
      obtain ⟨q, hq, ht⟩ := mem_testsOfAll_toList.mp ht
      exact .leaf (.key rfl) hq ht
    | quick text => exact Visit.tests_of_quick rfl ht
    | search search => exact Visit.tests_of_search rfl ht
    | compare items => exact Visit.tests_of_compare rfl ht
    | field name leaf => exact Visit.tests_of_named rfl ht
    | count relation leaf =>
      have hkey : s.entity.hasField key := by simpa [FilterEntry.isPlanned] using hplanned
      have hnamed : Visit.named? ⟨s, key, .count relation leaf⟩ = some (key, leaf) := by
        simp [Visit.named?, hkey]
      refine Visit.tests_of_named hnamed ?_
      rwa [Visit.tests, Visit.predicate?_of_named hnamed] at ht
    | window | subquery | aggregate | trunc | extract => exact absurd rfl hplanned
    | all | any | negation | included | existence | related | quantified =>
      simp [Visit.tests, Visit.predicate?, FilterEntry.ownPredicate?, testsOfAll] at ht

/-- An applied leaf makes its tests. -/
lemma Visit.mem_tests_of_applies {l : Leaf} {o : Operand} {kind : FieldKind} {q : Predicate}
    (h : v.Applies c set l path o kind) (hq : l.predicate? o kind c.now = some q)
    (ht : t ∈ q.tests path) : t ∈ v.tests c set := by
  cases h with
  | key hentry =>
    refine Visit.mem_tests.mpr ⟨q, ?_, ht⟩
    rw [Visit.predicate?, hentry]
    exact hq
  | @field name _ f hnamed hf hgate =>
    refine Visit.mem_tests.mpr ⟨q, ?_, ht⟩
    have hopen : ¬(f.kind.isArray && !c.settings.features.array) := by
      intro hboth
      simp_all
    simp only [Visit.predicate?_of_named hnamed, Compiler.fieldPredicate?, hf]
    rwa [if_neg hopen]
  | keyOfRow hnamed hnone hfollow hr ho =>
    refine Visit.mem_tests.mpr ⟨q, ?_, ht⟩
    simp only [Visit.predicate?_of_named hnamed, Compiler.fieldPredicate?, hnone,
      Compiler.relationPredicate?, hfollow, hr, ho, if_true]
    exact hq
  | @keyOfRows name _ r target hnamed hnone hfollow hr hm =>
    have ho : r.isToOne = false := by
      cases hc : r.cardinality <;> simp_all [Relation.isToOne, Relation.isToMany]
    refine Visit.mem_tests.mpr ⟨.existence (v.scope.relationPath name) target.name (some q), ?_, ht⟩
    simp only [Visit.predicate?_of_named hnamed, Compiler.fieldPredicate?, hnone,
      Compiler.relationPredicate?, hfollow, hr, ho, if_true]
    simp [hq]
  | @projection plan _ handle hm hh =>
    exact (FilterEntry.mem_tests_planned (FilterEntry.isPlanned_of_mem_planned hm)).mpr
      ⟨plan, l, handle, q, hm, hh, hq, ht⟩

/-- **An entry makes the tests that are listed, and no others.** -/
theorem Visit.mem_tests_iff : t ∈ v.tests c set ↔ v.Tests c set t := by
  constructor
  · exact Visit.tests_of_mem_tests
  · intro h
    cases h with
    | leaf happlies hq ht => exact Visit.mem_tests_of_applies happlies hq ht
    | @quick text f hentry htext hf =>
      rw [Visit.tests, Visit.predicate?, hentry]
      simp only [FilterEntry.ownPredicate?, Compiler.quickPredicate?, htext, Bool.false_eq_true,
        if_false, testsOfAll_or?, mem_testsOfAll]
      exact ⟨_, List.mem_map.mpr ⟨f, hf, rfl⟩, List.mem_singleton.mpr rfl⟩
    | @comparison items cmp left right hentry hm hleft hright hcomparable =>
      rw [Visit.tests, Visit.predicate?, hentry]
      simp only [FilterEntry.ownPredicate?, testsOfAll_and?, mem_testsOfAll]
      refine ⟨.compareOperands (.field (v.scope.fieldPath cmp.left)) cmp.op
        (.field (v.scope.fieldPath cmp.right)), List.mem_filterMap.mpr ⟨cmp, hm, ?_⟩,
        List.mem_singleton.mpr rfl⟩
      simp only [Compiler.comparisonPredicate?, hleft, hright, hcomparable, if_true]
    | @search search plan vector hentry hplan hvector hrank =>
      obtain ⟨-, hplanned, -, -⟩ := Compiler.planSearch?_eq_some hplan
      rw [Visit.mem_tests, Visit.Emits, Visit.predicate?, hentry]
      cases hleast : search.minRank with
      | none =>
        rw [hleast, Option.map_none] at hplanned
        exact ⟨_, Compiler.searchPredicate?_eq_some_iff.mpr
            ⟨plan, vector, hplan, hvector, .inl ⟨hplanned, rfl⟩⟩,
          List.mem_singleton.mpr rfl⟩
      | some least =>
        rw [hleast, Option.map_some] at hplanned
        obtain ⟨handle, hh⟩ := Option.isSome_iff_exists.mp (hrank _ hplanned)
        exact ⟨_, Compiler.searchPredicate?_eq_some_iff.mpr ⟨plan, vector, hplan, hvector,
          .inr ⟨_, least, handle, hplanned, hleast, hh, rfl⟩⟩, List.mem_cons_self⟩
    | @rank search plan vector handle rank least hentry hplan hvector hrank hleast hh =>
      rw [Visit.mem_tests, Visit.Emits, Visit.predicate?, hentry]
      exact ⟨_, Compiler.searchPredicate?_eq_some_iff.mpr ⟨plan, vector, hplan, hvector,
        .inr ⟨rank, least, handle, hrank, hleast, hh, rfl⟩⟩,
        List.mem_cons_of_mem _ List.mem_cons_self⟩

end

end EntityFilter
