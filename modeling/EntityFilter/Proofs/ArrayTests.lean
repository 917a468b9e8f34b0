import EntityFilter.Proofs.AppliedLeaves
import EntityFilter.Proofs.LeafReads

/-!
# Tests of arrays, and what is collected for a feature

With the operators of arrays switched off, a leaf on a field that holds arrays says nothing.  The
switch is looked at where a leaf is applied to a field of the entity, and nowhere else.  But a leaf
can also get to an array when the primary key of an entity is one, when it is applied to the
identifiers of a relation to such an entity, and when the greatest or least of several arrays, or
an array that is looked up, has been collected (`Visit.Bypasses`).

`Compiler.hasArrayTests_iff_bypasses` says that these ways around the switch are all there are, and
that each of them leads to a test of an array in the compiled filter; everything else that is
switched off leaves no projection behind.
-/

namespace EntityFilter

open Predicate

/-! ## Tests of arrays -/

/-- Whether an operand is the number of elements of an array. -/
def Operand.isLength : Operand → Bool
  | arrayLength _ => true
  | _ => false

namespace Predicate

/-- Whether a single test is about an array: its elements, or their number. -/
def isOfArray (p : Predicate) : Bool := p.isArray || p.operands.any Operand.isLength

/-- Some test in the predicate is about an array, at any nesting. -/
def HasArrayTests (p : Predicate) : Prop := ∃ t ∈ p.tests .root, t.2.isOfArray

/-- The rows that a test is made on are no part of the test. -/
lemma hasArrayTests_iff_at (path : RelationPath) {p : Predicate} :
    p.HasArrayTests ↔ ∃ t ∈ p.tests path, t.2.isOfArray := by
  have hmap : ∀ path' : RelationPath,
      (∃ t ∈ p.tests path', t.2.isOfArray) ↔ ∃ q ∈ (p.tests path').map Prod.snd, q.isOfArray := by
    intro path'
    constructor
    · rintro ⟨t, ht, harray⟩
      exact ⟨t.2, List.mem_map_of_mem ht, harray⟩
    · rintro ⟨q, hq, harray⟩
      obtain ⟨t, ht, rfl⟩ := List.mem_map.mp hq
      exact ⟨t, ht, harray⟩
  rw [HasArrayTests, hmap, hmap path, map_snd_tests .root path]

lemma Reads.hasArrayTests_iff {o : Operand} {ofArrays : Bool} {p : Predicate}
    (h : p.Reads .root o ofArrays) : p.HasArrayTests ↔ ofArrays ∨ o.isLength := by
  have hof : ∀ t ∈ p.tests .root, t.2.isOfArray = (ofArrays || o.isLength) := by
    intro t ht
    obtain ⟨hoperands, harray⟩ := h.operands t ht
    simp [isOfArray, hoperands, harray]
  obtain ⟨t, ht⟩ := List.exists_mem_of_ne_nil _ h.nonempty
  constructor
  · rintro ⟨t, ht, harray⟩
    simpa [hof t ht] using harray
  · intro harray
    exact ⟨t, ht, by simpa [hof t ht] using harray⟩

end Predicate

/-- Some test in a compiled filter is about an array: in its predicate, or in a predicate that picks
the rows of an aggregate. -/
def CompiledFilter.HasArrayTests (f : CompiledFilter) : Prop :=
  ∃ p ∈ f.predicate.toList ++ f.projections.toList.filterMap (·.expr.filter?), p.HasArrayTests

/-! ## Tests that leaves make of arrays -/

lemma FieldKind.family_eq_array_iff (kind : FieldKind) : kind.family = .array ↔ kind.isArray := by
  cases kind <;> simp [family, isArray]

/-- A condition is about arrays if its operator is. -/
lemma Condition.hasArrayTests_iff {cond : Condition} {o : Operand} {kind : FieldKind}
    {now : Instant} {p : Predicate} (ho : o.isLength = false)
    (h : cond.predicate? o kind now = some p) :
    p.HasArrayTests ↔ cond.info.operator.isArray ∨ cond.info.operator = .length := by
  obtain ⟨n, hreads, hn⟩ := Condition.reads_of_predicate? h
  rw [hreads.hasArrayTests_iff]
  refine or_congr_right ?_
  cases hop : cond.info.operator with
  | part part =>
    simp only [hop, Operator.readsNumber, if_true, Condition.number?] at hn
    cases o with
    | field path =>
      simp only at hn
      split at hn
      · simp at hn
      · obtain rfl := Option.some.inj hn
        simp [Operand.isLength]
    | _ => simp at hn
  | length =>
    simp only [hop, Operator.readsNumber, if_true, Condition.number?] at hn
    cases o with
    | field path =>
      obtain rfl := Option.some.inj hn
      simp [Operand.isLength]
    | _ => simp at hn
  | _ =>
    simp only [hop, Operator.readsNumber, Bool.false_eq_true, if_false] at hn
    simp [hn, ho]

/-- A leaf has an operator of arrays, other than the one that asks for null, with an operand that
the operator takes. -/
def Leaf.AsksOfArray (l : Leaf) (o : Operand) (kind : FieldKind) (now : Instant) : Prop :=
  ∃ name operand cond, (name, operand) ∈ l.operators.entries ∧ name ≠ "is_null" ∧
    Condition.ofOperator? .array name operand = some cond ∧ (cond.predicate? o kind now).isSome

/-- **A leaf is about arrays exactly if it is applied to one and has an operator of arrays.** -/
theorem Leaf.hasArrayTests_iff {l : Leaf} {o : Operand} {kind : FieldKind} {now : Instant}
    (ho : o.isLength = false) :
    (∃ p, l.predicate? o kind now = some p ∧ p.HasArrayTests) ↔
      kind.isArray ∧ l.AsksOfArray o kind now := by
  constructor
  · rintro ⟨p, hp, t, ht, harray⟩
    obtain ⟨cond, hcond, q, hq, ht⟩ := Leaf.mem_tests_iff.mp ⟨p, hp, ht⟩
    obtain ⟨⟨name, operand⟩, hm, hof⟩ := List.mem_filterMap.mp hcond
    obtain ⟨hinfo, hname, -⟩ := Condition.ofOperator?_eq_some hof
    have hop := (Condition.hasArrayTests_iff ho hq).mp ⟨t, ht, harray⟩
    obtain ⟨hfamily, hnull⟩ := (OperatorFamily.isArray_or_length_iff hinfo).mp hop
    rw [hname] at hnull
    rw [hfamily] at hof
    exact ⟨kind.family_eq_array_iff.mp hfamily, name, operand, cond, hm, hnull, hof,
      Option.isSome_of_eq_some hq⟩
  · rintro ⟨hkind, name, operand, cond, hm, hnull, hof, hsome⟩
    obtain ⟨q, hq⟩ := Option.isSome_iff_exists.mp hsome
    have hfamily := kind.family_eq_array_iff.mpr hkind
    obtain ⟨hinfo, hname, -⟩ := Condition.ofOperator?_eq_some hof
    have hop := (OperatorFamily.isArray_or_length_iff hinfo).mpr ⟨rfl, by rwa [hname]⟩
    obtain ⟨t, ht, harray⟩ := (Condition.hasArrayTests_iff ho hq).mpr hop
    have hcond : cond ∈ l.conditions kind.family := by
      rw [hfamily]
      exact List.mem_filterMap.mpr ⟨(name, operand), hm, hof⟩
    obtain ⟨p, hp, ht⟩ := Leaf.mem_tests_iff.mpr ⟨cond, hcond, q, hq, ht⟩
    exact ⟨p, hp, t, ht, harray⟩

/-! ## Ways around the switch -/

/-- A leaf of a visited entry gets to a value without a look at the switch for arrays. -/
inductive Visit.Bypasses (c : Compiler) (set : ProjectionSet) (v : Visit) :
    Leaf → Operand → FieldKind → Prop where
  /-- It is applied to the primary key. -/
  | key {leaf : Leaf} : v.entry = .id leaf →
      Bypasses c set v leaf (.field (v.scope.fieldPath v.scope.entity.primaryKey))
        v.scope.entity.primaryKeyKind
  /-- It is applied to the identifier of the one row that a relation leads to. -/
  | keyOfRow {name : String} {leaf : Leaf} {r : Relation} {target : Entity} :
      v.named? = some (name, leaf) → v.scope.entity.field? name = none → c.canFollow v.scope →
      c.relation? v.scope name = some (r, target) → r.isToOne →
      Bypasses c set v leaf (.field (.under (v.scope.relationPath name) target.primaryKey))
        target.primaryKeyKind
  /-- It is applied to the identifiers of the rows that a relation leads to. -/
  | keyOfRows {name : String} {leaf : Leaf} {r : Relation} {target : Entity} :
      v.named? = some (name, leaf) → v.scope.entity.field? name = none → c.canFollow v.scope →
      c.relation? v.scope name = some (r, target) → r.isToMany →
      Bypasses c set v leaf (.field (.single target.primaryKey)) target.primaryKeyKind
  /-- It is applied to an aggregate that has been collected. -/
  | aggregate {a : Aggregation} {condition : Option (Filter × UInt32)}
      {function : AggregateFunction} {leaf : Leaf} {plan : Plan} {handle : ProjectionHandle} :
      v.entry = .aggregate a condition → (function, leaf) ∈ a.functions →
      c.planAggregate? v.scope a (condition.map Prod.snd) function = some plan →
      set.lookup? plan.key = some handle → Bypasses c set v leaf (.projection handle) plan.kind
  /-- It is applied to a value that has been looked up. -/
  | subquery {items : List SubqueryFilter} {q : SubqueryFilter} {plan : Plan}
      {handle : ProjectionHandle} :
      v.entry = .subquery items → q ∈ items → c.planSubquery? v.scope q = some plan →
      set.lookup? plan.key = some handle → Bypasses c set v q.filter (.projection handle) plan.kind

section

variable {c : Compiler} {set : ProjectionSet} {v : Visit} {s : Scope} {l : Leaf} {o : Operand}
  {kind : FieldKind} {plan : Plan}

lemma Compiler.isArray_of_temporalKind? {name : String} (h : temporalKind? s name = some kind) :
    kind.isArray = false := by
  unfold temporalKind? at h
  split at h
  · split at h
    · next f _ =>
      split at h
      · next htemporal =>
        obtain rfl := Option.some.inj h
        cases hk : f.kind <;> simp_all [FieldKind.isTemporal, FieldKind.isArray]
      · simp at h
    · simp at h
  · simp at h

lemma Compiler.isArray_of_planTrunc? {t : TruncFilter} (h : c.planTrunc? s t = some plan) :
    plan.kind.isArray = false := by
  unfold planTrunc? at h
  split at h
  · obtain ⟨kind, hkind, rfl⟩ := Option.map_eq_some_iff.mp h
    exact isArray_of_temporalKind? hkind
  · simp at h

lemma Compiler.isArray_of_planExtract? {e : ExtractFilter} (h : c.planExtract? s e = some plan) :
    plan.kind.isArray = false := by
  unfold planExtract? at h
  split at h
  · split at h
    · split at h
      · simp at h
      · obtain rfl := Option.some.inj h
        rfl
    · simp at h
  · simp at h

lemma Compiler.isArray_of_planWindow? {w : WindowFilter} (h : c.planWindow? s w = some plan) :
    plan.kind.isArray = false := by
  simp only [planWindow?] at h
  split at h
  · obtain rfl := Option.some.inj h
    simp only
    split <;> rfl
  · simp at h

lemma Compiler.isArray_of_planCount? {relation : String} (h : c.planCount? s relation = some plan) :
    plan.kind.isArray = false := by
  obtain ⟨_, -, rfl⟩ := Option.map_eq_some_iff.mp h
  rfl

/-- With the switch off, a leaf gets to an array on one of these ways only. -/
lemma Visit.bypasses_of_applies {path : RelationPath} (hoff : c.settings.features.array = false)
    (hkind : kind.isArray) (h : v.Applies c set l path o kind) : v.Bypasses c set l o kind := by
  cases h with
  | key hentry => exact .key hentry
  | field _ _ hgate => simp [hoff, hkind] at hgate
  | keyOfRow hnamed hnone hfollow hr ho => exact .keyOfRow hnamed hnone hfollow hr ho
  | keyOfRows hnamed hnone hfollow hr hm => exact .keyOfRows hnamed hnone hfollow hr hm
  | projection hm hh =>
    -- numbers, dates and parts of dates are no arrays
    have hnot {kind : FieldKind} (hkind : kind.isArray) (hnone : kind.isArray = false) : False := by
      simp [hnone] at hkind
    cases Visit.mem_planned_iff.mp hm with
    | aggregate hentry hf hplan => exact .aggregate hentry hf hplan hh
    | subquery hentry hq hplan => exact .subquery hentry hq hplan hh
    | window _ _ hplan => exact (hnot hkind (Compiler.isArray_of_planWindow? hplan)).elim
    | trunc _ hplan => exact (hnot hkind (Compiler.isArray_of_planTrunc? hplan)).elim
    | extract _ hplan => exact (hnot hkind (Compiler.isArray_of_planExtract? hplan)).elim
    | count _ _ hplan => exact (hnot hkind (Compiler.isArray_of_planCount? hplan)).elim

lemma Visit.applies_of_bypasses (h : v.Bypasses c set l o kind) :
    ∃ path, v.Applies c set l path o kind := by
  cases h with
  | key hentry => exact ⟨_, .key hentry⟩
  | keyOfRow hnamed hnone hfollow hr ho => exact ⟨_, .keyOfRow hnamed hnone hfollow hr ho⟩
  | keyOfRows hnamed hnone hfollow hr hm => exact ⟨_, .keyOfRows hnamed hnone hfollow hr hm⟩
  | aggregate hentry hf hplan hh =>
    exact ⟨_, .projection (Visit.mem_planned_iff.mpr (.aggregate hentry hf hplan)) hh⟩
  | subquery hentry hq hplan hh =>
    exact ⟨_, .projection (Visit.mem_planned_iff.mpr (.subquery hentry hq hplan)) hh⟩

lemma Visit.isLength_of_applies {path : RelationPath} (h : v.Applies c set l path o kind) :
    o.isLength = false := by
  cases h <;> rfl

/-- What an entry tests of arrays, it tests by a leaf that is applied to one. -/
lemma Visit.exists_array_test_iff :
    (∃ t ∈ v.tests c set, t.2.isOfArray) ↔
      ∃ l path o kind, v.Applies c set l path o kind ∧ kind.isArray ∧
        l.AsksOfArray o kind c.now := by
  constructor
  · rintro ⟨t, ht, harray⟩
    cases Visit.mem_tests_iff.mp ht with
    | @leaf l path o kind q _ happlies hq ht =>
      have hq : ∃ q, l.predicate? o kind c.now = some q ∧ q.HasArrayTests :=
        ⟨q, hq, (hasArrayTests_iff_at path).mpr ⟨t, ht, harray⟩⟩
      exact ⟨l, path, o, kind, happlies,
        (Leaf.hasArrayTests_iff (Visit.isLength_of_applies happlies)).mp hq⟩
    | quick | comparison | search | rank => cases harray
  · rintro ⟨l, path, o, kind, happlies, hasks⟩
    obtain ⟨q, hq, harray⟩ :=
      (Leaf.hasArrayTests_iff (Visit.isLength_of_applies happlies)).mpr hasks
    obtain ⟨t, ht, harray⟩ := (hasArrayTests_iff_at path).mp harray
    exact ⟨t, Visit.mem_tests_of_applies happlies hq ht, harray⟩

/-- A test of an array in the predicate of a filter is made by a visited entry. -/
lemma Filter.hasArrayTests_iff {f : Filter} :
    (∃ p, f.predicate? c set s = some p ∧ p.HasArrayTests) ↔
      ∃ v ∈ f.visits c s, ∃ t ∈ v.tests c set, t.2.isOfArray := by
  constructor
  · rintro ⟨p, hp, harray⟩
    obtain ⟨t, ht, harray⟩ := (hasArrayTests_iff_at s.rows).mp harray
    have hkeys : ¬IncludesKeys t := by
      rintro ⟨path, values, hkeys⟩
      rw [hkeys] at harray
      cases harray
    obtain ⟨v, hv, ht⟩ := (Filter.mem_tests_iff hkeys).mp (mem_testsOfAll_toList.mpr ⟨p, hp, ht⟩)
    exact ⟨v, hv, t, ht, harray⟩
  · rintro ⟨v, hv, t, ht, harray⟩
    obtain ⟨p, hp, ht⟩ := mem_testsOfAll_toList.mp (Filter.tests_subset f hv ht)
    exact ⟨p, hp, (hasArrayTests_iff_at s.rows).mpr ⟨t, ht, harray⟩⟩

end

/-! ## Compiled filters -/

/-- The visits behind a compiled filter, each with the projections that it can refer to: those of
the filter, and those of the conditions of the aggregates that have been collected. -/
inductive Compiler.Reaches (c : Compiler) (f : Filter) (e : Entity) :
    ProjectionSet → Visit → Prop where
  | filter {v : Visit} : v ∈ f.visits c { entity := e } → Reaches c f e (c.projections f e) v
  | condition {v w : Visit} {a : Aggregation} {condition : Filter} {fingerprint : UInt32}
      {target : Entity} {p : Projection} : w ∈ f.visits c { entity := e } →
      w.entry = .aggregate a (some (condition, fingerprint)) →
      p ∈ w.requests c (c.projections f e) → p ∈ (c.projections f e).toList →
      c.toMany? w.scope a.relation = some target →
      v ∈ condition.visits c (w.scope.enter a.relation target) → Reaches c f e .empty v

namespace Compiler

variable {c : Compiler} {f : Filter} {e : Entity}

/-- The predicates that pick the rows of aggregates make the tests of the conditions. -/
lemma exists_filter_iff :
    (∃ p ∈ (c.projections f e).toList, ∃ q, p.expr.filter? = some q ∧ q.HasArrayTests) ↔
      ∃ v w a condition fingerprint target, ∃ p : Projection, w ∈ f.visits c { entity := e } ∧
        w.entry = .aggregate a (some (condition, fingerprint)) ∧
        p ∈ w.requests c (c.projections f e) ∧ p ∈ (c.projections f e).toList ∧
        c.toMany? w.scope a.relation = some target ∧
        v ∈ condition.visits c (w.scope.enter a.relation target) ∧
        ∃ t ∈ v.tests c .empty, t.2.isOfArray := by
  constructor
  · rintro ⟨p, hp, q, hq, harray⟩
    have hrequested := hp
    rw [projections_eq_requests] at hrequested
    obtain ⟨w, hw, hpw⟩ :=
      List.mem_flatMap.mp (ProjectionSet.mem_of_mem_toList_ofRequests hrequested)
    rw [Visit.filter?_of_mem_requests hpw] at hq
    obtain ⟨a, condition, fingerprint, hentry, hcondition⟩ := Visit.filter?_eq_some hq
    obtain ⟨target, htarget, hcondition⟩ := Option.bind_eq_some_iff.mp hcondition
    obtain ⟨v, hv, ht⟩ := Filter.hasArrayTests_iff.mp ⟨q, hcondition, harray⟩
    exact ⟨v, w, a, condition, fingerprint, target, p, hw, hentry, hpw, hp, htarget, hv, ht⟩
  · rintro ⟨v, w, a, condition, fingerprint, target, p, hw, hentry, hpw, hp, htarget, hv, ht⟩
    obtain ⟨q, hq, harray⟩ := Filter.hasArrayTests_iff.mpr ⟨v, hv, ht⟩
    refine ⟨p, hp, q, ?_, harray⟩
    rw [Visit.filter?_of_mem_requests hpw, Visit.filter?, hentry]
    simpa [conditionPredicate?, htarget] using hq

/-- A test of an array in a compiled filter is made by a visit behind it. -/
lemma hasArrayTests_iff_reaches :
    (⟨c.projections f e, c.predicate? f e (c.projections f e)⟩ : CompiledFilter).HasArrayTests ↔
      ∃ set v, c.Reaches f e set v ∧ ∃ t ∈ v.tests c set, t.2.isOfArray := by
  constructor
  · rintro ⟨p, hp, harray⟩
    rcases List.mem_append.mp hp with hp | hp
    · obtain ⟨v, hv, ht⟩ := Filter.hasArrayTests_iff.mp ⟨p, Option.mem_toList.mp hp, harray⟩
      exact ⟨_, v, .filter hv, ht⟩
    · obtain ⟨projection, hprojection, hq⟩ := List.mem_filterMap.mp hp
      obtain ⟨v, w, a, condition, fingerprint, target, p, hw, hentry, hpw, hp, htarget, hv, ht⟩ :=
        exists_filter_iff.mp ⟨projection, hprojection, p, hq, harray⟩
      exact ⟨_, v, .condition hw hentry hpw hp htarget hv, ht⟩
  · rintro ⟨set, v, hreaches, ht⟩
    cases hreaches with
    | filter hv =>
      obtain ⟨p, hp, harray⟩ := Filter.hasArrayTests_iff.mpr ⟨v, hv, ht⟩
      exact ⟨p, List.mem_append_left _ (Option.mem_toList.mpr hp), harray⟩
    | condition hw hentry hpw hp htarget hv =>
      obtain ⟨p, hp, q, hq, harray⟩ :=
        exists_filter_iff.mpr ⟨v, _, _, _, _, _, _, hw, hentry, hpw, hp, htarget, hv, ht⟩
      exact ⟨q, List.mem_append_right _ (List.mem_filterMap.mpr ⟨p, hp, hq⟩), harray⟩

end Compiler

/-! ### Features of projections -/

/-- Whether a projection of the key may be collected. -/
def ProjectionKey.isAllowed (features : Features) : ProjectionKey → Bool
  | aggregate _ _ _ | count _ => true
  | conditionalAggregate _ _ _ _ => features.conditionalAggregation
  | window _ _ _ => features.window
  | subquery _ _ _ => features.subquery
  | dateTrunc _ _ _ => features.dateTrunc
  | dateExtract _ _ _ => features.dateExtract
  | searchVector _ _ _ | searchRank _ _ _ => features.fullText

/-- Whether an expression may be computed. -/
def ProjectionExpr.isAllowed (features : Features) : ProjectionExpr → Bool
  | aggregate _ _ _ filter => filter.isNone || features.conditionalAggregation
  | count _ => true
  | subquery _ _ _ => features.subquery
  | window _ _ => features.window
  | dateTrunc _ _ => features.dateTrunc
  | dateExtract _ _ => features.dateExtract
  | searchVector _ _ | searchRank _ _ _ _ => features.fullText

lemma Visit.isAllowed_of_plans {c : Compiler} {set : ProjectionSet} {v : Visit}
    {key : ProjectionKey} {expr : ProjectionExpr} (h : v.Plans c set key expr) :
    key.isAllowed c.settings.features ∧ expr.isAllowed c.settings.features := by
  cases h with
  | aggregate | count => exact ⟨rfl, rfl⟩
  | conditionalAggregate _ hfeature =>
    exact ⟨hfeature, by rw [ProjectionExpr.isAllowed, hfeature, Bool.or_true]⟩
  | window _ hfeature | subquery _ _ hfeature | dateTrunc _ hfeature | dateExtract _ hfeature
  | searchVector _ hfeature | searchRank _ hfeature => exact ⟨hfeature, hfeature⟩

lemma Compiler.isAllowed_of_mem_projections {c : Compiler} {f : Filter} {e : Entity}
    {p : Projection} (hp : p ∈ (c.projections f e).toList) :
    p.key.isAllowed c.settings.features ∧ p.expr.isAllowed c.settings.features := by
  rw [projections_eq_requests] at hp
  obtain ⟨v, -, hp⟩ := List.mem_flatMap.mp (ProjectionSet.mem_of_mem_toList_ofRequests hp)
  exact Visit.isAllowed_of_plans (Visit.plans_of_mem_requests hp)

/-! ### What is switched off -/

/-- **What is switched off leaves no projection, and tests arrays only around the switch.**  Every
projection of a compiled filter is allowed by the settings.  With the operators of arrays off, a
compiled filter tests an array exactly if a leaf with such an operator gets to one on a way that
does not look at the switch. -/
theorem Compiler.hasArrayTests_iff_bypasses {c : Compiler} {f : Filter} {n : String}
    {compiled : CompiledFilter} (h : c.compile f n = .ok compiled) :
    (∀ p ∈ compiled.projections.toList, p.key.isAllowed c.settings.features ∧
      p.expr.isAllowed c.settings.features) ∧
    (c.settings.features.array = false →
      (compiled.HasArrayTests ↔ ∃ e, c.catalog.entity? n = some e ∧
        ∃ set v l o kind, c.Reaches f e set v ∧ v.Bypasses c set l o kind ∧ kind.isArray ∧
          l.AsksOfArray o kind c.now)) := by
  obtain ⟨e, he, -, rfl⟩ := compile_eq_ok_iff.mp h
  refine ⟨fun p hp => isAllowed_of_mem_projections hp, fun hoff => ?_⟩
  rw [hasArrayTests_iff_reaches]
  constructor
  · rintro ⟨set, v, hreaches, ht⟩
    obtain ⟨l, path, o, kind, happlies, hkind, hasks⟩ := Visit.exists_array_test_iff.mp ht
    exact ⟨e, he, set, v, l, o, kind, hreaches, Visit.bypasses_of_applies hoff hkind happlies,
      hkind, hasks⟩
  · rintro ⟨e', he', set, v, l, o, kind, hreaches, hbypasses, hkind, hasks⟩
    obtain rfl := Option.some.inj (he.symm.trans he')
    obtain ⟨path, happlies⟩ := Visit.applies_of_bypasses hbypasses
    exact ⟨set, v, hreaches,
      Visit.exists_array_test_iff.mpr ⟨l, path, o, kind, happlies, hkind, hasks⟩⟩

namespace Shop

/-- Products that are told apart by their tags. -/
def tagged : Entity :=
  Entity.withField { name := "Product", primaryKey := "tags" }
    { name := "tags", kind := .array .text }

/-- Compilation of filters on tagged products, every feature switched off. -/
def taggedCompiler : Compiler :=
  { catalog := Catalog.withEntity {} tagged, settings := {}, now := ⟨0, 0⟩ }

/-- One constraint on the tags, written under the key of identifiers and under the name of the
field. -/
def newTags : Filter :=
  let new := leaf "contains" (.list [.text "new"])
  .node [("id", .id new), ("tags", .field "tags" new)]

/-- Of the two, only the constraint on the field is passed over. -/
lemma predicate?_newTags (set : ProjectionSet) :
    taggedCompiler.predicate? newTags tagged set =
      some (.array (.field (.single "tags")) .contains [.text "new"]) := rfl

lemma compile_newTags :
    ∃ compiled, taggedCompiler.compile newTags "Product" = .ok compiled ∧
      compiled.HasArrayTests := by
  have hlimits : taggedCompiler.settings.limits.error? newTags = none := by decide +kernel
  have h := Compiler.compile_eq_ok (n := "Product") (e := tagged) rfl hlimits
  refine ⟨_, h, .array (.field (.single "tags")) .contains [.text "new"], ?_,
    (.root, .array (.field (.single "tags")) .contains [.text "new"]),
    List.mem_singleton.mpr rfl, rfl⟩
  exact List.mem_append_left _
    (Option.mem_toList.mpr (predicate?_newTags (taggedCompiler.projections newTags tagged)))

end Shop

theorem Compiler.hasArrayTests_iff_bypasses_newTags :
    Shop.taggedCompiler.settings.features.array = false ∧
      ∃ compiled, Shop.taggedCompiler.compile Shop.newTags "Product" = .ok compiled ∧
        compiled.HasArrayTests ∧
        (∀ p ∈ compiled.projections.toList,
          p.key.isAllowed Shop.taggedCompiler.settings.features ∧
            p.expr.isAllowed Shop.taggedCompiler.settings.features) ∧
        ∃ set v l o kind, Shop.taggedCompiler.Reaches Shop.newTags Shop.tagged set v ∧
          v.Bypasses Shop.taggedCompiler set l o kind ∧ kind.isArray ∧
          l.AsksOfArray o kind Shop.taggedCompiler.now := by
  obtain ⟨compiled, h, harray⟩ := Shop.compile_newTags
  obtain ⟨hallowed, hiff⟩ := Compiler.hasArrayTests_iff_bypasses h
  obtain ⟨e, he, hroute⟩ := (hiff rfl).mp harray
  obtain rfl : Shop.tagged = e := Option.some.inj he
  exact ⟨rfl, compiled, h, harray, hallowed, hroute⟩

/-- With the operators of arrays off, a compiled filter can still test an array. -/
theorem Compiler.arrays_off_still_tested :
    ¬∀ (c : Compiler) (f : Filter) (n : String) (compiled : CompiledFilter),
      c.compile f n = .ok compiled → c.settings.features.array = false →
        ¬compiled.HasArrayTests := by
  intro hclaim
  obtain ⟨compiled, h, harray⟩ := Shop.compile_newTags
  exact hclaim _ _ _ compiled h rfl harray

end EntityFilter
