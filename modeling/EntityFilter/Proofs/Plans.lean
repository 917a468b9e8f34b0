import EntityFilter.Proofs.Requests

/-!
# What plans make sure of

A visited entry requests a projection only if its plan succeeds, and every plan looks at the catalog
and at the settings first.  Here each plan is taken apart once: `planAggregate?_eq_some` and its
companions say which key a plan has and what was found on the way.  `Visit.Plans` puts the same down
for a request of a visited entry, with one case for each kind of projection, and
`Visit.plans_of_mem_requests` says that there are no others.
-/

namespace EntityFilter

/-! ## The plans, one by one -/

namespace Compiler

variable {c : Compiler} {s : Scope} {plan : Plan}

/-- The key of an aggregate, given the fingerprint of its condition. -/
def aggregateKey (s : Scope) (a : Aggregation) (function : AggregateFunction) :
    Option UInt32 → ProjectionKey
  | some n => .conditionalAggregate (s.fullPath a.relation) a.field function n
  | none => .aggregate (s.fullPath a.relation) a.field function

lemma field?_of_aggregatedKind? {target : Entity} {name : String} {function : AggregateFunction}
    {kind : FieldKind} (h : aggregatedKind? target name function = some kind) :
    ∃ f, target.field? name = some f := by
  unfold aggregatedKind? at h
  split at h
  · next f hf => exact ⟨f, hf⟩
  · simp at h

lemma planAggregate?_eq_some {a : Aggregation} {fingerprint : Option UInt32}
    {function : AggregateFunction} (h : c.planAggregate? s a fingerprint function = some plan) :
    plan.key = aggregateKey s a function fingerprint ∧
      (fingerprint.isSome → c.settings.features.conditionalAggregation ∧ c.canNest s) ∧
      ∃ target, c.toMany? s a.relation = some target ∧
        ∀ name, a.field = some name → ∃ f, target.field? name = some f := by
  obtain ⟨target, htarget, h⟩ := Option.bind_eq_some_iff.mp h
  simp only at h
  split at h
  · simp at h
  · next hgate =>
    have hcondition : fingerprint.isSome →
        c.settings.features.conditionalAggregation ∧ c.canNest s := by
      intro hsome
      simpa [hsome] using hgate
    split at h
    · next name hname =>
      obtain ⟨field, hfield, h⟩ := Option.bind_eq_some_iff.mp h
      obtain rfl := Option.some.inj h
      obtain ⟨kind, hkind, -⟩ := Option.map_eq_some_iff.mp hfield
      refine ⟨rfl, hcondition, target, htarget, fun name' hname' => ?_⟩
      obtain rfl := Option.some.inj (hname.symm.trans hname')
      exact field?_of_aggregatedKind? hkind
    · next hnone =>
      split at h
      · obtain rfl := Option.some.inj h
        exact ⟨rfl, hcondition, target, htarget, by simp [hnone]⟩
      · simp at h

lemma planCount?_eq_some {relation : String} (h : c.planCount? s relation = some plan) :
    plan.key = .count (s.fullPath relation) ∧ ∃ target, c.toMany? s relation = some target := by
  obtain ⟨target, htarget, rfl⟩ := Option.map_eq_some_iff.mp h
  exact ⟨rfl, target, htarget⟩

lemma planWindow?_eq_some {w : WindowFilter} (h : c.planWindow? s w = some plan) :
    plan.key = .window s.path w.function w.spec ∧ c.settings.features.window ∧ s.path = .root ∧
      (∀ name ∈ w.spec.partitionBy, s.entity.hasField name) ∧
      ∀ k ∈ w.spec.orderBy, s.entity.hasField k.field := by
  simp only [planWindow?] at h
  split at h
  · next hgate =>
    obtain rfl := Option.some.inj h
    simp only [Bool.and_eq_true, RelationPath.isEmpty, List.isEmpty_iff, List.all_append,
      List.all_eq_true, List.mem_map, forall_exists_index, and_imp,
      forall_apply_eq_imp_iff₂] at hgate
    obtain ⟨⟨hfeature, hpath⟩, hpartition, horder⟩ := hgate
    exact ⟨rfl, hfeature, congrArg RelationPath.mk hpath, hpartition, horder⟩
  · simp at h

lemma planSubquery?_eq_some {q : SubqueryFilter} (h : c.planSubquery? s q = some plan) :
    plan.key = .subquery (s.fullPath q.relation) q.field q.orderBy ∧
      c.settings.features.subquery ∧ ∃ target, c.toMany? s q.relation = some target ∧
        (∃ f, target.field? q.field = some f) ∧ ∀ k ∈ q.orderBy, target.hasField k.field := by
  simp only [planSubquery?] at h
  split at h
  · simp at h
  · next hfeature =>
    obtain ⟨target, htarget, h⟩ := Option.bind_eq_some_iff.mp h
    obtain ⟨f, hf, h⟩ := Option.bind_eq_some_iff.mp h
    split at h
    · next hall =>
      obtain rfl := Option.some.inj h
      exact ⟨rfl, by simpa using hfeature, target, htarget, ⟨f, hf⟩, List.all_eq_true.mp hall⟩
    · simp at h

lemma temporalKind?_eq_some {name : String} {kind : FieldKind}
    (h : temporalKind? s name = some kind) :
    ∃ f, s.entity.field? name = some f ∧ f.kind.isTemporal := by
  unfold temporalKind? at h
  split at h
  · split at h
    · next f hf =>
      split at h
      · next htemporal => exact ⟨f, hf, htemporal⟩
      · simp at h
    · simp at h
  · simp at h

lemma planTrunc?_eq_some {t : TruncFilter} (h : c.planTrunc? s t = some plan) :
    plan.key = .dateTrunc s.path t.field t.kind ∧ c.settings.features.dateTrunc ∧
      ∃ f, s.entity.field? t.field = some f ∧ f.kind.isTemporal := by
  simp only [planTrunc?] at h
  split at h
  · next hfeature =>
    obtain ⟨kind, hkind, rfl⟩ := Option.map_eq_some_iff.mp h
    exact ⟨rfl, hfeature, temporalKind?_eq_some hkind⟩
  · simp at h

lemma planExtract?_eq_some {e : ExtractFilter} (h : c.planExtract? s e = some plan) :
    plan.key = .dateExtract s.path e.field e.part ∧ c.settings.features.dateExtract ∧
      ∃ f, s.entity.field? e.field = some f ∧ f.kind.isTemporal := by
  simp only [planExtract?] at h
  split at h
  · next hfeature =>
    split at h
    · next kind hkind =>
      split at h
      · simp at h
      · obtain rfl := Option.some.inj h
        exact ⟨rfl, hfeature, temporalKind?_eq_some hkind⟩
    · simp at h
  · simp at h

lemma planSearch?_eq_some {search : SearchFilter} {plan : SearchPlan}
    (h : c.planSearch? s search = some plan) :
    plan.vector = .searchVector s.path plan.fields plan.config ∧
      plan.rank = (search.minRank.map fun _ => .searchRank s.path search.query search.mode) ∧
      c.settings.features.fullText ∧ searchFields? s search = some plan.fields := by
  simp only [planSearch?] at h
  split at h
  · simp at h
  · next hgate =>
    obtain ⟨fields, hfields, h⟩ := Option.bind_eq_some_iff.mp h
    obtain rfl := Option.some.inj h
    simp only [Bool.or_eq_true, not_or, Bool.not_eq_true', Bool.not_eq_false] at hgate
    exact ⟨rfl, rfl, hgate.1.1, hfields⟩

/-! Dates are taken apart, and texts searched, for the rows of the filtered entity and for those
that are joined to them. -/

lemma isBaseRow_of_temporalKind? {name : String} {kind : FieldKind}
    (h : temporalKind? s name = some kind) : s.isBaseRow := by
  unfold temporalKind? at h
  split at h
  · assumption
  · simp at h

lemma isBaseRow_of_planTrunc? {t : TruncFilter} (h : c.planTrunc? s t = some plan) :
    s.isBaseRow := by
  unfold planTrunc? at h
  split at h
  · obtain ⟨kind, hkind, -⟩ := Option.map_eq_some_iff.mp h
    exact isBaseRow_of_temporalKind? hkind
  · simp at h

lemma isBaseRow_of_planExtract? {e : ExtractFilter} (h : c.planExtract? s e = some plan) :
    s.isBaseRow := by
  unfold planExtract? at h
  split at h
  · split at h
    · next kind hkind => exact isBaseRow_of_temporalKind? hkind
    · simp at h
  · simp at h

lemma isBaseRow_of_planSearch? {search : SearchFilter} {plan : SearchPlan}
    (h : c.planSearch? s search = some plan) : s.isBaseRow := by
  simp only [planSearch?] at h
  split at h
  · simp at h
  · next hgate =>
    simp only [Bool.or_eq_true, not_or, Bool.not_eq_true', Bool.not_eq_false] at hgate
    exact hgate.1.2

end Compiler

/-! ## What a visited entry requests -/

/-- The key and the expression of a request of a visited entry, and what its plan has found. -/
inductive Visit.Plans (c : Compiler) (set : ProjectionSet) (v : Visit) :
    ProjectionKey → ProjectionExpr → Prop where
  | aggregate {a : Aggregation} {function : AggregateFunction} {target : Entity} :
      v.entry = .aggregate a none → c.toMany? v.scope a.relation = some target →
      (∀ name, a.field = some name → ∃ f, target.field? name = some f) →
      Plans c set v (.aggregate (v.scope.fullPath a.relation) a.field function)
        (.aggregate function (v.scope.relationPath a.relation) a.field none)
  | conditionalAggregate {a : Aggregation} {condition : Filter} {fingerprint : UInt32}
      {function : AggregateFunction} {target : Entity} :
      v.entry = .aggregate a (some (condition, fingerprint)) →
      c.settings.features.conditionalAggregation → c.canNest v.scope →
      c.toMany? v.scope a.relation = some target →
      (∀ name, a.field = some name → ∃ f, target.field? name = some f) →
      Plans c set v
        (.conditionalAggregate (v.scope.fullPath a.relation) a.field function fingerprint)
        (.aggregate function (v.scope.relationPath a.relation) a.field
          (c.conditionPredicate? v.scope a.relation condition))
  | count {relation : String} {leaf : Leaf} {target : Entity} : v.entry = .count relation leaf →
      ¬v.scope.entity.hasField v.key → c.toMany? v.scope relation = some target →
      Plans c set v (.count (v.scope.fullPath relation)) (.count (v.scope.relationPath relation))
  | window {items : List WindowFilter} {w : WindowFilter} : v.entry = .window items →
      c.settings.features.window → v.scope.path = .root →
      (∀ name ∈ w.spec.partitionBy, v.scope.entity.hasField name) →
      (∀ k ∈ w.spec.orderBy, v.scope.entity.hasField k.field) →
      Plans c set v (.window v.scope.path w.function w.spec) (.window w.function w.spec)
  | subquery {items : List SubqueryFilter} {q : SubqueryFilter} {target : Entity} :
      v.entry = .subquery items → q ∈ items → c.settings.features.subquery →
      c.toMany? v.scope q.relation = some target → (∃ f, target.field? q.field = some f) →
      (∀ k ∈ q.orderBy, target.hasField k.field) →
      Plans c set v (.subquery (v.scope.fullPath q.relation) q.field q.orderBy)
        (.subquery (v.scope.relationPath q.relation) q.field q.orderBy)
  | dateTrunc {t : TruncFilter} {f : Field} : v.entry = .trunc t →
      c.settings.features.dateTrunc → v.scope.entity.field? t.field = some f →
      f.kind.isTemporal →
      Plans c set v (.dateTrunc v.scope.path t.field t.kind)
        (.dateTrunc (v.scope.fieldPath t.field) t.kind)
  | dateExtract {e : ExtractFilter} {f : Field} : v.entry = .extract e →
      c.settings.features.dateExtract → v.scope.entity.field? e.field = some f →
      f.kind.isTemporal →
      Plans c set v (.dateExtract v.scope.path e.field e.part)
        (.dateExtract (v.scope.fieldPath e.field) e.part)
  | searchVector {search : SearchFilter} {fields : List String} {config : String} :
      v.entry = .search search → c.settings.features.fullText →
      Compiler.searchFields? v.scope search = some fields →
      Plans c set v (.searchVector v.scope.path fields config)
        (.searchVector (fields.map v.scope.fieldPath) config)
  | searchRank {search : SearchFilter} {fields : List String} {config : String}
      {vector : ProjectionHandle} : v.entry = .search search → c.settings.features.fullText →
      set.lookup? (.searchVector v.scope.path fields config) = some vector →
      Plans c set v (.searchRank v.scope.path search.query search.mode)
        (.searchRank vector search.query search.mode config)

variable {c : Compiler} {set : ProjectionSet} {v : Visit}

/-- What a visited entry asks for, the search apart, is planned. -/
lemma Visit.plans_of_mem_asks {plan : Plan} {expr : ProjectionExpr} (h : (plan, expr) ∈ v.asks c) :
    v.Plans c set plan.key expr := by
  obtain ⟨s, key, e⟩ := v
  cases e with
  | aggregate a condition =>
    obtain ⟨⟨function, leaf⟩, -, hasked⟩ := List.mem_filterMap.mp h
    obtain ⟨plan', hplan, heq⟩ := Option.map_eq_some_iff.mp hasked
    obtain ⟨rfl, rfl⟩ := Prod.mk.inj heq
    obtain ⟨hkey, hgate, target, htarget, hfield⟩ := Compiler.planAggregate?_eq_some hplan
    rw [hkey]
    cases condition with
    | none => exact .aggregate rfl htarget hfield
    | some condition =>
      obtain ⟨hfeature, hnest⟩ := hgate rfl
      exact .conditionalAggregate rfl hfeature hnest htarget hfield
  | window items =>
    obtain ⟨w, -, hasked⟩ := List.mem_filterMap.mp h
    obtain ⟨plan', hplan, heq⟩ := Option.map_eq_some_iff.mp hasked
    obtain ⟨rfl, rfl⟩ := Prod.mk.inj heq
    obtain ⟨hkey, hfeature, hpath, hpartition, horder⟩ := Compiler.planWindow?_eq_some hplan
    rw [hkey]
    exact .window rfl hfeature hpath hpartition horder
  | subquery items =>
    obtain ⟨q, hq, hasked⟩ := List.mem_filterMap.mp h
    obtain ⟨plan', hplan, heq⟩ := Option.map_eq_some_iff.mp hasked
    obtain ⟨rfl, rfl⟩ := Prod.mk.inj heq
    obtain ⟨hkey, hfeature, target, htarget, hfield, horder⟩ :=
      Compiler.planSubquery?_eq_some hplan
    rw [hkey]
    exact .subquery rfl hq hfeature htarget hfield horder
  | trunc t =>
    obtain ⟨plan', hplan, heq⟩ := Option.map_eq_some_iff.mp (Option.mem_toList.mp h)
    obtain ⟨rfl, rfl⟩ := Prod.mk.inj heq
    obtain ⟨hkey, hfeature, f, hf, htemporal⟩ := Compiler.planTrunc?_eq_some hplan
    rw [hkey]
    exact .dateTrunc rfl hfeature hf htemporal
  | extract e =>
    obtain ⟨plan', hplan, heq⟩ := Option.map_eq_some_iff.mp (Option.mem_toList.mp h)
    obtain ⟨rfl, rfl⟩ := Prod.mk.inj heq
    obtain ⟨hkey, hfeature, f, hf, htemporal⟩ := Compiler.planExtract?_eq_some hplan
    rw [hkey]
    exact .dateExtract rfl hfeature hf htemporal
  | count relation leaf =>
    simp only [Visit.asks, FilterEntry.asks] at h
    split at h
    · simp at h
    · next hreal =>
      obtain ⟨plan', hplan, heq⟩ := Option.map_eq_some_iff.mp (Option.mem_toList.mp h)
      obtain ⟨rfl, rfl⟩ := Prod.mk.inj heq
      obtain ⟨hkey, target, htarget⟩ := Compiler.planCount?_eq_some hplan
      rw [hkey]
      exact .count rfl hreal htarget
  | _ => simp [Visit.asks, FilterEntry.asks] at h

/-- **Every request of a visited entry is planned.** -/
theorem Visit.plans_of_mem_requests {r : Projection} (hr : r ∈ v.requests c set) :
    v.Plans c set r.key r.expr := by
  unfold Visit.requests at hr
  split at hr
  · next search hentry =>
    unfold Compiler.searchRequests at hr
    split at hr
    · simp at hr
    · next plan hplan =>
      obtain ⟨hvector, hrank, hfeature, hfields⟩ := Compiler.planSearch?_eq_some hplan
      rcases List.mem_cons.mp hr with rfl | hr
      · rw [hvector]
        exact .searchVector hentry hfeature hfields
      · split at hr
        · next vector rank hlookup hkey =>
          obtain rfl := List.mem_singleton.mp hr
          rw [hkey] at hrank
          obtain ⟨_, -, rfl⟩ := Option.map_eq_some_iff.mp hrank.symm
          rw [hvector] at hlookup
          exact .searchRank hentry hfeature hlookup
        · simp at hr
  · obtain ⟨⟨plan, expr⟩, hasks, rfl⟩ := List.mem_map.mp hr
    exact Visit.plans_of_mem_asks hasks

end EntityFilter
