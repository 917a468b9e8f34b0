import EntityFilter.Proofs.Plans
import EntityFilter.Proofs.Tests

/-!
# What the handles of a compiled filter denote

The predicate of a compiled filter refers to projections by handles.  A handle that stands in the
contribution of a visited entry was found under the key of a request of that entry
(`Visit.request_of_emits`), and it denotes the first request under this key that the walk has met.
The two need not be the same: a key has only the path from the beginning, and where a value is
stored depends on which part of the path has been joined to a row and which part leads to rows of
their own.  `Compiler.handle_denotes_iff` says exactly when they are: the first request is meant for
the same rows, and picks the rows that it aggregates by the same predicate.

They are the same throughout if existence tests with a condition stand on relations to many rows
only and no two conditions share a fingerprint (`Compiler.handle_denotes_of_coherent`), because
then the path determines the scope (`Compiler.scope_eq_of_path_eq`).  Otherwise they may differ, as
`Compiler.sharedCount_denotes_other_rows` shows.
-/

namespace EntityFilter

/-! ## Every handle comes from a request -/

/-- A visited entry contributes a test. -/
def Visit.Emits (c : Compiler) (set : ProjectionSet) (v : Visit) (t : RelationPath × Predicate) :
    Prop :=
  ∃ q, v.predicate? c set = some q ∧ t ∈ q.tests v.scope.rows

variable {c : Compiler} {set : ProjectionSet} {v w : Visit} {t : RelationPath × Predicate}
  {h : ProjectionHandle}

lemma Visit.mem_requests_of_mem_asks {plan : Plan} {expr : ProjectionExpr}
    (hasks : (plan, expr) ∈ v.asks c) : ⟨plan.key, expr, v.scope.rows⟩ ∈ v.requests c set := by
  unfold Visit.requests
  split
  · next hentry => simp [Visit.asks, FilterEntry.asks, hentry] at hasks
  · exact List.mem_map.mpr ⟨(plan, expr), hasks, rfl⟩

/-- A test is made on the rows of the visit, and its handles are those of requests of the visit. -/
def Visit.Owns (c : Compiler) (set : ProjectionSet) (v : Visit) (t : RelationPath × Predicate) :
    Prop :=
  ∀ h, .projection h ∈ t.2.sources →
    t.1 = v.scope.rows ∧ ∃ r ∈ v.requests c set, set.lookup? r.key = some h

/-- A test that only reads fields has no handles. -/
lemma Visit.owns_of_field {path : RelationPath} {p : Predicate} {field : FieldPath}
    (hp : p.ReadsAt path (.field field)) : ∀ t ∈ p.tests path, v.Owns c set t := by
  intro t ht h hh
  rw [(hp t ht).2] at hh
  simp at hh

lemma Visit.builds_owns (c : Compiler) (set : ProjectionSet) (v : Visit) :
    v.Builds c set fun p => ∀ t ∈ p.tests v.scope.rows, v.Owns c set t where
  and? := (Predicate.local_tests _ _).and?
  or? := (Predicate.local_tests _ _).or?
  leaf := by
    intro l o kind p _ hoffers hp t ht h hh
    obtain ⟨hpath, hsources⟩ := Leaf.readsAt_of_predicate? v.scope.rows hp t ht
    rw [hsources, List.mem_singleton] at hh
    cases hoffers with
    | projection hasks hlookup =>
      obtain rfl : _ = _ := Source.projection.inj hh
      exact ⟨hpath, _, Visit.mem_requests_of_mem_asks hasks, hlookup⟩
    | _ => simp [Operand.source] at hh
  rows := by
    intro l name r target p _ _ _ _ hp
    rw [Predicate.tests_existence]
    exact Visit.owns_of_field (Leaf.readsAt_of_predicate? _ hp)
  quick := by
    intro f text _
    exact Visit.owns_of_field (Predicate.readsAt_of_sources rfl)
  comparison := by
    intro left right f g op _ _ t ht h hh
    obtain rfl := List.mem_singleton.mp ht
    simp [Predicate.sources, Operand.source] at hh
  search := by
    intro search plan handle hentry hplan hlookup t ht h hh
    obtain rfl := List.mem_singleton.mp ht
    obtain rfl := Source.projection.inj (List.mem_singleton.mp hh)
    refine ⟨rfl, ⟨plan.vector, .searchVector (plan.fields.map v.scope.fieldPath) plan.config,
      v.scope.rows⟩, ?_, hlookup⟩
    simp only [Visit.requests, hentry, Compiler.searchRequests, hplan]
    exact List.mem_cons_self
  rank := by
    intro search plan vector key handle least hentry hplan hvector hrank hlookup t ht h hh
    obtain rfl := List.mem_singleton.mp ht
    obtain rfl := Source.projection.inj (List.mem_singleton.mp hh)
    refine ⟨rfl, ⟨key, .searchRank vector search.query search.mode plan.config, v.scope.rows⟩,
      ?_, hlookup⟩
    simp only [Visit.requests, hentry, Compiler.searchRequests, hplan, hvector, hrank]
    exact List.mem_cons_of_mem _ List.mem_cons_self

/-- **Every handle is found under the key of a request** of the entry that contributes the test, and
the request is meant for the rows on which the test is made. -/
theorem Visit.request_of_emits (ht : v.Emits c set t) (hh : .projection h ∈ t.2.sources) :
    ∃ r ∈ v.requests c set, set.lookup? r.key = some h ∧ r.scope = t.1 := by
  obtain ⟨q, hq, ht⟩ := ht
  obtain ⟨hpath, r, hr, hlookup⟩ :=
    Visit.predicate?_of_builds (Visit.builds_owns c set v) hq t ht h hh
  refine ⟨r, hr, hlookup, ?_⟩
  rw [Visit.scope_of_mem_requests hr, hpath]

/-! ## What a key says and what it leaves open -/

/-- The key and the expression of a request that a visited entry can make.  The key has the path from
the beginning, and the expression has the part of it that is joined to the row. -/
inductive Visit.Wants (c : Compiler) (set : ProjectionSet) (v : Visit) :
    ProjectionKey → ProjectionExpr → Prop where
  | aggregate {relation : String} {field : Option String} {function : AggregateFunction} :
      Wants c set v (.aggregate (v.scope.fullPath relation) field function)
        (.aggregate function (v.scope.relationPath relation) field none)
  | conditionalAggregate {a : Aggregation} {condition : Filter} {fingerprint : UInt32}
      {function : AggregateFunction} : v.entry = .aggregate a (some (condition, fingerprint)) →
      Wants c set v
        (.conditionalAggregate (v.scope.fullPath a.relation) a.field function fingerprint)
        (.aggregate function (v.scope.relationPath a.relation) a.field
          (c.conditionPredicate? v.scope a.relation condition))
  | count {relation : String} :
      Wants c set v (.count (v.scope.fullPath relation)) (.count (v.scope.relationPath relation))
  | window {function : WindowFunction} {spec : WindowSpec} :
      Wants c set v (.window v.scope.path function spec) (.window function spec)
  | subquery {relation field : String} {orderBy : List OrderKey} :
      Wants c set v (.subquery (v.scope.fullPath relation) field orderBy)
        (.subquery (v.scope.relationPath relation) field orderBy)
  | dateTrunc {field : String} {kind : TruncKind} :
      Wants c set v (.dateTrunc v.scope.path field kind)
        (.dateTrunc (v.scope.fieldPath field) kind)
  | dateExtract {field : String} {part : DatePart} :
      Wants c set v (.dateExtract v.scope.path field part)
        (.dateExtract (v.scope.fieldPath field) part)
  | searchVector {fields : List String} {config : String} :
      Wants c set v (.searchVector v.scope.path fields config)
        (.searchVector (fields.map v.scope.fieldPath) config)
  | searchRank {fields : List String} {config query : String} {mode : SearchMode}
      {vector : ProjectionHandle} :
      set.lookup? (.searchVector v.scope.path fields config) = some vector →
      Wants c set v (.searchRank v.scope.path query mode) (.searchRank vector query mode config)

namespace Scope

lemma fullPath_segments (s : Scope) (relation : String) :
    (s.fullPath relation).segments = s.rows.segments ++ (s.joined.segments ++ [relation]) :=
  List.append_assoc _ _ _

/-- Scopes on the same rows have the same path to a relation only if they join the same. -/
lemma joined_eq_of_fullPath {s s' : Scope} {relation relation' : String} (hr : s.rows = s'.rows)
    (h : s.fullPath relation = s'.fullPath relation') :
    s.joined = s'.joined ∧ relation = relation' := by
  have hseg := congrArg RelationPath.segments h
  rw [fullPath_segments, fullPath_segments, hr] at hseg
  obtain ⟨hjoined, hlast⟩ := List.append_inj' (List.append_cancel_left hseg) rfl
  exact ⟨congrArg RelationPath.mk hjoined, List.singleton_inj.mp hlast⟩

lemma joined_eq_of_path {s s' : Scope} (hr : s.rows = s'.rows) (h : s.path = s'.path) :
    s.joined = s'.joined := by
  have hseg : s.rows.segments ++ s.joined.segments = s'.rows.segments ++ s'.joined.segments :=
    congrArg RelationPath.segments h
  rw [hr] at hseg
  exact congrArg RelationPath.mk (List.append_cancel_left hseg)

end Scope

/-- **A key leaves open two things only**: which rows the value is meant for, and by which predicate
the rows are picked that are aggregated. -/
theorem Visit.Wants.expr_eq {key : ProjectionKey} {x x' : ProjectionExpr}
    (h : v.Wants c set key x) (h' : w.Wants c set key x') (hr : v.scope.rows = w.scope.rows)
    (hf : x.filter? = x'.filter?) : x = x' := by
  generalize hkey : key = key' at h'
  cases h with
  | aggregate =>
    cases h' with
    | aggregate =>
      obtain ⟨hpath, rfl, rfl⟩ := ProjectionKey.aggregate.inj hkey
      obtain ⟨hjoined, rfl⟩ := Scope.joined_eq_of_fullPath hr hpath
      simp only [Scope.relationPath, hjoined]
    | _ => simp at hkey
  | conditionalAggregate _ =>
    cases h' with
    | conditionalAggregate _ =>
      obtain ⟨hpath, hfield, rfl, -⟩ := ProjectionKey.conditionalAggregate.inj hkey
      obtain ⟨hjoined, hrelation⟩ := Scope.joined_eq_of_fullPath hr hpath
      simp only [ProjectionExpr.filter?] at hf
      rw [hf, hfield]
      simp only [Scope.relationPath, hjoined, hrelation]
    | _ => simp at hkey
  | count =>
    cases h' with
    | count =>
      obtain ⟨hjoined, rfl⟩ := Scope.joined_eq_of_fullPath hr (ProjectionKey.count.inj hkey)
      simp only [Scope.relationPath, hjoined]
    | _ => simp at hkey
  | window =>
    cases h' with
    | window =>
      obtain ⟨-, rfl, rfl⟩ := ProjectionKey.window.inj hkey
      rfl
    | _ => simp at hkey
  | subquery =>
    cases h' with
    | subquery =>
      obtain ⟨hpath, rfl, rfl⟩ := ProjectionKey.subquery.inj hkey
      obtain ⟨hjoined, rfl⟩ := Scope.joined_eq_of_fullPath hr hpath
      simp only [Scope.relationPath, hjoined]
    | _ => simp at hkey
  | dateTrunc =>
    cases h' with
    | dateTrunc =>
      obtain ⟨hpath, rfl, rfl⟩ := ProjectionKey.dateTrunc.inj hkey
      simp only [Scope.fieldPath, Scope.joined_eq_of_path hr hpath]
    | _ => simp at hkey
  | dateExtract =>
    cases h' with
    | dateExtract =>
      obtain ⟨hpath, rfl, rfl⟩ := ProjectionKey.dateExtract.inj hkey
      simp only [Scope.fieldPath, Scope.joined_eq_of_path hr hpath]
    | _ => simp at hkey
  | searchVector =>
    cases h' with
    | searchVector =>
      obtain ⟨hpath, rfl, rfl⟩ := ProjectionKey.searchVector.inj hkey
      have hfield : v.scope.fieldPath = w.scope.fieldPath := by
        funext name
        simp only [Scope.fieldPath, Scope.joined_eq_of_path hr hpath]
      rw [hfield]
    | _ => simp at hkey
  | searchRank hvector =>
    cases h' with
    | searchRank hvector' =>
      obtain ⟨hpath, rfl, rfl⟩ := ProjectionKey.searchRank.inj hkey
      -- two documents under one path have one name, so the set has decided between them
      have hname : ∀ fields fields' config config',
          (ProjectionKey.searchVector v.scope.path fields config).name =
            (ProjectionKey.searchVector w.scope.path fields' config').name := by
        intro _ _ _ _
        simp only [ProjectionKey.name, hpath]
      obtain ⟨hsame, rfl⟩ :=
        ProjectionSet.lookup?_unique (hname _ _ _ _) hvector hvector'
      obtain ⟨-, -, rfl⟩ := ProjectionKey.searchVector.inj hsame
      rfl
    | _ => simp at hkey

/-- A visit makes the requests that it can make. -/
lemma Visit.wants_of_mem_requests {r : Projection} (hr : r ∈ v.requests c set) :
    v.Wants c set r.key r.expr := by
  have hplans := Visit.plans_of_mem_requests hr
  generalize r.key = key, r.expr = expr at hplans
  cases hplans with
  | aggregate => exact .aggregate
  | conditionalAggregate hentry => exact .conditionalAggregate hentry
  | count => exact .count
  | window => exact .window
  | subquery => exact .subquery
  | dateTrunc => exact .dateTrunc
  | dateExtract => exact .dateExtract
  | searchVector => exact .searchVector
  | searchRank _ _ hvector => exact .searchRank hvector

/-- Two requests under one key for the same rows, with the same predicate that picks the rows. -/
lemma Visit.request_eq {r r' : Projection} (hr : r ∈ v.requests c set)
    (hr' : r' ∈ w.requests c set) (hkey : r.key = r'.key) (hscope : r.scope = r'.scope)
    (hfilter : r.expr.filter? = r'.expr.filter?) : r = r' := by
  have hrows : v.scope.rows = w.scope.rows := by
    rw [← Visit.scope_of_mem_requests hr, ← Visit.scope_of_mem_requests hr', hscope]
  have hx := Visit.wants_of_mem_requests hr
  have hx' := Visit.wants_of_mem_requests hr'
  rw [← hkey] at hx'
  have hexpr := hx.expr_eq hx' hrows hfilter
  cases r
  cases r'
  simp_all

/-! ## What handles denote -/

/-- A handle in what a visited entry contributes denotes the first request under its key. -/
lemma Compiler.first_of_emits {f : Filter} {e : Entity} (hv : v.Emits c (c.projections f e) t)
    (hh : .projection h ∈ t.2.sources) :
    ∃ r ∈ v.requests c (c.projections f e), (c.projections f e).lookup? r.key = some h ∧
      r.name = h.name ∧ r.scope = t.1 ∧
      ∃ first, (c.requests f e).find? (·.key = r.key) = some first ∧
        (c.projections f e).get? h = some first ∧ first.key = r.key := by
  obtain ⟨r, hr, hlookup, hscope⟩ := Visit.request_of_emits hv hh
  have hname := (ProjectionSet.lookup?_eq_some.mp hlookup).1
  obtain ⟨first, hget, hkey, -⟩ := ProjectionSet.get?_of_lookup? hlookup
  refine ⟨r, hr, hlookup, hname.symm, hscope, first, ?_, hget, hkey⟩
  rw [← hget]
  rw [projections_eq_requests] at hlookup ⊢
  exact (ProjectionSet.get?_ofRequests_of_lookup? hlookup).symm

/-- **Exactly when a handle denotes what is meant.**  A test in the predicate of a compiled filter
is contributed by visited entries.  Whichever of them it is, its handles are those of requests of
the entry, one request each, meant for the rows on which the test is made.  A handle denotes the
first request under the key of its request, and that is the request itself if and only if it is
meant for the same rows and picks the rows that it aggregates by the same predicate. -/
theorem Compiler.handle_denotes_iff {f : Filter} {n : String} {compiled : CompiledFilter}
    {p : Predicate} (hc : c.compile f n = .ok compiled) (hp : compiled.predicate = some p)
    (ht : t ∈ p.tests .root) (hh : .projection h ∈ t.2.sources) :
    ∃ e, c.catalog.entity? n = some e ∧
      (∃ v ∈ f.visits c { entity := e }, v.Emits c compiled.projections t) ∧
      ∀ v ∈ f.visits c { entity := e }, v.Emits c compiled.projections t →
        ∃ r ∈ v.requests c compiled.projections,
          (∀ r' ∈ v.requests c compiled.projections,
            compiled.projections.lookup? r'.key = some h ↔ r' = r) ∧
          r.name = h.name ∧ r.scope = t.1 ∧
          ∃ first, (c.requests f e).find? (·.key = r.key) = some first ∧
            compiled.projections.get? h = some first ∧ first.name = h.name ∧
            (first = r ↔ first.scope = t.1 ∧ first.expr.filter? = r.expr.filter?) := by
  obtain ⟨e, he, -, rfl⟩ := compile_eq_ok_iff.mp hc
  refine ⟨e, he, ?_, fun v _ hemits => ?_⟩
  · rcases Filter.test_provenance hp ht with ⟨path, values, hkeys⟩ | ⟨v, hv, q, hq, ht⟩
    · rw [hkeys] at hh
      simp [Predicate.sources, Operand.source] at hh
    · exact ⟨v, hv, q, hq, ht⟩
  · obtain ⟨r, hr, hlookup, hname, hscope, first, hfirst, hget, hkey⟩ := first_of_emits hemits hh
    have hfirstName : first.name = r.name := congrArg ProjectionKey.name hkey
    refine ⟨r, hr, fun r' hr' => ⟨fun hlookup' => ?_, ?_⟩, hname, hscope, first, hfirst, hget,
      hfirstName.trans hname, ?_, ?_⟩
    · have hname' := (ProjectionSet.lookup?_eq_some.mp hlookup').1
      obtain ⟨hkeys, -⟩ :=
        ProjectionSet.lookup?_unique (hname'.symm.trans hname.symm) hlookup' hlookup
      refine Visit.request_eq hr' hr hkeys ?_ ?_
      · rw [Visit.scope_of_mem_requests hr', Visit.scope_of_mem_requests hr]
      · rw [Visit.filter?_of_mem_requests hr', Visit.filter?_of_mem_requests hr]
    · rintro rfl
      exact hlookup
    · rintro rfl
      exact ⟨hscope, rfl⟩
    · rintro ⟨hrows, hfilter⟩
      obtain ⟨w, -, hw⟩ := List.mem_flatMap.mp (List.mem_of_find?_eq_some hfirst)
      exact Visit.request_eq hw hr hkey (by rw [hrows, hscope]) hfilter

/-! ## When paths determine scopes -/

namespace Scope

variable {s : Scope} {r : Relation} {name : String} {target : Entity}

/-- The scope behind a relation: joined if it leads to one row, entered if it leads to many. -/
def follow (s : Scope) (r : Relation) (name : String) (target : Entity) : Scope :=
  if r.isToOne then s.join name target else s.enter name target

lemma follow_of_isToOne (h : r.isToOne) : s.follow r name target = s.join name target := by
  simp [follow, h]

lemma follow_of_isToMany (h : r.isToMany) : s.follow r name target = s.enter name target := by
  simp_all [follow, Relation.isToOne, Relation.isToMany]

lemma path_follow : (s.follow r name target).path.segments = s.path.segments ++ [name] := by
  unfold follow
  split
  · exact (List.append_assoc _ _ _).symm
  · exact List.append_nil _

end Scope

/-- The scopes that are reached by following relations, each in the way of its cardinality. -/
inductive Compiler.Splits (c : Compiler) (start : Scope) : Scope → Prop where
  | start : Splits c start start
  | step {s : Scope} {name : String} {r : Relation} {target : Entity} : Splits c start s →
      c.relation? s name = some (r, target) → Splits c start (s.follow r name target)

/-- **The path determines the scope**, if the cardinalities of the relations split it. -/
theorem Compiler.scope_eq_of_path_eq {e : Entity} {s s' : Scope}
    (hs : c.Splits { entity := e } s) (hs' : c.Splits { entity := e } s')
    (hpath : s.path.segments = s'.path.segments) : s = s' := by
  have hstart : ({ entity := e } : Scope).path.segments = [] := rfl
  induction hs generalizing s' with
  | start =>
    cases hs' with
    | start => rfl
    | step => simp [hstart, Scope.path_follow] at hpath
  | step _ hr ih =>
    rw [Scope.path_follow] at hpath
    cases hs' with
    | start => simp [hstart] at hpath
    | step ht' hr' =>
      rw [Scope.path_follow] at hpath
      obtain ⟨hpath, hname⟩ := List.append_inj' hpath rfl
      obtain rfl := ih ht' hpath
      obtain rfl := List.singleton_inj.mp hname
      rw [hr] at hr'
      obtain ⟨rfl, rfl⟩ := Prod.mk.inj (Option.some.inj hr')
      rfl

/-- Existence tests with a condition stand on relations to many rows only, and conditions with the
same fingerprint are the same. -/
structure Filter.Coherent (c : Compiler) (s : Scope) (f : Filter) : Prop where
  many : ∀ v ∈ f.visits c s, ∀ items, v.entry = .existence items →
    ∀ t condition, (t, some condition) ∈ items → ∀ r target,
      c.relation? v.scope t.relation = some (r, target) → r.isToMany
  conditions : ∀ v ∈ f.visits c s, ∀ w ∈ f.visits c s, ∀ a a' condition condition' fingerprint,
    v.entry = .aggregate a (some (condition, fingerprint)) →
    w.entry = .aggregate a' (some (condition', fingerprint)) → condition = condition'

lemma Filter.Coherent.splits_of_mem_visits {s : Scope} {f : Filter} (hf : f.Coherent c s)
    (hv : v ∈ f.visits c s) : c.Splits s v.scope := by
  refine f.scope_of_mem_visits .start (fun w hw hs inner ho => ?_) v hv
  cases ho with
  | join _ h =>
    obtain ⟨-, r, target, hr, ho, rfl⟩ := Compiler.joinedScope?_eq_some.mp h
    rw [← Scope.follow_of_isToOne ho]
    exact hs.step hr
  | rows _ h =>
    obtain ⟨-, r, target, hr, hm, rfl⟩ := Compiler.rowsScope?_eq_some.mp h
    rw [← Scope.follow_of_isToMany hm]
    exact hs.step hr
  | test hentry hm h =>
    obtain ⟨-, -, -, r, hr⟩ := Compiler.existenceTarget?_eq_some.mp h
    rw [← Scope.follow_of_isToMany (hf.many w hw _ hentry _ _ hm r _ hr)]
    exact hs.step hr

namespace Visit.Wants

variable {key : ProjectionKey} {x x' : ProjectionExpr}

/-- Requests under one key belong to scopes of one path. -/
lemma path_eq (h : v.Wants c set key x) (h' : w.Wants c set key x') :
    v.scope.path.segments = w.scope.path.segments := by
  have hfull : ∀ {relation relation'},
      v.scope.fullPath relation = w.scope.fullPath relation' →
      v.scope.path.segments = w.scope.path.segments := fun h =>
    (List.append_inj' (congrArg RelationPath.segments h) rfl).1
  generalize hkey : key = key' at h'
  cases h <;> cases h' <;>
    simp only [reduceCtorEq, ProjectionKey.aggregate.injEq,
      ProjectionKey.conditionalAggregate.injEq, ProjectionKey.count.injEq,
      ProjectionKey.window.injEq, ProjectionKey.subquery.injEq, ProjectionKey.dateTrunc.injEq,
      ProjectionKey.dateExtract.injEq, ProjectionKey.searchVector.injEq,
      ProjectionKey.searchRank.injEq] at hkey
  all_goals first
    | exact hfull hkey
    | exact hfull hkey.1
    | exact congrArg RelationPath.segments hkey.1

/-- In one scope, a key leaves open only what the condition of an aggregate is. -/
lemma filter?_eq (h : v.Wants c set key x) (h' : w.Wants c set key x') (hs : v.scope = w.scope)
    (hcondition : ∀ a a' condition condition' fingerprint,
      v.entry = .aggregate a (some (condition, fingerprint)) →
      w.entry = .aggregate a' (some (condition', fingerprint)) → condition = condition') :
    x.filter? = x'.filter? := by
  generalize hkey : key = key' at h'
  cases h with
  | conditionalAggregate hentry =>
    cases h' with
    | conditionalAggregate hentry' =>
      obtain ⟨hpath, -, -, rfl⟩ := ProjectionKey.conditionalAggregate.inj hkey
      rw [hs] at hpath
      obtain ⟨-, hrelation⟩ := Scope.joined_eq_of_fullPath rfl hpath
      simp only [ProjectionExpr.filter?, hs, hrelation, hcondition _ _ _ _ _ hentry hentry']
    | _ => simp at hkey
  | _ =>
    cases h' with
    | conditionalAggregate => simp at hkey
    | _ => rfl

end Visit.Wants

lemma Filter.Coherent.request_eq {e : Entity} {f : Filter} {r r' : Projection}
    (hf : f.Coherent c { entity := e }) (hv : v ∈ f.visits c { entity := e })
    (hw : w ∈ f.visits c { entity := e }) (hr : r ∈ v.requests c set)
    (hr' : r' ∈ w.requests c set) (hkey : r.key = r'.key) : r = r' := by
  have hx := Visit.wants_of_mem_requests hr
  have hx' := Visit.wants_of_mem_requests hr'
  rw [← hkey] at hx'
  have hscope : v.scope = w.scope :=
    Compiler.scope_eq_of_path_eq (hf.splits_of_mem_visits hv) (hf.splits_of_mem_visits hw)
      (hx.path_eq hx')
  refine Visit.request_eq hr hr' hkey ?_ (hx.filter?_eq hx' hscope (hf.conditions v hv w hw))
  rw [Visit.scope_of_mem_requests hr, Visit.scope_of_mem_requests hr', hscope]

/-- **In a coherent filter every handle denotes what is meant.** -/
theorem Compiler.handle_denotes_of_coherent {f : Filter} {e : Entity}
    (hf : f.Coherent c { entity := e }) (hv : v ∈ f.visits c { entity := e })
    (hemits : v.Emits c (c.projections f e) t) (hh : .projection h ∈ t.2.sources) :
    ∃ r ∈ v.requests c (c.projections f e), (c.projections f e).get? h = some r ∧
      r.name = h.name ∧ r.scope = t.1 := by
  obtain ⟨r, hr, -, hname, hscope, first, hfirst, hget, hkey⟩ := first_of_emits hemits hh
  obtain ⟨w, hw, hwr⟩ := List.mem_flatMap.mp (List.mem_of_find?_eq_some hfirst)
  obtain rfl := hf.request_eq hw hv hwr hr hkey
  exact ⟨first, hr, hget, hname, hscope⟩

/-! ### One key for values on different rows -/

namespace Shop

/-- At least one review. -/
def reviewed : Filter := .node [("reviews_count", .count "reviews" (leaf "gte" (.int 1)))]

/-- The brand of the product is reviewed: asked once of the row that the brand is joined to, and
once of the brand as a row of its own. -/
def sharedCount : Filter :=
  .node [("brand_rel", .related "brand" reviewed),
    ("_exists", .existence [(⟨"brand", true⟩, some reviewed)])]

end Shop

/-- The brand of the product is reviewed, asked of the brand only. -/
def Shop.reviewedBrand : Filter :=
  .node [("_exists", .existence [(⟨"brand", true⟩, some reviewed)])]

theorem Compiler.handle_denotes_iff_reviewedBrand :
    ∃ compiled p t h, (Shop.compiler.compile Shop.reviewedBrand "Product" = .ok compiled ∧
      compiled.predicate = some p ∧ t ∈ p.tests .root ∧ .projection h ∈ t.2.sources) ∧
      ∃ first, compiled.projections.get? h = some first ∧ first.name = h.name := by
  have hlimits : Shop.compiler.settings.limits.error? Shop.reviewedBrand = none := by
    decide +kernel
  have hc := compile_eq_ok (n := "Product") (e := Shop.product) rfl hlimits
  have ht : (⟨["brand"]⟩, .compare (.projection ⟨0, "brand__reviews_count"⟩) .gte (.int 1)) ∈
      Predicate.tests .root (.existence ⟨["brand"]⟩ "Brand"
        (some (.compare (.projection ⟨0, "brand__reviews_count"⟩) .gte (.int 1)))) :=
    List.mem_singleton.mpr rfl
  have hh : .projection ⟨0, "brand__reviews_count"⟩ ∈ Predicate.sources
      (.compare (.projection ⟨0, "brand__reviews_count"⟩) .gte (.int 1)) :=
    List.mem_singleton.mpr rfl
  obtain ⟨e, -, ⟨v, hv, hemits⟩, hall⟩ := handle_denotes_iff hc rfl ht hh
  obtain ⟨r, -, -, -, -, first, -, hget, hname, -⟩ := hall v hv hemits
  exact ⟨_, _, _, _, ⟨hc, rfl, ht, hh⟩, first, hget, hname⟩

/-- A handle below an existence test can denote a projection that is stored in other rows. -/
theorem Compiler.sharedCount_denotes_other_rows :
    ∃ compiled p t h kept, Shop.compiler.compile Shop.sharedCount "Product" = .ok compiled ∧
      compiled.predicate = some p ∧ t ∈ p.tests .root ∧ .projection h ∈ t.2.sources ∧
      compiled.projections.get? h = some kept ∧ kept.scope ≠ t.1 := by
  have hlimits : Shop.compiler.settings.limits.error? Shop.sharedCount = none := by
    decide +kernel
  have hc := compile_eq_ok (n := "Product") (e := Shop.product) rfl hlimits
  exact ⟨_, _, (⟨["brand"]⟩, .compare (.projection ⟨0, "brand__reviews_count"⟩) .gte (.int 1)),
    ⟨0, "brand__reviews_count"⟩,
    ⟨.count ⟨["brand", "reviews"]⟩, .count ⟨["brand", "reviews"]⟩, .root⟩,
    hc, rfl, List.mem_of_getElem? (i := 1) rfl, List.mem_singleton.mpr rfl, rfl, by decide⟩

end EntityFilter
