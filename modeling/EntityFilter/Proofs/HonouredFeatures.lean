import EntityFilter.Proofs.Features

/-!
# Which features are honoured where they are offered

A chain of keys can end in a filter that offers a feature which the compiler passes over, whatever
is asked for (`FilterEntry.isIdle_of_not_suits`).  That, and the limits on filters, is all that can
happen: where a feature fits the chain in front of it and the limits leave room, something can be
asked for that changes what the filter compiles to (`Compiler.honours_feature_iff`).
-/

namespace EntityFilter

/-! ## What is honoured -/

lemma ProjectionSet.insert_ne_empty (set : ProjectionSet) (p : Projection) :
    set.insert p ≠ .empty := by
  intro h
  have hcontains := contains_insert set p
  rw [h] at hcontains
  cases hcontains

/-- An entry is idle if nothing is computed and nothing tested for it. -/
def FilterEntry.IsIdle (c : Compiler) (s : Scope) (key : String) (e : FilterEntry) : Prop :=
  e.collect c s key .empty = .empty ∧ e.predicate? c .empty s key = none

namespace Compiler

variable {c : Compiler} {n key : String} {links : List Link} {body : Document} {e : Entity}
  {s : Scope}

/-- What a filter on an entity compiles to if it keeps the limits. -/
def compiled (c : Compiler) (e : Entity) (f : Filter) : CompiledFilter :=
  ⟨c.projections f e, c.predicate? f e (c.projections f e)⟩

/-- What is written under a key at the end of a chain is honoured if the filter compiles, and to
something else than the filter in which it is left out. -/
def Honours (c : Compiler) (n : String) (links : List Link) (key : String) (body : Document) :
    Prop :=
  ∃ f bare compiled without,
    Filter.ofDocument? (.behind links (.object [(key, body)])) = some f ∧
    Filter.ofDocument? (.behind links (.object [])) = some bare ∧
    c.compile f n = .ok compiled ∧ c.compile bare n = .ok without ∧ compiled ≠ without

/-- An entry at the end of a chain changes nothing if it is idle there, and only then. -/
lemma compiled_behind_eq_iff (hs : c.through? { entity := e } links = some s)
    {entry : FilterEntry} :
    c.compiled e (.behind links (.node [(key, entry)])) = c.compiled e (.behind links (.node [])) ↔
      entry.IsIdle c s key := by
  have hcollected : c.projections (.behind links (.node [(key, entry)])) e =
      entry.collect c s key .empty := Filter.collect_behind hs
  have hnothing : c.projections (.behind links (.node [])) e = .empty := Filter.collect_behind hs
  have htested : c.predicate? (.behind links (.node [(key, entry)])) e .empty =
        c.predicate? (.behind links (.node [])) e .empty ↔
      entry.predicate? c .empty s key = none := by
    refine (Filter.predicate?_behind_inj hs).trans ?_
    rw [Link.predicate?_node]
    rfl
  rw [compiled, compiled, CompiledFilter.mk.injEq, hcollected, hnothing, FilterEntry.IsIdle]
  constructor
  · rintro ⟨hset, hpredicate⟩
    rw [hset] at hpredicate
    exact ⟨hset, htested.mp hpredicate⟩
  · rintro ⟨hset, hpredicate⟩
    rw [hset]
    exact ⟨rfl, htested.mpr hpredicate⟩

/-- A chain with an entry at its end keeps the limits if the chain leaves room for the entry. -/
lemma error?_behind_eq_none_iff {limits : Limits} {entry : FilterEntry} :
    limits.error? (.behind links (.node [(key, entry)])) = none ↔
      (∀ x ∈ (Filter.node [(key, entry)]).patterns, limits.patternError? x = none) ∧
      links.length + entry.depth ≤ limits.maxDepth ∧
      links.length + (1 + entry.nested.length) ≤ limits.maxClauses := by
  rw [Limits.error?_eq_none_iff, Filter.patterns_behind, Filter.depth_behind, Filter.clauses_behind]
  have hdepth : (Filter.node [(key, entry)]).depth = entry.depth := Nat.max_zero _
  have hclauses : (Filter.node [(key, entry)]).clauses = 1 + entry.nested.length := by
    show (entry :: entry.nested ++ []).length = _
    rw [List.append_nil, List.length_cons, Nat.add_comm]
  rw [hdepth, hclauses]

/-- **What is honoured**: it is read, the chain with it keeps the limits, and it is not idle. -/
theorem honours_iff (he : c.catalog.entity? n = some e)
    (hs : c.through? { entity := e } links = some s) (hlinks : ∀ l ∈ links, l.relation ≠ "") :
    c.Honours n links key body ↔
      ∃ entry, FilterEntry.ofDocument? (FilterKey.ofName key) body = some entry ∧
        c.settings.limits.error? (.behind links (.node [(key, entry)])) = none ∧
        ¬entry.IsIdle c s key := by
  have hread (members : List (String × Document)) :
      Filter.ofDocument? (.behind links (.object members)) =
        some (.behind links (.node (FilterEntry.ofMembers members))) :=
    Filter.ofDocument?_behind hlinks (by rw [Filter.ofDocument?])
  unfold Honours
  cases hentry : FilterEntry.ofDocument? (FilterKey.ofName key) body with
  | none =>
    simp only [hread, FilterEntry.ofMembers, hentry, Option.some.injEq, exists_and_left,
      exists_eq_left', reduceCtorEq, false_and, exists_false, iff_false]
    rintro ⟨compiled, hc, without, hw, hne⟩
    exact hne (Except.ok.inj (hc.symm.trans hw))
  | some entry =>
    simp only [hread, FilterEntry.ofMembers, hentry, Option.some.injEq, exists_and_left,
      exists_eq_left']
    constructor
    · rintro ⟨compiled, hc, without, hw, hne⟩
      obtain ⟨e', he', hlimits, rfl⟩ := compile_eq_ok_iff.mp hc
      obtain ⟨e'', he'', -, rfl⟩ := compile_eq_ok_iff.mp hw
      obtain rfl := Option.some.inj (he.symm.trans he')
      obtain rfl := Option.some.inj (he.symm.trans he'')
      exact ⟨hlimits, fun hidle => hne ((compiled_behind_eq_iff hs).mpr hidle)⟩
    · rintro ⟨hlimits, hbusy⟩
      have hbare : c.settings.limits.error? (.behind links (.node [])) = none := by
        obtain ⟨-, hdepth, hclauses⟩ := error?_behind_eq_none_iff.mp hlimits
        rw [Limits.error?_eq_none_iff, Filter.patterns_behind, Filter.depth_behind,
          Filter.clauses_behind]
        exact ⟨fun _ h => absurd h List.not_mem_nil, Nat.le_of_add_right_le hdepth,
          Nat.le_of_add_right_le hclauses⟩
      exact ⟨_, compile_eq_ok he hlimits, _, compile_eq_ok he hbare,
        fun hsame => hbusy ((compiled_behind_eq_iff hs).mp hsame)⟩

end Compiler

/-! ## Features that do not suit -/

/-- **A feature that does not suit the scope is passed over**, whatever is asked for. -/
theorem FilterEntry.isIdle_of_not_suits {c : Compiler} {s : Scope} {key : String} {e : FilterEntry}
    {f : Feature} (hkey : e.key = f.key) (hsuits : ¬f.Suits s) : e.IsIdle c s key := by
  cases e with
  | window items =>
    cases f <;> cases hkey
    have hplan (w : WindowFilter) : c.planWindow? s w = none := by
      refine Option.eq_none_iff_forall_ne_some.mpr fun plan hsome => hsuits ?_
      obtain ⟨-, -, hroot, -⟩ := Compiler.planWindow?_eq_some hsome
      rw [Feature.Suits, Scope.depth, hroot]
      rfl
    constructor
    · simp only [collect, Compiler.collectOwn, hplan, List.foldl_fixed]
    · simp only [predicate?, hplan, Option.bind_none, List.filterMap_none]
      rfl
  | search search =>
    cases f <;> cases hkey
    have hplan : c.planSearch? s search = none :=
      Option.eq_none_iff_forall_ne_some.mpr fun plan hsome =>
        hsuits (Compiler.isBaseRow_of_planSearch? hsome)
    constructor
    · simp only [collect, Compiler.collectOwn, Compiler.collectSearch, hplan]
    · simp only [predicate?, Compiler.searchPredicate?, hplan, Option.bind_eq_bind,
        Option.bind_none]
  | trunc t =>
    cases f <;> cases hkey
    have hplan : c.planTrunc? s t = none :=
      Option.eq_none_iff_forall_ne_some.mpr fun plan hsome =>
        hsuits (Compiler.isBaseRow_of_planTrunc? hsome)
    constructor
    · simp only [collect, Compiler.collectOwn, hplan]
    · simp only [predicate?, hplan, Option.bind_none]
  | extract x =>
    cases f <;> cases hkey
    have hplan : c.planExtract? s x = none :=
      Option.eq_none_iff_forall_ne_some.mpr fun plan hsome =>
        hsuits (Compiler.isBaseRow_of_planExtract? hsome)
    constructor
    · simp only [collect, Compiler.collectOwn, hplan]
    · simp only [predicate?, hplan, Option.bind_none]
  | aggregate a condition =>
    cases condition <;> cases f <;> cases hkey
    exact absurd trivial hsuits
  | subquery | existence =>
    cases f <;> cases hkey
    exact absurd trivial hsuits
  | _ => cases f <;> cases hkey

/-! ## Features that are granted -/

namespace Feature

/-- A document asks for a feature in a scope: the entry that it writes is not idle, and it is as
small as the feature allows. -/
structure Asks (c : Compiler) (s : Scope) (f : Feature) (body : Document) (entry : FilterEntry) :
    Prop where
  read : FilterEntry.ofDocument? f.key body = some entry
  patterns : entry.patterns = []
  depth : entry.depth = f.levels
  nested : entry.nested = []
  busy : ¬entry.IsIdle c s f.key.written

variable {c : Compiler} {s : Scope} {name : String}

lemma asks_window (hfeature : c.settings.features.window) (hsuits : s.depth = 0) :
    window.Asks c s (.object [("function", .text "row_number"), ("filter", .object [])])
      (.window [⟨.rowNumber, {}, {}⟩]) where
  read := by
    rw [key, FilterEntry.ofDocument?]
    rfl
  patterns := rfl
  depth := rfl
  nested := rfl
  busy := by
    have hroot : s.path.isEmpty := List.isEmpty_iff_length_eq_zero.mpr hsuits
    have hplan : c.planWindow? s ⟨.rowNumber, {}, {}⟩ =
        some ⟨.window s.path .rowNumber {}, .int⟩ := by
      simp [Compiler.planWindow?, hfeature, hroot, WindowFunction.isFractional]
    rintro ⟨hcollect, -⟩
    simp only [FilterEntry.collect, Compiler.collectOwn, List.foldl_cons, List.foldl_nil,
      hplan] at hcollect
    exact ProjectionSet.insert_ne_empty _ _ hcollect

lemma asks_subquery {field : String} {target : Entity} {f : Field}
    (hfeature : c.settings.features.subquery) (htarget : c.toMany? s name = some target)
    (hfield : target.field? field = some f) :
    subquery.Asks c s
      (.object [("relation", .text name), ("field", .text field), ("filter", .object [])])
      (.subquery [⟨name, field, [], {}⟩]) where
  read := by
    rw [key, FilterEntry.ofDocument?]
    rfl
  patterns := rfl
  depth := rfl
  nested := rfl
  busy := by
    have hplan : c.planSubquery? s ⟨name, field, [], {}⟩ =
        some ⟨.subquery (s.fullPath name) field [], f.kind⟩ := by
      simp [Compiler.planSubquery?, hfeature, htarget, hfield]
    rintro ⟨hcollect, -⟩
    simp only [FilterEntry.collect, Compiler.collectOwn, List.foldl_cons, List.foldl_nil,
      hplan] at hcollect
    exact ProjectionSet.insert_ne_empty _ _ hcollect

lemma asks_existence {target : Entity} (htarget : c.existenceTarget? s name false = some target) :
    existence.Asks c s (.object [("relation", .text name)])
      (.existence [(⟨name, true⟩, none)]) where
  read := by
    rw [key, FilterEntry.ofDocument?, ExistenceTest.listOfDocument, ExistenceTest.ofMembers?,
      Filter.ofMember?, Filter.ofMember?]
    rfl
  patterns := rfl
  depth := rfl
  nested := rfl
  busy := by
    rintro ⟨-, hpredicate⟩
    simp only [FilterEntry.predicate?, ExistenceTest.predicates, htarget] at hpredicate
    cases hpredicate

lemma asks_search (hfeature : c.settings.features.fullText) (hsuits : s.isBaseRow)
    (hsubject : s.entity.fullTextFields ≠ []) :
    search.Asks c s (.object [("query", .text "a")]) (.search { query := "a" }) where
  read := by
    rw [key, FilterEntry.ofDocument?]
    rfl
  patterns := rfl
  depth := rfl
  nested := rfl
  busy := by
    have hfields : Compiler.searchFields? s { query := "a" } =
        some (s.entity.fullTextFields.map Field.name) := by
      simpa [Compiler.searchFields?] using hsubject
    have hquery : Text.isBlankText "a" = false := by decide
    have hplan : ∃ plan, c.planSearch? s { query := "a" } = some plan := by
      simp [Compiler.planSearch?, hfeature, hsuits, hfields, hquery]
    obtain ⟨plan, hplan⟩ := hplan
    rintro ⟨hcollect, -⟩
    simp only [FilterEntry.collect, Compiler.collectOwn, Compiler.collectSearch, hplan] at hcollect
    split at hcollect <;> exact ProjectionSet.insert_ne_empty _ _ hcollect

lemma asks_trunc {f : Field} (hfeature : c.settings.features.dateTrunc) (hsuits : s.isBaseRow)
    (hf : s.entity.field? name = some f) (htemporal : f.kind.isTemporal) :
    (trunc name).Asks c s (.object [("kind", .text "year"), ("filter", .object [])])
      (.trunc ⟨name, .year, {}⟩) where
  read := by
    rw [key, FilterEntry.ofDocument?]
    rfl
  patterns := rfl
  depth := rfl
  nested := rfl
  busy := by
    have hplan : c.planTrunc? s ⟨name, .year, {}⟩ =
        some ⟨.dateTrunc s.path name .year, f.kind⟩ := by
      simp [Compiler.planTrunc?, Compiler.temporalKind?, hfeature, hsuits, hf, htemporal]
    rintro ⟨hcollect, -⟩
    simp only [FilterEntry.collect, Compiler.collectOwn, hplan] at hcollect
    exact ProjectionSet.insert_ne_empty _ _ hcollect

lemma asks_extract {f : Field} (hfeature : c.settings.features.dateExtract) (hsuits : s.isBaseRow)
    (hf : s.entity.field? name = some f) (htemporal : f.kind.isTemporal) :
    (extract name).Asks c s (.object [("part", .text "year"), ("filter", .object [])])
      (.extract ⟨name, .year, {}⟩) where
  read := by
    rw [key, FilterEntry.ofDocument?]
    rfl
  patterns := rfl
  depth := rfl
  nested := rfl
  busy := by
    have hplan : c.planExtract? s ⟨name, .year, {}⟩ =
        some ⟨.dateExtract s.path name .year, .int⟩ := by
      simp [Compiler.planExtract?, Compiler.temporalKind?, hfeature, hsuits, hf, htemporal,
        DatePart.needsTime]
    rintro ⟨hcollect, -⟩
    simp only [FilterEntry.collect, Compiler.collectOwn, hplan] at hcollect
    exact ProjectionSet.insert_ne_empty _ _ hcollect

lemma asks_conditionalAggregate {target : Entity}
    (hfeature : c.settings.features.conditionalAggregation) (hnest : c.canNest s)
    (htarget : c.toMany? s name = some target) :
    (conditionalAggregate name).Asks c s
      (.object [("count", .object []), ("condition", .object [])])
      (.aggregate ⟨name, none, [(.count, {})]⟩
        (some (.node [], (Document.object []).fingerprint))) where
  read := by
    rw [key, FilterEntry.ofDocument?, Filter.ofMember?, Filter.ofMember?,
      Filter.optionalOfDocument?, FilterEntry.ofMembers]
    rfl
  patterns := rfl
  depth := rfl
  nested := rfl
  busy := by
    have hplan (fingerprint : UInt32) :
        c.planAggregate? s ⟨name, none, [(.count, {})]⟩ (some fingerprint) .count =
          some ⟨.conditionalAggregate (s.fullPath name) none .count fingerprint, .int⟩ := by
      simp [Compiler.planAggregate?, hfeature, hnest, htarget, Compiler.aggregateKind,
        AggregateFunction.allowsNoField, AggregateFunction.isCount]
    rintro ⟨hcollect, -⟩
    simp only [FilterEntry.collect, Compiler.collectOwn, Compiler.collectAggregates,
      List.foldl_cons, List.foldl_nil, Option.map_some, hplan] at hcollect
    exact ProjectionSet.insert_ne_empty _ _ hcollect

/-- **Something can be asked for where a feature is granted**, if it suits the scope and there is
something that it works on. -/
theorem Granted.exists_asks {f : Feature} (h : f.Granted c s) (hkeyed : c.catalog.IsKeyed)
    (hs : s.entity ∈ c.catalog.entities.values) (hsuits : f.Suits s)
    (hsubject : f.HasSubject c.catalog s.entity) : ∃ body entry, f.Asks c s body entry := by
  cases h with
  | window hfeature => exact ⟨_, _, asks_window hfeature hsuits⟩
  | subquery hfeature hfollow =>
    obtain ⟨r, hr, hmany, target, htarget, hfields⟩ := hsubject
    obtain ⟨field, hfield⟩ := List.exists_mem_of_ne_nil _ hfields
    have hfield := (hkeyed target (Catalog.mem_values_of_entity? htarget)).field?_name hfield
    have hrelation := Catalog.resolve?_eq_some.mpr ⟨(hkeyed _ hs).relation?_name hr, htarget⟩
    have hrows := Compiler.toMany?_eq_some.mpr ⟨hfollow, r, hrelation, hmany⟩
    exact ⟨_, _, asks_subquery hfeature hrows hfield⟩
  | existence hfeature hfollow =>
    obtain ⟨r, hr, -, target, htarget, -⟩ := hsubject
    have hrelation := Catalog.resolve?_eq_some.mpr ⟨(hkeyed _ hs).relation?_name hr, htarget⟩
    have hrows : c.existenceTarget? s r.name false = some target :=
      Compiler.existenceTarget?_eq_some.mpr ⟨hfeature, hfollow, by simp, r, hrelation⟩
    exact ⟨_, _, asks_existence hrows⟩
  | search hfeature => exact ⟨_, _, asks_search hfeature hsuits hsubject⟩
  | trunc hfeature hf htemporal => exact ⟨_, _, asks_trunc hfeature hsuits hf htemporal⟩
  | extract hfeature hf htemporal => exact ⟨_, _, asks_extract hfeature hsuits hf htemporal⟩
  | conditionalAggregate hfeature hnest htarget =>
    exact ⟨_, _, asks_conditionalAggregate hfeature hnest htarget⟩

/-- Whatever is asked for, a feature takes its levels. -/
lemma levels_le_depth {f : Feature} {entry : FilterEntry} (hkey : entry.key = f.key) :
    f.levels ≤ entry.depth := by
  cases f with
  | conditionalAggregate relation =>
    cases entry with
    | aggregate a condition =>
      cases condition with
      | none => cases hkey
      | some condition => exact Nat.le_add_right 1 _
    | _ => cases hkey
  | _ => exact Nat.zero_le _

end Feature

/-! ## What is offered and what is honoured -/

/-- A schema offers a feature at the end of a chain of keys: the filter there, on an entity of a
name at a depth, has the key of the feature, and it is the feature that stands behind the key. -/
structure FilterSchema.Offers (schema : FilterSchema) (scope : String) (links : List Link)
    (entity : String) (depth : Nat) (f : Feature) : Prop where
  chain : schema.Chain scope links entity depth
  field : ∃ o field, schema.types.get? (filterName scope entity depth) = some o ∧
    o.field? f.key.written = some field ∧ f.IsTypedBy field.type

/-- **What is honoured fits**, and the limits leave room for it. -/
theorem Compiler.fits_of_honours {c : Compiler} {n : String} {e : Entity} {s : Scope}
    {links : List Link} {f : Feature} {body : Document} (he : c.catalog.entity? n = some e)
    (hs : c.through? { entity := e } links = some s) (hlinks : ∀ l ∈ links, l.relation ≠ "")
    (hnamed : f.IsNamed) (h : c.Honours n links f.key.written body) :
    f.Fits links ∧ links.length + f.levels ≤ c.settings.limits.maxDepth ∧
      links.length + 1 ≤ c.settings.limits.maxClauses := by
  obtain ⟨entry, hread, hlimits, hbusy⟩ := (honours_iff he hs hlinks).mp h
  rw [Feature.ofName_written hnamed] at hread
  have hkey := (FilterEntry.readUnder_of_ofDocument? _ _ hread).key_eq
  obtain ⟨-, hdepth, hclauses⟩ := error?_behind_eq_none_iff.mp hlimits
  have hlevels := Feature.levels_le_depth hkey
  refine ⟨?_, by omega, by omega⟩
  by_contra hfits
  exact hbusy (FilterEntry.isIdle_of_not_suits hkey (mt (f.suits_iff_fits hs).mp hfits))

/-- What can be asked for is honoured if the limits leave room for it. -/
lemma Compiler.honours_of_asks {c : Compiler} {n : String} {e : Entity} {s : Scope}
    {links : List Link} {f : Feature} {body : Document} {entry : FilterEntry}
    (he : c.catalog.entity? n = some e) (hs : c.through? { entity := e } links = some s)
    (hlinks : ∀ l ∈ links, l.relation ≠ "") (hnamed : f.IsNamed) (hasks : f.Asks c s body entry)
    (hdepth : links.length + f.levels ≤ c.settings.limits.maxDepth)
    (hclauses : links.length + 1 ≤ c.settings.limits.maxClauses) :
    c.Honours n links f.key.written body := by
  refine (honours_iff he hs hlinks).mpr ⟨entry, ?_, ?_, hasks.busy⟩
  · rw [Feature.ofName_written hnamed]
    exact hasks.read
  · rw [error?_behind_eq_none_iff, hasks.depth, hasks.nested]
    have hpatterns : (Filter.node [(f.key.written, entry)]).patterns = [] := by
      show (entry :: entry.nested ++ []).flatMap FilterEntry.patterns = []
      simp [hasks.nested, hasks.patterns]
    refine ⟨fun x hx => ?_, hdepth, hclauses⟩
    rw [hpatterns] at hx
    exact absurd hx List.not_mem_nil

/-- **Which features are honoured where they are offered**: those that fit the chain of keys in
front of them, as far as the limits leave room for the chain, the key and a condition.  Here keys
are made from names, and the entity has what the feature works on. -/
theorem Compiler.honours_feature_iff {c : Compiler} {n m scope : String} {schema : FilterSchema}
    {links : List Link} {k : Nat} {x : Entity} {f : Feature} (hstored : c.catalog.StoresByName)
    (hschema : (c.language scope).schema? n 0 = some schema)
    (hoffers : schema.Offers scope links m k f) (hx : c.catalog.entity? m = some x)
    (hsubject : f.HasSubject c.catalog x) (hlinks : ∀ l ∈ links, l.relation ≠ "")
    (hnamed : f.IsNamed) :
    (∃ body, c.Honours n links f.key.written body) ↔
      f.Fits links ∧ links.length + f.levels ≤ c.settings.limits.maxDepth ∧
        links.length + 1 ≤ c.settings.limits.maxClauses := by
  obtain ⟨e, he, -⟩ := Option.map_eq_some_iff.mp hschema
  obtain ⟨hchain, o, field, ho, hfield, htype⟩ := hoffers
  obtain ⟨s, hs, rfl, rfl, hentity, hobject⟩ := hchain.exists_scope hstored he hschema hlinks
  obtain rfl := Option.some.inj (ho.symm.trans hobject)
  obtain rfl := Option.some.inj (hx.symm.trans (hstored.entity?_name hentity))
  obtain ⟨offer, hoffered, rfl, hname⟩ := FilterLanguage.exists_offered_of_field? hfield
  have hgranted := hoffered.granted (hstored.parts _ hentity) hnamed hname htype
  constructor
  · rintro ⟨body, hbody⟩
    exact fits_of_honours he hs hlinks hnamed hbody
  · rintro ⟨hfits, hdepth, hclauses⟩
    obtain ⟨body, entry, hasks⟩ := hgranted.exists_asks hstored.parts hentity
      ((f.suits_iff_fits hs).mpr hfits) hsubject
    exact ⟨body, honours_of_asks he hs hlinks hnamed hasks hdepth hclauses⟩

namespace FilterSchema

variable {c : Compiler} (scope : String) {n : String} {e x : Entity} {f : Feature}

/-- A schema offers a feature at its root if the filter there has the key. -/
lemma exists_offers {inner : InputField} (he : c.catalog.entity? n = some e)
    (hkey : ((c.language scope).filterObject e 0).field? f.key.written = some inner)
    (htype : f.IsTypedBy inner.type) :
    ∃ schema, (c.language scope).schema? n 0 = some schema ∧ schema.Offers scope [] e.name 0 f :=
  ⟨_, FilterLanguage.schema?_eq_some he, .root rfl, _, _, FilterLanguage.get?_root, hkey, htype⟩

/-- A schema offers a feature behind the key of a relation if both filters have the key that is
needed. -/
lemma exists_offers_behind {r : Relation} {l : Link} {outer inner : InputField}
    (hstored : c.catalog.StoresByName) (he : c.catalog.entity? n = some e)
    (hr : r ∈ e.relations.values) (htarget : c.catalog.entity? r.target = some x)
    (hdepth : 1 < c.maxDepth)
    (hlink : ((c.language scope).filterObject e 0).field? l.key.written = some outer)
    (hfilter : outer.type = .object (filterName scope x.name 1))
    (hkey : ((c.language scope).filterObject x 1).field? f.key.written = some inner)
    (htype : f.IsTypedBy inner.type) :
    ∃ schema, (c.language scope).schema? n 0 = some schema ∧
      schema.Offers scope [l] x.name 1 f := by
  have hleads : (c.language scope).Leads (e, 0) (x, 1) :=
    ⟨FilterLanguage.filter_mem_needs hr htarget hdepth, rfl⟩
  have hobject := FilterLanguage.get?_of_reaches (hstored.distinct scope)
    (Catalog.mem_values_of_entity? he) (.single hleads)
  have hchain : FilterSchema.Chain
      ⟨(c.language scope).define c.maxDepth e 0 {}, (c.language scope).nameOf e 0⟩ scope
      ([] ++ [l]) x.name 1 := .link l (.root rfl) FilterLanguage.get?_root hlink hfilter
  exact ⟨_, FilterLanguage.schema?_eq_some he, hchain, _, _, hobject, hkey, htype⟩

end FilterSchema

namespace Shop

lemma brand_mem_relations :
    { name := "brand", cardinality := .one, target := "Brand" } ∈ product.relations.values := by
  decide

lemma reviews_mem_relations :
    { name := "reviews", cardinality := .many, target := "Review" } ∈ product.relations.values := by
  decide

/-- A brand has reviews to be looked up. -/
lemma brand_hasSubject : Feature.subquery.HasSubject compiler.catalog brand :=
  ⟨{ name := "reviews", cardinality := .many, target := "Review" }, by decide, rfl, review, rfl,
    by decide⟩

end Shop

/-- What is looked up for the brand of a product is honoured. -/
theorem Compiler.honours_feature_iff_shop :
    ∃ body, Shop.compiler.Honours "Product" [⟨"brand", none⟩] "_subquery" body := by
  obtain ⟨schema, hschema, hoffers⟩ := FilterSchema.exists_offers_behind "" (n := "Product")
    (e := Shop.product) (x := Shop.brand) (l := ⟨"brand", none⟩) (f := .subquery)
    Shop.storesByName rfl Shop.brand_mem_relations rfl (by decide) rfl rfl rfl rfl
  exact (honours_feature_iff Shop.storesByName hschema hoffers (x := Shop.brand) rfl
    Shop.brand_hasSubject (by simp) trivial).mpr ⟨trivial, by decide, by decide⟩

/-! ## What is neglected -/

/-- A schema offers a feature that has something to work on, and nothing under its key is
honoured. -/
def Compiler.Neglects (c : Compiler) (n scope : String) (links : List Link) (m : String) (k : Nat)
    (f : Feature) : Prop :=
  ∃ schema x, (c.language scope).schema? n 0 = some schema ∧ schema.Offers scope links m k f ∧
    c.catalog.entity? m = some x ∧ f.HasSubject c.catalog x ∧
    ∀ body, ¬c.Honours n links f.key.written body

namespace Shop

/-- The brand of a product is not ranked. -/
lemma neglects_window : compiler.Neglects "Product" "" [⟨"brand", none⟩] "Brand" 1 .window := by
  obtain ⟨schema, hschema, hoffers⟩ := FilterSchema.exists_offers_behind "" (n := "Product")
    (e := product) (x := brand) (l := ⟨"brand", none⟩) (f := .window) storesByName rfl
    brand_mem_relations rfl (by decide) rfl rfl rfl rfl
  refine ⟨schema, _, hschema, hoffers, rfl, trivial, fun body hbody => ?_⟩
  have hfits := (Compiler.fits_of_honours (e := product) (f := .window) rfl rfl (by simp) trivial
    hbody).1
  exact absurd hfits (List.cons_ne_nil _ _)

/-- The reviews of a product are not searched. -/
lemma neglects_search :
    compiler.Neglects "Product" "" [⟨"reviews", some .some⟩] "Review" 1 .search := by
  obtain ⟨schema, hschema, hoffers⟩ := FilterSchema.exists_offers_behind "" (n := "Product")
    (e := product) (x := review) (l := ⟨"reviews", some .some⟩) (f := .search) storesByName rfl
    reviews_mem_relations rfl (by decide) rfl rfl rfl rfl
  refine ⟨schema, _, hschema, hoffers, rfl, List.cons_ne_nil _ _, fun body hbody => ?_⟩
  have hfits := (Compiler.fits_of_honours (e := product) (f := .search) rfl rfl (by simp) trivial
    hbody).1
  exact absurd (hfits _ List.mem_cons_self) nofun

/-- The shop, with limits that no nested filter keeps. -/
def flatCompiler : Compiler :=
  { compiler with settings := { features := .all, limits := { maxDepth := 0 } } }

/-- Nothing is looked up for the brand of a product where filters may not nest. -/
lemma neglects_subquery :
    flatCompiler.Neglects "Product" "" [⟨"brand", none⟩] "Brand" 1 .subquery := by
  obtain ⟨schema, hschema, hoffers⟩ := FilterSchema.exists_offers_behind "" (n := "Product")
    (e := product) (x := brand) (l := ⟨"brand", none⟩) (f := .subquery) storesByName rfl
    brand_mem_relations rfl (by decide) rfl rfl rfl rfl
  refine ⟨schema, _, hschema, hoffers, rfl, brand_hasSubject, fun body hbody => ?_⟩
  have hroom := (Compiler.fits_of_honours (e := product) (f := .subquery) rfl rfl (by simp) trivial
    hbody).2.1
  exact absurd hroom (by decide)

end Shop

/-! Two diaries, of notes with a day. -/

namespace Diary

/-- A day without a name is not taken apart: its key is that of another field. -/
lemma neglects_nameless :
    (compiler "" { name := "", kind := .date }).Neglects "Note" "" [] "Note" 0 (.trunc "") := by
  obtain ⟨schema, hschema, hoffers⟩ := FilterSchema.exists_offers ""
    (c := compiler "" { name := "", kind := .date }) (n := "Note") (f := .trunc "") rfl rfl
    ⟨.date, rfl⟩
  refine ⟨schema, _, hschema, hoffers, rfl, trivial, fun body hbody => ?_⟩
  obtain ⟨entry, hread, -, hbusy⟩ := (Compiler.honours_iff rfl rfl (by simp)).mp hbody
  have hfield : FilterKey.ofName (Feature.trunc "").key.written = .field "_trunc" := by decide
  rw [hfield, FilterEntry.ofDocument?] at hread
  obtain rfl := Option.some.inj hread
  exact hbusy ⟨rfl, rfl⟩

/-- A day that is stored under another name than its own is not found. -/
lemma neglects_misplaced :
    (compiler "on" { name := "day", kind := .date }).Neglects "Note" "" [] "Note" 0
      (.trunc "day") := by
  obtain ⟨schema, hschema, hoffers⟩ := FilterSchema.exists_offers ""
    (c := compiler "on" { name := "day", kind := .date }) (n := "Note") (f := .trunc "day") rfl rfl
    ⟨.date, rfl⟩
  refine ⟨schema, _, hschema, hoffers, rfl, trivial, fun body hbody => ?_⟩
  obtain ⟨entry, hread, -, hbusy⟩ := (Compiler.honours_iff rfl rfl (by simp)).mp hbody
  have hkey : FilterKey.ofName (Feature.trunc "day").key.written = .trunc "day" := by decide
  rw [hkey, FilterEntry.ofDocument?] at hread
  obtain ⟨t, ht, rfl⟩ := Option.map_eq_some_iff.mp hread
  obtain ⟨field, kind, filter⟩ := t
  obtain rfl : field = "day" := TruncFilter.field_of_ofDocument? ht
  exact hbusy ⟨rfl, rfl⟩

end Diary

/-- Not every feature that is offered is honoured: the chain of keys, the limits, a missing name and
a name that is not that of its place can each be in the way. -/
theorem Compiler.neglects_offered_features :
    Shop.compiler.Neglects "Product" "" [⟨"brand", none⟩] "Brand" 1 .window ∧
      Shop.compiler.Neglects "Product" "" [⟨"reviews", some .some⟩] "Review" 1 .search ∧
      Shop.flatCompiler.Neglects "Product" "" [⟨"brand", none⟩] "Brand" 1 .subquery ∧
      (Diary.compiler "" { name := "", kind := .date }).Neglects "Note" "" [] "Note" 0
        (.trunc "") ∧
      (Diary.compiler "on" { name := "day", kind := .date }).Neglects "Note" "" [] "Note" 0
        (.trunc "day") :=
  ⟨Shop.neglects_window, Shop.neglects_search, Shop.neglects_subquery, Diary.neglects_nameless,
    Diary.neglects_misplaced⟩

end EntityFilter
