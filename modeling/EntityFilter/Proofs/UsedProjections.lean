import EntityFilter.Proofs.AppliedLeaves
import EntityFilter.Proofs.LeafReads

/-!
# Which projections are used

The first phase of compilation collects a projection once its plan succeeds, without a look at the
leaf on it.  The second phase makes a test only if the leaf has an operator that the kind of the
projection takes, with an operand of its shape; and a search makes none unless its document and its
rank have both been collected.  So a projection can be collected that nothing reads, as by an empty
leaf under `reviews_count` (`Compiler.projections_not_all_used`).

`Compiler.uses_iff_constrained` says which projections are read by the predicate of a compiled
filter: those whose key is constrained by a visited entry (`Visit.Constrains`).
-/

namespace EntityFilter

open Predicate

/-! ## Projections that are read -/

namespace CompiledFilter

/-- Some test reads the projection, as a value or as the document of a search. -/
def RefersTo (f : CompiledFilter) (p : Projection) : Prop :=
  ∃ q, f.predicate = some q ∧ ∃ t ∈ q.tests .root, ∃ h, .projection h ∈ t.2.sources ∧
    f.projections.get? h = some p

/-- Some test reads the projection, or it is the document of a rank that some test reads. -/
def Uses (f : CompiledFilter) (p : Projection) : Prop :=
  f.RefersTo p ∨ ∃ rank, f.RefersTo rank ∧ ∃ h query mode config,
    rank.expr = .searchRank h query mode config ∧ f.projections.get? h = some p

end CompiledFilter

/-- A leaf has an operator that the kind of a projection takes, with an operand of its shape, and
the operator does not constrain a number that would have to be read off the value. -/
def Leaf.Constrains (l : Leaf) (kind : FieldKind) : Prop :=
  ∃ name operand cond, (name, operand) ∈ l.operators.entries ∧
    Condition.ofOperator? kind.family name operand = some cond ∧
    cond.info.operator.readsNumber = false

/-- A visited entry constrains the projection of a key. -/
inductive Visit.Constrains (c : Compiler) (set : ProjectionSet) (v : Visit) :
    ProjectionKey → Prop where
  /-- By a leaf on what it has planned. -/
  | leaf {plan : Plan} {l : Leaf} : (plan, l) ∈ v.planned c → l.Constrains plan.kind →
      Constrains c set v plan.key
  /-- By a search, unless the rank of the search is asked for and has not been collected. -/
  | vector {search : SearchFilter} {plan : SearchPlan} : v.entry = .search search →
      c.planSearch? v.scope search = some plan →
      (∀ rank, plan.rank = some rank → ∃ p ∈ set.toList, p.key = rank) →
      Constrains c set v plan.vector
  /-- By the rank of a search, unless its document has not been collected. -/
  | rank {search : SearchFilter} {plan : SearchPlan} {rank : ProjectionKey} :
      v.entry = .search search → c.planSearch? v.scope search = some plan →
      (∃ p ∈ set.toList, p.key = plan.vector) → plan.rank = some rank →
      Constrains c set v rank

/-! ## Leaves on projections -/

/-- **A leaf on a projection reads it exactly if it constrains it.** -/
theorem Leaf.reads_projection_iff {l : Leaf} {handle : ProjectionHandle} {kind : FieldKind}
    {now : Instant} {path : RelationPath} :
    (∃ q, l.predicate? (.projection handle) kind now = some q ∧
      ∃ t ∈ q.tests path, .projection handle ∈ t.2.sources) ↔ l.Constrains kind := by
  constructor
  · rintro ⟨q, hq, t, ht, -⟩
    obtain ⟨cond, hcond, q', hq', -⟩ := Leaf.mem_tests_iff.mp ⟨q, hq, ht⟩
    obtain ⟨⟨name, operand⟩, hm, hof⟩ := List.mem_filterMap.mp hcond
    have hsome : (cond.predicate? (.projection handle) kind now).isSome := by rw [hq']; rfl
    exact ⟨name, operand, cond, hm, hof, (Condition.isSome_predicate?_projection hof).mp hsome⟩
  · rintro ⟨name, operand, cond, hm, hof, hop⟩
    obtain ⟨q', hq'⟩ : ∃ q', cond.predicate? (.projection handle) kind now = some q' :=
      Option.isSome_iff_exists.mp ((Condition.isSome_predicate?_projection hof).mpr hop)
    obtain ⟨t, ht⟩ : ∃ t, t ∈ q'.tests path :=
      List.exists_mem_of_ne_nil _ (Condition.tests_ne_nil hq')
    have hcond : cond ∈ l.conditions kind.family :=
      List.mem_filterMap.mpr ⟨(name, operand), hm, hof⟩
    obtain ⟨q, hq, ht⟩ := Leaf.mem_tests_iff.mpr ⟨cond, hcond, q', hq', ht⟩
    have hsources := (Leaf.readsAt_of_predicate? path hq t ht).2
    exact ⟨q, hq, t, ht, by rw [hsources]; exact List.mem_cons_self⟩

/-! ## Entries -/

section

variable {c : Compiler} {v : Visit} {requests : List Projection} {p : Projection}
  {key : ProjectionKey} {h : ProjectionHandle}

/-- What is planned is asked for. -/
lemma Visit.exists_mem_asks {plan : Plan} {l : Leaf} (hm : (plan, l) ∈ v.planned c) :
    ∃ expr, (plan, expr) ∈ v.asks c := by
  unfold Visit.asks
  cases Visit.mem_planned_iff.mp hm with
  | window hentry hitem hplan | subquery hentry hitem hplan | aggregate hentry hitem hplan =>
    rw [hentry]
    exact ⟨_, List.mem_filterMap.mpr ⟨_, hitem, by simp only [hplan]; rfl⟩⟩
  | trunc hentry hplan | extract hentry hplan =>
    rw [hentry]
    exact ⟨_, Option.mem_toList.mpr (by rw [hplan]; rfl)⟩
  | count hentry hreal hplan =>
    rw [hentry, FilterEntry.asks, if_neg hreal]
    exact ⟨_, Option.mem_toList.mpr (by rw [hplan]; rfl)⟩

/-- Only a search asks for a rank. -/
lemma Visit.key_ne_searchRank {plan : Plan} {l : Leaf} (hm : (plan, l) ∈ v.planned c)
    {path : RelationPath} {query : String} {mode : SearchMode} :
    plan.key ≠ .searchRank path query mode := by
  obtain ⟨expr, hasks⟩ := Visit.exists_mem_asks hm
  intro hkey
  have hplans : v.Plans c .empty plan.key expr := Visit.plans_of_mem_asks hasks
  rw [hkey] at hplans
  cases hplans with
  | searchRank hentry => simp [Visit.asks, FilterEntry.asks, hentry] at hasks

namespace ProjectionSet

/-- A key is found exactly if the set has a projection of the key. -/
lemma isSome_lookup?_iff_mem :
    ((ofRequests requests).lookup? key).isSome ↔
      ∃ p ∈ (ofRequests requests).toList, p.key = key := by
  constructor
  · intro hsome
    obtain ⟨h, hh⟩ := Option.isSome_iff_exists.mp hsome
    obtain ⟨p, hget, hkey, -⟩ := get?_of_lookup? hh
    exact ⟨p, List.mem_of_getElem? hget, hkey⟩
  · rintro ⟨p, hp, rfl⟩
    obtain ⟨h, hh, -⟩ := exists_lookup?_of_mem hp
    rw [hh]
    rfl

/-- The projection that a handle of a key denotes has the key. -/
lemma key_eq_of_lookup? {set : ProjectionSet} (hk : set.lookup? key = some h)
    (hget : set.get? h = some p) : p.key = key := by
  obtain ⟨p', hget', hkey, -⟩ := get?_of_lookup? hk
  rw [hget] at hget'
  rw [Option.some.inj hget', hkey]

end ProjectionSet

open ProjectionSet

/-- **An entry reads a projection exactly if it constrains its key.** -/
theorem Visit.reads_iff_constrains (hp : p ∈ (ofRequests requests).toList) :
    (∃ t ∈ v.tests c (ofRequests requests), ∃ h, .projection h ∈ t.2.sources ∧
        (ofRequests requests).get? h = some p) ↔ v.Constrains c (ofRequests requests) p.key := by
  constructor
  · rintro ⟨t, ht, h, hh, hget⟩
    cases Visit.mem_tests_iff.mp ht with
    | @leaf l path o kind q _ happlies hq ht =>
      have hsources := (Leaf.readsAt_of_predicate? path hq t ht).2
      rw [hsources, List.mem_singleton] at hh
      cases happlies with
      | projection hm hhandle =>
        obtain rfl := Source.projection.inj hh
        rw [key_eq_of_lookup? hhandle hget]
        have hread : .projection h ∈ t.2.sources := by
          rw [hsources]
          exact List.mem_cons_self
        exact .leaf hm (Leaf.reads_projection_iff.mp ⟨q, hq, t, ht, hread⟩)
      | _ => simp [Operand.source] at hh
    | quick | comparison => simp [Predicate.sources, Operand.source] at hh
    | search hentry hplan hvector hrank =>
      obtain rfl := Source.projection.inj (List.mem_singleton.mp hh)
      rw [key_eq_of_lookup? hvector hget]
      exact .vector hentry hplan fun rank hasked => isSome_lookup?_iff_mem.mp (hrank rank hasked)
    | rank hentry hplan hvector hrank _ hhandle =>
      obtain rfl := Source.projection.inj (List.mem_singleton.mp hh)
      rw [key_eq_of_lookup? hhandle hget]
      refine .rank hentry hplan (isSome_lookup?_iff_mem.mp ?_) hrank
      rw [hvector]
      rfl
  · intro hconstrains
    obtain ⟨h, hh, hget⟩ := exists_lookup?_of_mem hp
    generalize hkey : p.key = key at hconstrains
    rw [hkey] at hh
    cases hconstrains with
    | leaf hm hl =>
      obtain ⟨q, hq, t, ht, hsource⟩ := Leaf.reads_projection_iff.mpr hl
      exact ⟨t, Visit.mem_tests_of_applies (.projection hm hh) hq ht, h, hsource, hget⟩
    | vector hentry hplan hrank =>
      have hcollected := fun rank hasked => isSome_lookup?_iff_mem.mpr (hrank rank hasked)
      exact ⟨_, Visit.mem_tests_iff.mpr (.search hentry hplan hh hcollected), h,
        List.mem_singleton.mpr rfl, hget⟩
    | @rank search plan _ hentry hplan hvector hrank =>
      obtain ⟨vector, hvector⟩ := Option.isSome_iff_exists.mp (isSome_lookup?_iff_mem.mpr hvector)
      obtain ⟨-, hplanned, -, -⟩ := Compiler.planSearch?_eq_some hplan
      rw [hrank] at hplanned
      obtain ⟨least, hleast, -⟩ := Option.map_eq_some_iff.mp hplanned.symm
      exact ⟨_, Visit.mem_tests_iff.mpr (.rank hentry hplan hvector hrank hleast hh), h,
        List.mem_singleton.mpr rfl, hget⟩

end

/-! ## Compiled filters -/

namespace Compiler

variable {c : Compiler} {f : Filter} {e : Entity} {p rank : Projection}

/-- The predicate of a filter reads what its entries constrain. -/
lemma refersTo_iff (hp : p ∈ (c.projections f e).toList) :
    (⟨c.projections f e, c.predicate? f e (c.projections f e)⟩ : CompiledFilter).RefersTo p ↔
      ∃ v ∈ f.visits c { entity := e }, v.Constrains c (c.projections f e) p.key := by
  have hreads : ∀ v : Visit, (∃ t ∈ v.tests c (c.projections f e), ∃ h,
      .projection h ∈ t.2.sources ∧ (c.projections f e).get? h = some p) ↔
        v.Constrains c (c.projections f e) p.key := by
    intro v
    rw [projections_eq_requests] at hp ⊢
    exact Visit.reads_iff_constrains hp
  constructor
  · rintro ⟨q, hq, t, ht, h, hh, hget⟩
    have hkeys : ¬IncludesKeys t := by
      rintro ⟨path, values, hkeys⟩
      rw [hkeys] at hh
      simp [Predicate.sources, Operand.source] at hh
    obtain ⟨v, hv, ht⟩ := (Filter.mem_tests_iff hkeys).mp (mem_testsOfAll_toList.mpr ⟨q, hq, ht⟩)
    exact ⟨v, hv, (hreads v).mp ⟨t, ht, h, hh, hget⟩⟩
  · rintro ⟨v, hv, hconstrains⟩
    obtain ⟨t, ht, h, hh, hget⟩ := (hreads v).mpr hconstrains
    obtain ⟨q, hq, ht⟩ := mem_testsOfAll_toList.mp (Filter.tests_subset f hv ht)
    exact ⟨q, hq, t, ht, h, hh, hget⟩

/-- A rank is constrained by a search whose document has been collected. -/
lemma search_of_constrains {set : ProjectionSet} {v : Visit} {path : RelationPath}
    {query : String} {mode : SearchMode} (h : v.Constrains c set (.searchRank path query mode)) :
    ∃ search plan, v.entry = .search search ∧ c.planSearch? v.scope search = some plan ∧
      (∃ p ∈ set.toList, p.key = plan.vector) ∧
      plan.rank = some (.searchRank path query mode) := by
  generalize hkey : ProjectionKey.searchRank path query mode = key at h
  cases h with
  | leaf hm => exact absurd hkey.symm (Visit.key_ne_searchRank hm)
  | vector hentry hplan =>
    obtain ⟨hvector, -⟩ := planSearch?_eq_some hplan
    rw [hvector] at hkey
    simp at hkey
  | rank hentry hplan hvector hrank => exact ⟨_, _, hentry, hplan, hvector, hrank⟩

/-- The document of a rank that is constrained is constrained by the same search: there is one
document for the rows of a scope. -/
lemma constrains_vector {v : Visit} {h : ProjectionHandle} {query : String} {mode : SearchMode}
    {config : String} (hrank : rank ∈ (c.projections f e).toList)
    (hconstrains : v.Constrains c (c.projections f e) rank.key)
    (hexpr : rank.expr = .searchRank h query mode config)
    (hget : (c.projections f e).get? h = some p) :
    v.Constrains c (c.projections f e) p.key := by
  have hmem := hrank
  have hp : p ∈ (c.projections f e).toList := List.mem_of_getElem? hget
  rw [projections_eq_requests] at hmem
  obtain ⟨w, -, hw⟩ := List.mem_flatMap.mp (ProjectionSet.mem_of_mem_toList_ofRequests hmem)
  have hplans := Visit.plans_of_mem_requests hw
  rw [hexpr] at hplans
  generalize hkey : rank.key = key at hplans hconstrains
  cases hplans with
  | @searchRank search fields _ _ hentry hfeature hvector =>
    have hpkey := ProjectionSet.key_eq_of_lookup? hvector hget
    obtain ⟨search', plan, hentry', hplan, ⟨d, hd, hdkey⟩, hasked⟩ :=
      search_of_constrains hconstrains
    obtain ⟨hplanned, hplanned', -, -⟩ := planSearch?_eq_some hplan
    -- the rank has the path of its rows, so both documents stand under one name
    rw [hasked] at hplanned'
    obtain ⟨_, -, hrankkey⟩ := Option.map_eq_some_iff.mp hplanned'.symm
    obtain ⟨hpath, -, -⟩ := ProjectionKey.searchRank.inj hrankkey
    have hname : d.key.name = p.key.name := by
      rw [hdkey, hpkey, hplanned, hpath]
      rfl
    rw [projections_eq_requests] at hp hd
    obtain ⟨_, hlookup, -⟩ := ProjectionSet.exists_lookup?_of_mem hp
    obtain ⟨_, hlookup', -⟩ := ProjectionSet.exists_lookup?_of_mem hd
    obtain ⟨hsame, -⟩ := ProjectionSet.lookup?_unique hname hlookup' hlookup
    rw [← hsame, hdkey]
    refine .vector hentry' hplan fun rank' hrank' => ⟨rank, hrank, ?_⟩
    rw [hkey]
    exact Option.some.inj (hasked.symm.trans hrank')

/-- **A projection is used exactly if a visited entry constrains its key.** -/
theorem uses_iff_constrained {n : String} {compiled : CompiledFilter}
    (h : c.compile f n = .ok compiled) (hp : p ∈ compiled.projections.toList) :
    compiled.Uses p ↔ ∃ e, c.catalog.entity? n = some e ∧
      ∃ v ∈ f.visits c { entity := e }, v.Constrains c compiled.projections p.key := by
  obtain ⟨e, he, -, rfl⟩ := compile_eq_ok_iff.mp h
  constructor
  · rintro (hrefers | ⟨rank, hrefers, handle, query, mode, config, hexpr, hget⟩)
    · exact ⟨e, he, (refersTo_iff hp).mp hrefers⟩
    · obtain ⟨q, hq, t, ht, h, hh, hrank⟩ := hrefers
      have hmem : rank ∈ (c.projections f e).toList := List.mem_of_getElem? hrank
      obtain ⟨v, hv, hconstrains⟩ := (refersTo_iff hmem).mp ⟨q, hq, t, ht, h, hh, hrank⟩
      exact ⟨e, he, v, hv, constrains_vector hmem hconstrains hexpr hget⟩
  · rintro ⟨e', he', hconstrained⟩
    obtain rfl := Option.some.inj (he.symm.trans he')
    exact .inl ((refersTo_iff hp).mpr hconstrained)

end Compiler

namespace Shop

/-- The number of reviews under a leaf. -/
def countedReviews (l : Leaf) : Filter := .node [("reviews_count", .count "reviews" l)]

/-- The number of reviews of a product. -/
def reviewsCount : Projection :=
  { key := .count (.single "reviews"), expr := .count (.single "reviews") }

lemma compile_countedReviews {l : Leaf}
    (h : compiler.settings.limits.error? (countedReviews l) = none) :
    compiler.compile (countedReviews l) "Product" =
      .ok ⟨compiler.projections (countedReviews l) product,
        compiler.predicate? (countedReviews l) product
          (compiler.projections (countedReviews l) product)⟩ :=
  Compiler.compile_eq_ok rfl h

end Shop

theorem Compiler.uses_iff_constrained_reviews :
    ∃ compiled, Shop.compiler.compile (Shop.countedReviews (Shop.leaf "gte" (.int 1))) "Product" =
        .ok compiled ∧
      Shop.reviewsCount ∈ compiled.projections.toList ∧ compiled.Uses Shop.reviewsCount := by
  have hlimits : Shop.compiler.settings.limits.error?
      (Shop.countedReviews (Shop.leaf "gte" (.int 1))) = none := by decide +kernel
  have h := Shop.compile_countedReviews hlimits
  refine ⟨_, h, List.mem_singleton.mpr rfl, ?_⟩
  have hplanned : (⟨.count (.single "reviews"), .int⟩, Shop.leaf "gte" (.int 1)) ∈
      Visit.planned Shop.compiler ⟨{ entity := Shop.product }, "reviews_count",
        .count "reviews" (Shop.leaf "gte" (.int 1))⟩ := List.mem_singleton.mpr rfl
  have hleaf : (Shop.leaf "gte" (.int 1)).Constrains .int :=
    ⟨"gte", .int 1, _, List.mem_singleton.mpr rfl, rfl, rfl⟩
  exact (Compiler.uses_iff_constrained h (List.mem_singleton.mpr rfl)).mpr
    ⟨Shop.product, rfl, _, List.mem_singleton.mpr rfl, .leaf hplanned hleaf⟩

/-- A projection that is collected need not be used: a leaf without operators says nothing. -/
theorem Compiler.projections_not_all_used :
    ¬∀ (c : Compiler) (f : Filter) (n : String) (compiled : CompiledFilter),
      c.compile f n = .ok compiled → ∀ p ∈ compiled.projections.toList, compiled.Uses p := by
  intro hclaim
  have hlimits : Shop.compiler.settings.limits.error?
      (Shop.countedReviews ⟨.ofList []⟩) = none := by decide +kernel
  have h := Shop.compile_countedReviews hlimits
  have huses := hclaim _ _ _ _ h Shop.reviewsCount (List.mem_singleton.mpr rfl)
  have hnone : Shop.compiler.predicate? (Shop.countedReviews ⟨.ofList []⟩) Shop.product
      (Shop.compiler.projections (Shop.countedReviews ⟨.ofList []⟩) Shop.product) = none := rfl
  rcases huses with ⟨q, hq, -⟩ | ⟨rank, ⟨q, hq, -⟩, -⟩
  · exact absurd (hnone.symm.trans hq) (by simp)
  · exact absurd (hnone.symm.trans hq) (by simp)

end EntityFilter
