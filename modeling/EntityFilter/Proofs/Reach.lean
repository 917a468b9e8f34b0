import EntityFilter.Proofs.Plans
import EntityFilter.Proofs.Tests

/-!
# How far a compiled filter reaches

The settings bound the number of relations that may be followed one after the other, and catalogs
may be cyclic, so the bound is all that keeps a filter from following relations for ever.
Compilation checks it in several places: some ask whether a relation may be followed at all, others
whether a filter may stand behind it.  What they have in common is the depth of the scope, which is
the length of the path that has been followed (`Scope.depth`), and every step of the walk leads to a
scope whose depth is below the bound (`Compiler.Steps.depth_lt`).

`Predicate.trails` lists the paths that a predicate follows: one to each source that a test reads
from and one to the rows of each existence test, relations of the existence tests around it
included.  `Projection.trails` does the same for what is computed beforehand.
`Compiler.trails_le_maxDepth` says that no such path is longer than the bound, and that nothing in a
compiled filter mentions a relation if the bound is zero.
-/

namespace EntityFilter

/-! ## The paths that are followed -/

/-- The relations in front of a source.  A projection is stored in the row itself. -/
def Source.relations : Source → RelationPath
  | field path => ⟨path.relations⟩
  | projection _ => .root

namespace Predicate

mutual

/-- The paths that a predicate follows, on rows to which the given path leads. -/
def trails (path : RelationPath) : Predicate → List RelationPath
  | all ps | any ps => trailsOfAll path ps
  | negation p => trails path p
  | existence relation _ none => [path ++ relation]
  | existence relation _ (some p) => (path ++ relation) :: trails (path ++ relation) p
  | p => p.sources.map fun source => path ++ source.relations

def trailsOfAll (path : RelationPath) : List Predicate → List RelationPath
  | [] => []
  | p :: ps => trails path p ++ trailsOfAll path ps

end

mutual

/-- Whether a predicate tests for related rows or reads behind a relation. -/
def mentionsRelation : Predicate → Bool
  | all ps | any ps => mentionsRelationAny ps
  | negation p => mentionsRelation p
  | existence _ _ _ => true
  | p => p.sources.any fun source => !source.relations.isEmpty

def mentionsRelationAny : List Predicate → Bool
  | [] => false
  | p :: ps => mentionsRelation p || mentionsRelationAny ps

end

end Predicate

namespace ProjectionExpr

/-- The paths that are followed to compute an expression, on rows to which the given path leads.
The predicate of an aggregate is tested on the rows that are aggregated. -/
def trails (path : RelationPath) : ProjectionExpr → List RelationPath
  | aggregate _ relation _ none | count relation | subquery relation _ _ => [path ++ relation]
  | aggregate _ relation _ (some p) => (path ++ relation) :: p.trails (path ++ relation)
  | dateTrunc field _ | dateExtract field _ => [path ++ (Source.field field).relations]
  | searchVector fields _ => fields.map fun field => path ++ (Source.field field).relations
  | window _ _ | searchRank _ _ _ _ => [path]

/-- Whether an expression ranges over related rows or reads behind a relation. -/
def mentionsRelation : ProjectionExpr → Bool
  | aggregate _ _ _ _ | count _ | subquery _ _ _ => true
  | dateTrunc field _ | dateExtract field _ => !field.relations.isEmpty
  | searchVector fields _ => fields.any fun field => !field.relations.isEmpty
  | window _ _ | searchRank _ _ _ _ => false

end ProjectionExpr

/-- The relations in a key. -/
def ProjectionKey.relations : ProjectionKey → RelationPath
  | aggregate relation _ _ | conditionalAggregate relation _ _ _ | count relation
  | subquery relation _ _ => relation
  | window path _ _ | dateTrunc path _ _ | dateExtract path _ _ | searchVector path _ _
  | searchRank path _ _ => path

namespace Projection

/-- The paths that are followed to compute a projection, from the rows of the filtered entity. -/
def trails (p : Projection) : List RelationPath := p.expr.trails p.scope

/-- Whether a projection mentions a relation: in its key, in its scope or in its expression. -/
def mentionsRelation (p : Projection) : Bool :=
  !p.key.relations.isEmpty || !p.scope.isEmpty || p.expr.mentionsRelation

end Projection

namespace RelationPath

lemma length_append (p q : RelationPath) : (p ++ q).length = p.length + q.length :=
  List.length_append

lemma length_join (p : RelationPath) (relation : String) :
    (p.join relation).length = p.length + 1 := by
  show (p.segments ++ [relation]).length = _
  rw [List.length_append]
  rfl

end RelationPath

/-! ## Looking through the connectives -/

namespace Predicate

variable {path : RelationPath} {bound : Nat} {p : Predicate}

lemma mem_trailsOfAll {ps : List Predicate} {trail : RelationPath} :
    trail ∈ trailsOfAll path ps ↔ ∃ p ∈ ps, trail ∈ p.trails path := by
  induction ps with
  | nil => simp [trailsOfAll]
  | cons p ps ih => simp [trailsOfAll, ih]

lemma mentionsRelationAny_eq_false {ps : List Predicate} :
    mentionsRelationAny ps = false ↔ ∀ p ∈ ps, p.mentionsRelation = false := by
  induction ps with
  | nil => simp [mentionsRelationAny]
  | cons p ps ih => simp [mentionsRelationAny, ih]

/-- On rows to which the given path leads, no path that the predicate follows is longer than the
bound, and if the bound is zero, the predicate mentions no relation. -/
structure Within (bound : Nat) (path : RelationPath) (p : Predicate) : Prop where
  length_le : ∀ trail ∈ p.trails path, trail.length ≤ bound
  plain : bound = 0 → p.mentionsRelation = false

lemma within_all {ps : List Predicate} :
    Within bound path (.all ps) ↔ ∀ p ∈ ps, Within bound path p := by
  constructor
  · intro h p hp
    exact ⟨fun t ht => h.length_le t (mem_trailsOfAll.mpr ⟨p, hp, ht⟩),
      fun h0 => mentionsRelationAny_eq_false.mp (h.plain h0) p hp⟩
  · intro h
    refine ⟨fun t ht => ?_, fun h0 =>
      mentionsRelationAny_eq_false.mpr fun p hp => (h p hp).plain h0⟩
    obtain ⟨p, hp, ht⟩ := mem_trailsOfAll.mp ht
    exact (h p hp).length_le t ht

lemma local_within (bound : Nat) (path : RelationPath) : Local (Within bound path) where
  all _ := within_all
  any _ := Iff.trans ⟨fun h => ⟨h.length_le, h.plain⟩, fun h => ⟨h.length_le, h.plain⟩⟩ within_all
  negation _ := ⟨fun h => ⟨h.length_le, h.plain⟩, fun h => ⟨h.length_le, h.plain⟩⟩

/-- A single test follows the paths to its sources. -/
lemma trails_of_sources (hp : p.sources ≠ []) :
    p.trails path = p.sources.map fun source => path ++ source.relations := by
  cases p with
  | existence | all | any | negation => simp [sources] at hp
  | _ => rfl

lemma within_of_sources (hp : p.sources ≠ [])
    (h : ∀ source ∈ p.sources, path.length + source.relations.length ≤ bound) :
    p.Within bound path := by
  have hplain : ∀ source ∈ p.sources, bound = 0 → source.relations.isEmpty := by
    intro source hsource h0
    have hlength := h source hsource
    have hnil : source.relations.segments.length = 0 := by
      show source.relations.length = 0
      omega
    simpa [RelationPath.isEmpty] using hnil
  have hmentions : p.mentionsRelation = p.sources.any fun source => !source.relations.isEmpty := by
    cases p with
    | existence | all | any | negation => simp [sources] at hp
    | _ => rfl
  constructor
  · intro trail ht
    rw [trails_of_sources hp] at ht
    obtain ⟨source, hsource, rfl⟩ := List.mem_map.mp ht
    rw [RelationPath.length_append]
    exact h source hsource
  · intro h0
    rw [hmentions, List.any_eq_false]
    intro source hsource
    simp [hplain source hsource h0]

/-- Rows at the end of a path, with or without a predicate on them. -/
lemma within_existence {relation : RelationPath} {entity : String} {p : Option Predicate}
    (hpath : path.length + relation.length ≤ bound) (h0 : 0 < relation.length)
    (hp : ∀ q, p = some q → q.Within bound (path ++ relation)) :
    (existence relation entity p).Within bound path := by
  have hrows : (path ++ relation).length ≤ bound := by
    rw [RelationPath.length_append]
    exact hpath
  constructor
  · intro trail ht
    cases p with
    | none =>
      obtain rfl := List.mem_singleton.mp ht
      exact hrows
    | some q =>
      rcases List.mem_cons.mp ht with rfl | ht
      · exact hrows
      · exact (hp q rfl).length_le trail ht
  · intro hzero
    omega

end Predicate

/-! ## The depth of a scope -/

namespace Scope

variable {s : Scope} {name : String} {target : Entity}

lemma depth_eq (s : Scope) : s.depth = s.rows.length + s.joined.length :=
  RelationPath.length_append _ _

lemma length_relationPath (s : Scope) (name : String) :
    (s.relationPath name).length = s.joined.length + 1 :=
  RelationPath.length_join _ _

lemma depth_join : (s.join name target).depth = s.depth + 1 := by
  have h := RelationPath.length_join s.joined name
  rw [depth_eq, depth_eq]
  show s.rows.length + (s.joined.join name).length = _
  omega

lemma depth_enter : (s.enter name target).depth = s.depth + 1 := by
  rw [depth_eq]
  exact RelationPath.length_join s.path name

end Scope

namespace Compiler

variable {c : Compiler} {s inner : Scope} {name : String}

lemma depth_lt_of_canFollow (h : c.canFollow s) : s.depth < c.maxDepth := of_decide_eq_true h

/-- A step leads to a scope from which relations may still be followed. -/
lemma Steps.depth_lt (h : c.Steps s inner) : inner.depth < c.maxDepth := by
  cases h with
  | join hn =>
    rw [Scope.depth_join]
    exact of_decide_eq_true hn
  | enter hn =>
    rw [Scope.depth_enter]
    exact of_decide_eq_true hn

/-- **The walk keeps within the bound.** -/
theorem depth_le_of_mem_visits {f : Filter} {v : Visit} (hs : s.depth ≤ c.maxDepth)
    (hv : v ∈ f.visits c s) : v.scope.depth ≤ c.maxDepth :=
  f.scope_of_mem_visits (P := fun s => s.depth ≤ c.maxDepth) hs
    (fun _ _ _ _ ho => Nat.le_of_lt (Visit.steps_of_opens ho).depth_lt) v hv

end Compiler

/-! ## Predicates -/

lemma FieldPath.relations_under (path : RelationPath) (field : String) :
    (FieldPath.under path field).relations = path.segments :=
  List.dropLast_concat

namespace Scope

variable {s : Scope} {bound : Nat} {p : Predicate}

lemma length_fieldPath_le (hs : s.depth ≤ bound) {name : String} :
    s.rows.length + (Source.field (s.fieldPath name)).relations.length ≤ bound := by
  rw [Source.relations, fieldPath, FieldPath.relations_under]
  rw [depth_eq] at hs
  exact hs

/-- A test of a field of the entity. -/
lemma within_of_fieldPath (hs : s.depth ≤ bound) {name : String}
    (hp : p.sources = [.field (s.fieldPath name)]) : p.Within bound s.rows := by
  refine Predicate.within_of_sources (by simp [hp]) fun source hsource => ?_
  rw [hp, List.mem_singleton] at hsource
  subst hsource
  exact length_fieldPath_le hs

/-- A test of a projection. -/
lemma within_of_projection (hs : s.depth ≤ bound) {handle : ProjectionHandle}
    (hp : p.sources = [.projection handle]) : p.Within bound s.rows := by
  refine Predicate.within_of_sources (by simp [hp]) fun source hsource => ?_
  rw [hp, List.mem_singleton] at hsource
  subst hsource
  have hdepth := depth_eq s
  show s.rows.length + 0 ≤ bound
  omega

end Scope

lemma Compiler.carries_within (c : Compiler) :
    c.Carries fun s p => s.depth ≤ c.maxDepth → p.Within c.maxDepth s.rows where
  and? h hp hs := (Predicate.local_within _ _).and? (fun q hq => h q hq hs) hp
  or? h hp hs := (Predicate.local_within _ _).or? (fun q hq => h q hq hs) hp
  not h hs := (Predicate.local_within _ _).not (h hs)
  included s values hs := s.within_of_fieldPath hs rfl
  join {s name r target p} _ hn hr ho h _ := h (Nat.le_of_lt (Steps.join hn hr ho).depth_lt)
  someRow {s name r target} _ hf hr _ := by
    have hdepth := depth_lt_of_canFollow hf
    rw [Scope.depth_eq] at hdepth
    have hlength := s.length_relationPath name
    exact Predicate.within_existence (by omega) (by omega) (by simp)
  someRowWith {s name r target p} _ hn hr h _ := by
    have hdepth := depth_lt_of_canFollow (canFollow_of_canNest hn)
    rw [Scope.depth_eq] at hdepth
    have hlength := s.length_relationPath name
    refine Predicate.within_existence (by omega) (by omega) ?_
    rintro q ⟨⟩
    rw [← Scope.rows_enter s name target]
    exact h (Nat.le_of_lt (Steps.enter hn hr).depth_lt)

lemma Visit.builds_within (c : Compiler) (set : ProjectionSet) (v : Visit)
    (hv : v.scope.depth ≤ c.maxDepth) :
    v.Builds c set fun p => p.Within c.maxDepth v.scope.rows where
  and? := (Predicate.local_within _ _).and?
  or? := (Predicate.local_within _ _).or?
  leaf {l o kind p} _ ho hp := by
    refine Leaf.predicate?_of_local (Predicate.local_within _ _) (fun q hq => ?_) hp
    cases ho with
    | field _ _ => exact v.scope.within_of_fieldPath hv hq
    | key => exact v.scope.within_of_fieldPath hv hq
    | @keyOfRow name r target _ hf _ _ =>
      have hdepth := Compiler.depth_lt_of_canFollow hf
      rw [Scope.depth_eq] at hdepth
      have hlength := v.scope.length_relationPath name
      refine Predicate.within_of_sources (by simp [hq]) fun source hsource => ?_
      rw [hq, List.mem_singleton] at hsource
      subst hsource
      rw [Operand.source, Source.relations, FieldPath.relations_under]
      show v.scope.rows.length + (v.scope.relationPath name).length ≤ c.maxDepth
      omega
    | projection _ _ => exact v.scope.within_of_projection hv hq
  rows {l name r target p} _ _ hf _ hp := by
    have hdepth := Compiler.depth_lt_of_canFollow hf
    rw [Scope.depth_eq] at hdepth
    have hlength := v.scope.length_relationPath name
    refine Predicate.within_existence (by omega) (by omega) ?_
    rintro q ⟨⟩
    -- the key is a field of the related row itself
    refine Leaf.predicate?_of_local (Predicate.local_within _ _) (fun q hq => ?_) hp
    refine Predicate.within_of_sources (by simp [hq]) fun source hsource => ?_
    rw [hq, List.mem_singleton] at hsource
    subst hsource
    rw [RelationPath.length_append]
    show v.scope.rows.length + (v.scope.relationPath name).length + 0 ≤ c.maxDepth
    omega
  quick _ _ := v.scope.within_of_fieldPath hv rfl
  comparison {left right f g} op _ _ := by
    refine Predicate.within_of_sources (List.cons_ne_nil _ _) fun source hsource => ?_
    simp only [Predicate.sources, Operand.source, List.mem_cons, List.not_mem_nil,
      or_false] at hsource
    rcases hsource with rfl | rfl <;> exact Scope.length_fieldPath_le hv
  search _ _ _ := v.scope.within_of_projection hv rfl
  rank _ _ _ _ _ _ := v.scope.within_of_projection hv rfl

/-- **The predicate of a filter keeps within the bound**, wherever the filter stands. -/
theorem Filter.within_of_predicate? {c : Compiler} {set : ProjectionSet} {s : Scope} {f : Filter}
    {p : Predicate} (hs : s.depth ≤ c.maxDepth) (hp : f.predicate? c set s = some p) :
    p.Within c.maxDepth s.rows := by
  refine f.predicate?_of_carries c.carries_within
    (fun v _ => ⟨fun _ _ => trivial, fun q hq hv => ?_⟩) p hp hs
  exact Visit.predicate?_of_builds (Visit.builds_within c set v hv) hq

/-! ## Projections -/

/-- No path that is followed to compute a projection is longer than the bound, and if the bound is
zero, the projection mentions no relation. -/
structure Projection.Within (bound : Nat) (p : Projection) : Prop where
  length_le : ∀ trail ∈ p.trails, trail.length ≤ bound
  plain : bound = 0 → p.mentionsRelation = false

lemma RelationPath.isEmpty_of_length_le {path : RelationPath} {n : Nat} (h : path.length ≤ n)
    (h0 : n = 0) : path.isEmpty := by
  have hlength : path.segments.length = 0 := by
    show path.length = 0
    omega
  simpa [isEmpty] using hlength

lemma Compiler.length_of_toMany? {c : Compiler} {s : Scope} {name : String} {target : Entity}
    (h : c.toMany? s name = some target) :
    s.rows.length + (s.relationPath name).length ≤ c.maxDepth := by
  have hdepth := depth_lt_of_canFollow (toMany?_eq_some.mp h).1
  rw [Scope.depth_eq] at hdepth
  rw [Scope.length_relationPath]
  omega

namespace Projection.Within

variable {bound : Nat} {s : Scope} {key : ProjectionKey} {expr : ProjectionExpr}

/-- Rows behind a relation are aggregated, counted or looked through. -/
lemma of_relation {name : String} (hlength : s.rows.length + (s.relationPath name).length ≤ bound)
    (htrails : ∀ trail ∈ expr.trails s.rows, trail = s.rows ++ s.relationPath name ∨
      trail.length ≤ bound) :
    Projection.Within bound ⟨key, expr, s.rows⟩ where
  length_le trail ht := by
    rcases htrails trail ht with rfl | h
    · rw [RelationPath.length_append]
      exact hlength
    · exact h
  plain h0 := by
    rw [Scope.length_relationPath] at hlength
    omega

/-- Fields of the entity are read. -/
lemma of_fields (hs : s.depth ≤ bound) (hkey : key.relations = s.path)
    (htrails : ∀ trail ∈ expr.trails s.rows, trail = s.rows ∨
      ∃ name, trail = s.rows ++ (Source.field (s.fieldPath name)).relations)
    (hplain : bound = 0 → expr.mentionsRelation = false) :
    Projection.Within bound ⟨key, expr, s.rows⟩ where
  length_le trail ht := by
    rcases htrails trail ht with rfl | ⟨name, rfl⟩
    · rw [Scope.depth_eq] at hs
      omega
    · rw [RelationPath.length_append]
      exact Scope.length_fieldPath_le hs
  plain h0 := by
    have hpath : s.path.isEmpty := RelationPath.isEmpty_of_length_le hs h0
    have hrows : s.rows.isEmpty := by
      rw [Scope.depth_eq] at hs
      exact RelationPath.isEmpty_of_length_le (by omega) h0
    simp [Projection.mentionsRelation, hkey, hpath, hrows, hplain h0]

end Projection.Within

/-- **What a visited entry requests keeps within the bound.** -/
theorem Visit.within_of_mem_requests {c : Compiler} {set : ProjectionSet} {v : Visit}
    {r : Projection} (hv : v.scope.depth ≤ c.maxDepth) (hr : r ∈ v.requests c set) :
    r.Within c.maxDepth := by
  have hplans := Visit.plans_of_mem_requests hr
  have hscope := Visit.scope_of_mem_requests hr
  have hfield : ∀ name, c.maxDepth = 0 → (v.scope.fieldPath name).relations.isEmpty := by
    intro name h0
    have hlength : (Source.field (v.scope.fieldPath name)).relations.length ≤ c.maxDepth :=
      Nat.le_trans (Nat.le_add_left _ _) (Scope.length_fieldPath_le hv)
    exact RelationPath.isEmpty_of_length_le hlength h0
  obtain ⟨key, expr, scope⟩ := r
  simp only at hplans hscope
  subst hscope
  cases hplans with
  | aggregate _ htarget _ | count _ _ htarget | subquery _ _ _ htarget _ _ =>
    exact .of_relation (Compiler.length_of_toMany? htarget) fun trail ht =>
      .inl (List.mem_singleton.mp ht)
  | @conditionalAggregate a condition fingerprint function target _ _ hn htarget _ =>
    refine .of_relation (Compiler.length_of_toMany? htarget) fun trail ht => ?_
    rcases hp : c.conditionPredicate? v.scope a.relation condition with _ | p
    · rw [hp] at ht
      exact .inl (List.mem_singleton.mp ht)
    · rw [hp] at ht
      refine (List.mem_cons.mp ht).imp_right fun ht => ?_
      obtain ⟨target, htarget, hp⟩ := Option.bind_eq_some_iff.mp hp
      obtain ⟨-, r, hr, -⟩ := Compiler.toMany?_eq_some.mp htarget
      have hinner := Nat.le_of_lt (Compiler.Steps.enter hn hr).depth_lt
      have hwithin := Filter.within_of_predicate? hinner hp
      rw [Scope.rows_enter] at hwithin
      exact hwithin.length_le trail ht
  | window =>
    exact .of_fields hv rfl (fun trail ht => .inl (List.mem_singleton.mp ht)) fun _ => rfl
  | searchRank =>
    exact .of_fields hv rfl (fun trail ht => .inl (List.mem_singleton.mp ht)) fun _ => rfl
  | dateTrunc | dateExtract =>
    refine .of_fields hv rfl (fun trail ht => .inr ⟨_, List.mem_singleton.mp ht⟩) fun h0 => ?_
    simp [ProjectionExpr.mentionsRelation, hfield _ h0]
  | @searchVector search fields config =>
    refine .of_fields hv rfl (fun trail ht => .inr ?_) fun h0 => ?_
    · obtain ⟨field, hmem, rfl⟩ := List.mem_map.mp ht
      obtain ⟨name, -, rfl⟩ := List.mem_map.mp hmem
      exact ⟨name, rfl⟩
    · simp [ProjectionExpr.mentionsRelation, hfield _ h0]

/-! ## The bound -/

/-- **Relations are followed within the bound.**  In every compiled filter, whatever the catalog and
the settings, the paths that the predicate follows are not longer than the settings allow, relations
of the existence tests around a test included, and neither are the paths that projections follow
from the rows of the filtered entity.  If no relation may be followed, none is mentioned. -/
theorem Compiler.trails_le_maxDepth {c : Compiler} {f : Filter} {n : String}
    {compiled : CompiledFilter} (hc : c.compile f n = .ok compiled) :
    (∀ p, compiled.predicate = some p →
      (∀ trail ∈ p.trails .root, trail.length ≤ c.settings.schema.maxRelationDepth) ∧
        (c.settings.schema.maxRelationDepth = 0 → p.mentionsRelation = false)) ∧
    ∀ r ∈ compiled.projections.toList,
      (∀ trail ∈ r.trails, trail.length ≤ c.settings.schema.maxRelationDepth) ∧
        (c.settings.schema.maxRelationDepth = 0 → r.mentionsRelation = false) := by
  obtain ⟨e, -, -, rfl⟩ := compile_eq_ok_iff.mp hc
  have hstart : ({ entity := e } : Scope).depth ≤ c.maxDepth := Nat.zero_le _
  constructor
  · intro p hp
    have hwithin : p.Within c.maxDepth .root := Filter.within_of_predicate? hstart hp
    exact ⟨hwithin.length_le, hwithin.plain⟩
  · intro r hr
    rw [projections_eq_requests] at hr
    have hmem := ProjectionSet.mem_of_mem_toList_ofRequests hr
    obtain ⟨v, hv, hrv⟩ := List.mem_flatMap.mp hmem
    have hwithin := Visit.within_of_mem_requests (depth_le_of_mem_visits hstart hv) hrv
    exact ⟨hwithin.length_le, hwithin.plain⟩

/-- The brand of the product has a review that praises it, and reviews altogether. -/
def Shop.praisedBrand : Filter :=
  .node [("brand_rel", .related "brand" (.node [
    ("reviews_some", .quantified "reviews" .some
      (.node [("text", .field "text" (leaf "eq" (.text "good")))])),
    ("reviews_count", .count "reviews" (leaf "gte" (.int 1)))]))]

theorem Compiler.trails_le_maxDepth_shop :
    ∃ compiled p, Shop.compiler.compile Shop.praisedBrand "Product" = .ok compiled ∧
      compiled.predicate = some p ∧ (⟨["brand", "reviews"]⟩ ∈ p.trails .root) ∧
      compiled.projections.toList.length = 1 ∧
      (∀ trail ∈ p.trails .root, trail.length ≤ 3) ∧
      ∀ r ∈ compiled.projections.toList, ∀ trail ∈ r.trails, trail.length ≤ 3 := by
  have hlimits : Shop.compiler.settings.limits.error? Shop.praisedBrand = none := by
    decide +kernel
  have hc := compile_eq_ok (n := "Product") (e := Shop.product) rfl hlimits
  obtain ⟨hpredicate, hprojections⟩ := trails_le_maxDepth hc
  exact ⟨_, _, hc, rfl, List.mem_cons_self, rfl, (hpredicate _ rfl).1,
    fun r hr => (hprojections r hr).1⟩

end EntityFilter
