import EntityFilter.Analysis
import EntityFilter.Proofs.CatalogPaths
import EntityFilter.Proofs.Reach

/-!
# What the analysis knows of a compiled filter

An analysis walks a filter on its own: it follows every relation that the catalog has, asks neither
for limits nor for features, and notes each relation where it follows it.  Compilation makes a walk
of its own, which is cut short in many places.  So the analysis should note everything that
compilation follows, and `Compiler.analysis_covers_trails` says that it does.

The proof meets in the middle, at the visited entries.  On the one side, a visited entry follows
relations of three kinds only (`Visit.Trail`): those that have led to it, and one more, which stands
in the entry.  On the other side, what the analysis notes of a visited entry is among what it notes
of the filter (`Filter.notedIn_of_mem_visits`), and the relations that stand in an entry are noted
(`Visit.hop_mem_touches`).

The analysis writes a path with the names that relations carry, compilation with the names under
which they are stored.  Where the two differ, what is followed is listed under another name
(`Compiler.analysis_covers_not_always`), so the theorem asks that relations are stored under their
own names (`Catalog.NamesRelations`), as building a catalog and reading one do.
-/

namespace EntityFilter

/-! ## The relations along a path -/

namespace Catalog

variable {c : Catalog} {e target : Entity} {path rest : List String} {name : String} {r : Relation}
  {rs : List Relation}

/-- The relations that a path follows, one after the other. -/
def hops? (c : Catalog) (e : Entity) : List String → Option (List Relation)
  | [] => some []
  | name :: path => (c.resolve? e name).bind fun (r, target) => (c.hops? target path).map (r :: ·)

lemma hops?_cons_eq_some :
    c.hops? e (name :: path) = some rs ↔
      ∃ r target rest, c.resolve? e name = some (r, target) ∧ c.hops? target path = some rest ∧
        rs = r :: rest := by
  simp only [hops?, Option.bind_eq_some_iff, Option.map_eq_some_iff, Prod.exists]
  constructor
  · rintro ⟨r, target, hr, rest, hrest, rfl⟩
    exact ⟨r, target, rest, hr, hrest, rfl⟩
  · rintro ⟨r, target, rest, hr, hrest, rfl⟩
    exact ⟨r, target, hr, rest, hrest, rfl⟩

/-- One relation more is followed from where the path leads to. -/
lemma hops?_concat (hrs : c.hops? e path = some rs) (htarget : c.along? e path = some target)
    {next : Entity} (hr : c.resolve? target name = some (r, next)) :
    c.hops? e (path ++ [name]) = some (rs ++ [r]) := by
  induction path generalizing e rs with
  | nil =>
    obtain rfl := Option.some.inj hrs
    obtain rfl := Option.some.inj htarget
    exact hops?_cons_eq_some.mpr ⟨r, next, [], hr, rfl, rfl⟩
  | cons first path ih =>
    obtain ⟨r', e', rest, hfirst, hrest, rfl⟩ := hops?_cons_eq_some.mp hrs
    obtain ⟨r'', e'', hfirst', hpath⟩ := along?_cons_eq_some.mp htarget
    obtain ⟨rfl, rfl⟩ := Prod.mk.inj (Option.some.inj (hfirst.symm.trans hfirst'))
    exact hops?_cons_eq_some.mpr ⟨r', e', rest ++ [r], hfirst, ih hrest hpath, rfl⟩

/-- The relations of every entity are stored under their own names. -/
def NamesRelations (c : Catalog) : Prop :=
  ∀ e ∈ c.entities.values, ∀ p ∈ e.relations.entries, p.2.name = p.1

lemma IsKeyed.namesRelations (h : c.IsKeyed) : c.NamesRelations := fun e he => (h e he).relation

/-- Where relations are stored under their own names, they carry the names of the path. -/
lemma NamesRelations.names_hops? (hc : c.NamesRelations) (he : e ∈ c.entities.values)
    (hrs : c.hops? e path = some rs) : rs.map Relation.name = path := by
  induction path generalizing e rs with
  | nil =>
    obtain rfl := Option.some.inj hrs
    rfl
  | cons name path ih =>
    obtain ⟨r, target, rest, hr, hrest, rfl⟩ := hops?_cons_eq_some.mp hrs
    obtain ⟨hstored, htarget⟩ := resolve?_eq_some.mp hr
    have hname : r.name = name := hc e he _ (Entries.mem_of_get? hstored)
    rw [List.map_cons, hname, ih (mem_values_of_entity? htarget) hrest]

end Catalog

/-! ## What is noted along a path -/

/-- What following the last of some relations is noted as. -/
def Touch.hop (rs : List Relation) (r : Relation) : Touch :=
  .relation r ⟨(rs ++ [r]).map Relation.name⟩

/-- Every relation that a path follows is noted where it is followed. -/
def Catalog.Noted (c : Catalog) (e : Entity) (touches : List Touch) (path : List String) : Prop :=
  ∀ init, init <+: path → init ≠ [] →
    ∃ rs r, c.hops? e init = some (rs ++ [r]) ∧ .hop rs r ∈ touches

namespace Catalog.Noted

variable {c : Catalog} {e target : Entity} {touches : List Touch} {path init : List String}
  {name : String} {r : Relation} {rs : List Relation}

lemma nil : c.Noted e touches [] := fun _ hinit hne => absurd (List.prefix_nil.mp hinit) hne

lemma of_prefix (h : c.Noted e touches path) (hinit : init <+: path) : c.Noted e touches init :=
  fun _ hfirst hne => h _ (hfirst.trans hinit) hne

lemma concat (h : c.Noted e touches path) (hrs : c.hops? e (path ++ [name]) = some (rs ++ [r]))
    (hr : .hop rs r ∈ touches) : c.Noted e touches (path ++ [name]) := by
  intro init hinit hne
  rcases List.prefix_concat_iff.mp hinit with rfl | hinit
  · exact ⟨rs, r, hrs, hr⟩
  · exact h init hinit hne

end Catalog.Noted

/-- The relations that have led to a scope, from the filtered entity. -/
structure Scope.Follows (c : Catalog) (e : Entity) (s : Scope) (rs : List Relation) : Prop where
  along : c.along? e s.path.segments = some s.entity
  hops : c.hops? e s.path.segments = some rs

namespace Scope.Follows

variable {c : Catalog} {e target : Entity} {s inner : Scope} {rs : List Relation} {name : String}
  {r : Relation}

lemma refl (c : Catalog) (e : Entity) : Follows c e { entity := e } [] := ⟨rfl, rfl⟩

lemma concat (h : s.Follows c e rs) (hr : c.resolve? s.entity name = some (r, target))
    (hpath : inner.path.segments = s.path.segments ++ [name]) (hentity : inner.entity = target) :
    inner.Follows c e (rs ++ [r]) where
  along := by
    rw [hpath, Catalog.along?_append, h.along, Option.bind_some, Catalog.along?_single hr, hentity]
  hops := by
    rw [hpath]
    exact Catalog.hops?_concat h.hops h.along hr

end Scope.Follows

namespace Scope

variable {s : Scope} {name : String} {target : Entity}

lemma segments_path_join :
    (s.join name target).path.segments = s.path.segments ++ [name] :=
  (List.append_assoc _ _ _).symm

lemma segments_path_enter :
    (s.enter name target).path.segments = s.path.segments ++ [name] :=
  List.append_nil _

end Scope

/-! ## The trails of a visited entry -/

/-- The paths that a visited entry follows: the one that has led to it, the part of it that leads to
the rows, and the one that leads on over a relation of the entry. -/
inductive Visit.Trail (c : Compiler) (v : Visit) : RelationPath → Prop where
  | rows : Trail c v v.scope.rows
  | path : Trail c v v.scope.path
  | relation {name : String} {r : Relation} {target : Entity} : name ∈ v.relations →
      c.relation? v.scope name = some (r, target) → Trail c v (v.scope.fullPath name)

namespace Predicate

lemma local_trails (P : RelationPath → Prop) (path : RelationPath) :
    Local fun p => ∀ trail ∈ p.trails path, P trail where
  all ps := by
    simp only [trails, mem_trailsOfAll]
    exact ⟨fun h p hp t ht => h t ⟨p, hp, ht⟩, fun h t ⟨p, hp, ht⟩ => h p hp t ht⟩
  any ps := by
    simp only [trails, mem_trailsOfAll]
    exact ⟨fun h p hp t ht => h t ⟨p, hp, ht⟩, fun h t ⟨p, hp, ht⟩ => h p hp t ht⟩
  negation _ := Iff.rfl

lemma eq_of_mem_trails {path trail : RelationPath} {p : Predicate} {source : Source}
    (hp : p.sources = [source]) (ht : trail ∈ p.trails path) :
    trail = path ++ source.relations := by
  rw [trails_of_sources (by simp [hp]), hp] at ht
  exact List.mem_singleton.mp ht

end Predicate

namespace Scope

lemma rows_append_fieldPath (s : Scope) (name : String) :
    s.rows ++ (Source.field (s.fieldPath name)).relations = s.path := by
  rw [Source.relations, fieldPath, FieldPath.relations_under]
  rfl

lemma rows_append_relationPath (s : Scope) (name : String) :
    s.rows ++ s.relationPath name = s.fullPath name :=
  congrArg RelationPath.mk (List.append_assoc _ _ _).symm

end Scope

namespace Visit

variable {c : Compiler} {set : ProjectionSet} {v : Visit} {name : String}

namespace Trail

lemma field : v.Trail c (v.scope.rows ++ (Source.field (v.scope.fieldPath name)).relations) := by
  rw [Scope.rows_append_fieldPath]
  exact .path

lemma projection {handle : ProjectionHandle} :
    v.Trail c (v.scope.rows ++ (Source.projection handle).relations) := by
  have hroot : v.scope.rows ++ (Source.projection handle).relations = v.scope.rows :=
    congrArg RelationPath.mk (List.append_nil _)
  rw [hroot]
  exact .rows

lemma behind {r : Relation} {target : Entity} (hname : name ∈ v.relations)
    (hr : c.relation? v.scope name = some (r, target)) :
    v.Trail c (v.scope.rows ++ v.scope.relationPath name) := by
  rw [Scope.rows_append_relationPath]
  exact .relation hname hr

end Trail

lemma builds_trails (c : Compiler) (set : ProjectionSet) (v : Visit) :
    v.Builds c set fun p => ∀ trail ∈ p.trails v.scope.rows, v.Trail c trail where
  and? := (Predicate.local_trails _ _).and?
  or? := (Predicate.local_trails _ _).or?
  leaf {l o kind p} _ ho hp := by
    refine Leaf.predicate?_of_local (Predicate.local_trails _ _) (fun q hq trail ht => ?_) hp
    rw [Predicate.eq_of_mem_trails hq ht]
    cases ho with
    | field _ _ | key => exact .field
    | @keyOfRow name r target hname _ hr _ =>
      rw [Operand.source, Source.relations, FieldPath.relations_under]
      exact .behind hname hr
    | projection _ _ => exact .projection
  rows {l name r target p} _ hname _ hr hp := by
    -- the key is a field of the related row itself
    have hkey : ∀ trail ∈ p.trails (v.scope.rows ++ v.scope.relationPath name),
        trail = v.scope.rows ++ v.scope.relationPath name := by
      refine Leaf.predicate?_of_local (Predicate.local_trails _ _) (fun q hq trail ht => ?_) hp
      rw [Predicate.eq_of_mem_trails hq ht]
      exact congrArg RelationPath.mk (List.append_nil _)
    intro trail ht
    rcases List.mem_cons.mp ht with rfl | ht
    · exact .behind hname hr
    · rw [hkey trail ht]
      exact .behind hname hr
  quick {f} text _ := by
    intro trail ht
    rw [Predicate.eq_of_mem_trails rfl ht]
    exact .field
  comparison {left right f g} op _ _ := by
    intro trail ht
    obtain ⟨source, hsource, rfl⟩ := List.mem_map.mp ht
    simp only [Predicate.sources, Operand.source, List.mem_cons, List.not_mem_nil,
      or_false] at hsource
    rcases hsource with rfl | rfl <;> exact .field
  search _ _ _ := by
    intro trail ht
    rw [Predicate.eq_of_mem_trails rfl ht]
    exact .projection
  rank _ _ _ _ _ _ := by
    intro trail ht
    rw [Predicate.eq_of_mem_trails rfl ht]
    exact .projection

/-- **What a visited entry says by itself follows its trails.** -/
theorem trail_of_predicate? {p : Predicate} (hp : v.predicate? c set = some p) :
    ∀ trail ∈ p.trails v.scope.rows, v.Trail c trail :=
  Visit.predicate?_of_builds (builds_trails c set v) hp

/-- The paths that a predicate on the aggregated rows of a visited entry follows. -/
def ConditionTrail (c : Compiler) (v : Visit) (trail : RelationPath) : Prop :=
  ∃ a condition fingerprint target p, v.entry = .aggregate a (some (condition, fingerprint)) ∧
    c.toMany? v.scope a.relation = some target ∧
    condition.predicate? c .empty (v.scope.enter a.relation target) = some p ∧
    trail ∈ p.trails (v.scope.fullPath a.relation)

/-- **What a visited entry requests follows its trails**, and those of its condition. -/
theorem trail_of_mem_requests {r : Projection} (hr : r ∈ v.requests c set) :
    ∀ trail ∈ r.trails, v.Trail c trail ∨ v.ConditionTrail c trail := by
  have hplans := Visit.plans_of_mem_requests hr
  have hscope := Visit.scope_of_mem_requests hr
  have hrelation : ∀ {name target}, name ∈ v.relations → c.toMany? v.scope name = some target →
      v.Trail c (v.scope.rows ++ v.scope.relationPath name) := by
    intro name target hname htarget
    obtain ⟨-, r, hr, -⟩ := Compiler.toMany?_eq_some.mp htarget
    exact .behind hname hr
  obtain ⟨key, expr, scope⟩ := r
  simp only at hplans hscope
  subst hscope
  intro trail ht
  cases hplans with
  | aggregate hentry htarget _ =>
    obtain rfl := List.mem_singleton.mp ht
    exact .inl (hrelation (by simp [relations, hentry]) htarget)
  | count hentry hreal htarget =>
    obtain rfl := List.mem_singleton.mp ht
    exact .inl (hrelation (by simp [relations, hentry, hreal]) htarget)
  | subquery hentry hq _ htarget _ _ =>
    obtain rfl := List.mem_singleton.mp ht
    refine .inl (hrelation ?_ htarget)
    simp only [relations, hentry]
    exact List.mem_map.mpr ⟨_, hq, rfl⟩
  | @conditionalAggregate a condition fingerprint function target hentry _ _ htarget _ =>
    have hname : v.Trail c (v.scope.rows ++ v.scope.relationPath a.relation) :=
      hrelation (by simp [relations, hentry]) htarget
    rcases hp : c.conditionPredicate? v.scope a.relation condition with _ | p
    · simp only [Projection.trails, hp] at ht
      obtain rfl := List.mem_singleton.mp ht
      exact .inl hname
    · simp only [Projection.trails, hp] at ht
      rcases List.mem_cons.mp ht with rfl | ht
      · exact .inl hname
      · obtain ⟨target, htarget, hp⟩ := Option.bind_eq_some_iff.mp hp
        rw [Scope.rows_append_relationPath] at ht
        exact .inr ⟨a, condition, fingerprint, target, p, hentry, htarget, hp, ht⟩
  | window | searchRank =>
    obtain rfl := List.mem_singleton.mp ht
    exact .inl .rows
  | dateTrunc | dateExtract =>
    obtain rfl := List.mem_singleton.mp ht
    exact .inl .field
  | searchVector =>
    obtain ⟨field, hfield, rfl⟩ := List.mem_map.mp ht
    obtain ⟨name, -, rfl⟩ := List.mem_map.mp hfield
    exact .inl .field

end Visit

/-! ## What is noted of a visited entry -/

/-- The place behind some relations. -/
def Place.after (rs : List Relation) (e : Entity) : Place := ⟨e, ⟨rs.map Relation.name⟩⟩

namespace Place

variable {c : Catalog} {e target : Entity} {rs : List Relation} {name : String} {r : Relation}

lemma follow?_after (hr : c.resolve? e name = some (r, target)) :
    (after rs e).follow? c name = some (.hop rs r, after (rs ++ [r]) target) := by
  simp [follow?, after, Touch.hop, RelationPath.join, hr]

lemma hop_mem_touches (hr : c.resolve? e name = some (r, target)) :
    .hop rs r ∈ (after rs e).touches c name := by
  rw [touches, follow?_after hr]
  exact List.mem_singleton.mpr rfl

end Place

lemma ExistenceTest.hop_mem_touchesAll {c : Catalog} {e target : Entity} {rs : List Relation}
    {r : Relation} {item : ExistenceTest × Option Filter}
    {items : List (ExistenceTest × Option Filter)} (hitem : item ∈ items)
    (hr : c.resolve? e item.1.relation = some (r, target)) :
    .hop rs r ∈ ExistenceTest.touchesAll c (.after rs e) items := by
  induction items with
  | nil => simp at hitem
  | cons first items ih =>
    obtain ⟨t, condition⟩ := first
    rcases List.mem_cons.mp hitem with rfl | hrest
    · cases condition with
      | none => exact List.mem_append_left _ (Place.hop_mem_touches hr)
      | some f =>
        simp only [touchesAll, Place.follow?_after hr]
        exact List.mem_cons_self
    · cases condition with
      | none => exact List.mem_append_right _ (ih hrest)
      | some f => exact List.mem_append_right _ (ih hrest)

namespace Visit

variable {c : Compiler} {v : Visit} {name : String} {r : Relation} {target : Entity}
  {rs : List Relation}

/-- **The relations that stand in an entry are noted.** -/
theorem hop_mem_touches (hname : name ∈ v.relations)
    (hr : c.relation? v.scope name = some (r, target)) :
    .hop rs r ∈ v.entry.touches c.catalog (.after rs v.scope.entity) v.key := by
  obtain ⟨s, key, e⟩ := v
  cases e with
  | related | quantified =>
    obtain rfl := List.mem_singleton.mp hname
    simp only [FilterEntry.touches, Place.follow?_after hr]
    exact List.mem_cons_self
  | existence items =>
    obtain ⟨item, hitem, rfl⟩ := List.mem_map.mp hname
    exact ExistenceTest.hop_mem_touchesAll hitem hr
  | aggregate a condition =>
    obtain rfl := List.mem_singleton.mp hname
    cases condition with
    | none => exact Place.hop_mem_touches hr
    | some condition =>
      simp only [FilterEntry.touches, Place.follow?_after hr]
      exact List.mem_cons_self
  | subquery items =>
    obtain ⟨q, hq, rfl⟩ := List.mem_map.mp hname
    exact List.mem_flatMap.mpr ⟨q, hq, List.mem_cons_of_mem _ (Place.hop_mem_touches hr)⟩
  | count relation leaf =>
    by_cases hkey : s.entity.hasField key
    · simp [relations, hkey] at hname
    · obtain rfl : name = relation := by simpa [relations, hkey] using hname
      simp only [FilterEntry.touches, Place.after, hkey]
      exact Place.hop_mem_touches hr
  | field field leaf =>
    by_cases hfield : s.entity.hasField field
    · simp [relations, hfield] at hname
    · obtain rfl : name = field := by simpa [relations, hfield] using hname
      simp only [FilterEntry.touches, Place.after, hfield]
      exact Place.hop_mem_touches hr
  | _ => exact absurd hname List.not_mem_nil

/-- The walk goes from a visited entry to a scope over a relation that stands in the entry. -/
lemma Opens.exists_relation {inner : Scope} (h : v.Opens c inner) :
    ∃ name r, name ∈ v.relations ∧ c.relation? v.scope name = some (r, inner.entity) ∧
      inner.path.segments = v.scope.path.segments ++ [name] := by
  cases h with
  | join hentry h =>
    obtain ⟨-, r, target, hr, -, rfl⟩ := Compiler.joinedScope?_eq_some.mp h
    exact ⟨_, r, by simp [relations, hentry], hr, Scope.segments_path_join⟩
  | rows hentry h =>
    obtain ⟨-, r, target, hr, -, rfl⟩ := Compiler.rowsScope?_eq_some.mp h
    exact ⟨_, r, by simp [relations, hentry], hr, Scope.segments_path_enter⟩
  | @test items t f target hentry hitem h =>
    obtain ⟨-, -, -, r, hr⟩ := Compiler.existenceTarget?_eq_some.mp h
    refine ⟨_, r, ?_, hr, Scope.segments_path_enter⟩
    simp only [relations, hentry]
    exact List.mem_map.mpr ⟨_, hitem, rfl⟩

/-- What is noted of a visited entry is among what has been noted. -/
def NotedIn (c : Compiler) (e : Entity) (touches : List Touch) (v : Visit) : Prop :=
  ∃ rs, v.scope.Follows c.catalog e rs ∧
    v.entry.touches c.catalog (.after rs v.scope.entity) v.key ⊆ touches

lemma NotedIn.mono {e : Entity} {touches more : List Touch} (h : v.NotedIn c e touches)
    (hmore : touches ⊆ more) : v.NotedIn c e more := by
  obtain ⟨rs, hrs, hsub⟩ := h
  exact ⟨rs, hrs, List.Subset.trans hsub hmore⟩

end Visit

mutual

/-- **What is noted of a visited entry is noted of the filter.** -/
theorem Filter.notedIn_of_mem_visits {c : Compiler} {x : Entity} :
    ∀ {s : Scope} {rs : List Relation} (f : Filter), s.Follows c.catalog x rs →
      ∀ v ∈ f.visits c s, v.NotedIn c x (f.touches c.catalog (.after rs s.entity))
  | _, _, .node es, hs => FilterEntry.notedIn_of_mem_visitsOfAll es hs

theorem FilterEntry.notedIn_of_mem_visitsOfAll {c : Compiler} {x : Entity} :
    ∀ {s : Scope} {rs : List Relation} (es : List (String × FilterEntry)),
      s.Follows c.catalog x rs → ∀ v ∈ FilterEntry.visitsOfAll c s es,
        v.NotedIn c x (FilterEntry.touchesAll c.catalog (.after rs s.entity) es)
  | _, _, [], _, _, hv => by simp [FilterEntry.visitsOfAll] at hv
  | s, rs, (key, e) :: es, hs, v, hv => by
    simp only [FilterEntry.visitsOfAll, List.mem_cons, List.mem_append] at hv
    rw [FilterEntry.touchesAll]
    rcases hv with rfl | hv | hv
    · exact ⟨rs, hs, List.subset_append_left _ _⟩
    · exact (FilterEntry.notedIn_of_mem_visitsBelow e hs v hv).mono (List.subset_append_left _ _)
    · exact (FilterEntry.notedIn_of_mem_visitsOfAll es hs v hv).mono
        (List.subset_append_right _ _)

theorem FilterEntry.notedIn_of_mem_visitsBelow {c : Compiler} {x : Entity} {s : Scope}
    {rs : List Relation} {key : String} :
    ∀ e : FilterEntry, s.Follows c.catalog x rs →
      ∀ v ∈ e.visitsBelow c s, v.NotedIn c x (e.touches c.catalog (.after rs s.entity) key)
  | .all fs, hs | .any fs, hs => Filter.notedIn_of_mem_visitsOfAll fs hs
  | .negation f, hs => Filter.notedIn_of_mem_visits f hs
  | .related relation f, hs => by
    simp only [FilterEntry.visitsBelow]
    split
    · next inner h =>
      obtain ⟨-, r, target, hr, -, rfl⟩ := Compiler.joinedScope?_eq_some.mp h
      simp only [FilterEntry.touches, Place.follow?_after hr]
      intro v hv
      have hinner := hs.concat hr Scope.segments_path_join rfl
      exact (Filter.notedIn_of_mem_visits f hinner v hv).mono (List.subset_cons_self _ _)
    · simp
  | .quantified relation _ f, hs => by
    simp only [FilterEntry.visitsBelow]
    split
    · next inner h =>
      obtain ⟨-, r, target, hr, -, rfl⟩ := Compiler.rowsScope?_eq_some.mp h
      simp only [FilterEntry.touches, Place.follow?_after hr]
      intro v hv
      have hinner := hs.concat hr Scope.segments_path_enter rfl
      exact (Filter.notedIn_of_mem_visits f hinner v hv).mono (List.subset_cons_self _ _)
    · simp
  | .existence items, hs => ExistenceTest.notedIn_of_mem_visitsOfAll items hs
  | .id _, _ | .quick _, _ | .included _, _ | .search _, _ | .window _, _ | .subquery _, _
  | .compare _, _ | .aggregate _ _, _ | .trunc _, _ | .extract _, _ | .count _ _, _
  | .field _ _, _ => by
    simp [FilterEntry.visitsBelow]

theorem Filter.notedIn_of_mem_visitsOfAll {c : Compiler} {x : Entity} :
    ∀ {s : Scope} {rs : List Relation} (fs : List Filter), s.Follows c.catalog x rs →
      ∀ v ∈ Filter.visitsOfAll c s fs,
        v.NotedIn c x (Filter.touchesAll c.catalog (.after rs s.entity) fs)
  | _, _, [], _, _, hv => by simp [Filter.visitsOfAll] at hv
  | s, rs, f :: fs, hs, v, hv => by
    simp only [Filter.visitsOfAll, List.mem_append] at hv
    rw [Filter.touchesAll]
    rcases hv with hv | hv
    · exact (Filter.notedIn_of_mem_visits f hs v hv).mono (List.subset_append_left _ _)
    · exact (Filter.notedIn_of_mem_visitsOfAll fs hs v hv).mono (List.subset_append_right _ _)

theorem ExistenceTest.notedIn_of_mem_visitsOfAll {c : Compiler} {x : Entity} :
    ∀ {s : Scope} {rs : List Relation} (items : List (ExistenceTest × Option Filter)),
      s.Follows c.catalog x rs → ∀ v ∈ ExistenceTest.visitsOfAll c s items,
        v.NotedIn c x (ExistenceTest.touchesAll c.catalog (.after rs s.entity) items)
  | _, _, [], _, _, hv => by simp [ExistenceTest.visitsOfAll] at hv
  | _, _, (_, none) :: items, hs, v, hv =>
    (ExistenceTest.notedIn_of_mem_visitsOfAll items hs v hv).mono (List.subset_append_right _ _)
  | s, rs, (t, some f) :: items, hs, v, hv => by
    simp only [ExistenceTest.visitsOfAll] at hv
    rw [ExistenceTest.touchesAll]
    split at hv
    · next target h =>
      obtain ⟨-, -, -, r, hr⟩ := Compiler.existenceTarget?_eq_some.mp h
      simp only [Place.follow?_after hr]
      rcases List.mem_append.mp hv with hv | hv
      · have hinner := hs.concat hr Scope.segments_path_enter rfl
        refine (Filter.notedIn_of_mem_visits f hinner v hv).mono ?_
        exact List.Subset.trans (List.subset_cons_self _ _) (List.subset_append_left _ _)
      · exact (ExistenceTest.notedIn_of_mem_visitsOfAll items hs v hv).mono
          (List.subset_append_right _ _)
    · exact (ExistenceTest.notedIn_of_mem_visitsOfAll items hs v hv).mono
        (List.subset_append_right _ _)

end

/-! ## Compiled filters -/

section

variable {c : Compiler} {e : Entity} {touches : List Touch} {s : Scope} {rs : List Relation}

/-- A relation of a scope is noted, if there is one of that name. -/
def Scope.Notes (c : Compiler) (e : Entity) (touches : List Touch) (s : Scope) (name : String) :
    Prop :=
  ∀ r target, c.relation? s name = some (r, target) →
    c.catalog.Noted e touches (s.fullPath name).segments

lemma Visit.NotedIn.notes {v : Visit} (hv : v.NotedIn c e touches)
    (hpath : c.catalog.Noted e touches v.scope.path.segments) {name : String}
    (hname : name ∈ v.relations) : v.scope.Notes c e touches name := by
  obtain ⟨rs, hrs, hsub⟩ := hv
  intro r target hr
  exact hpath.concat (Catalog.hops?_concat hrs.hops hrs.along hr)
    (hsub (Visit.hop_mem_touches hname hr))

lemma Visit.Trail.noted {v : Visit} {trail : RelationPath} (h : v.Trail c trail)
    (hv : v.NotedIn c e touches) (hpath : c.catalog.Noted e touches v.scope.path.segments) :
    c.catalog.Noted e touches trail.segments := by
  cases h with
  | rows => exact hpath.of_prefix (List.prefix_append _ _)
  | path => exact hpath
  | relation hname hr => exact hv.notes hpath hname _ _ hr

/-- **The path to every visited scope is noted.** -/
theorem Filter.path_noted_of_mem_visits {f : Filter} (hs : s.Follows c.catalog e rs)
    (hpath : c.catalog.Noted e touches s.path.segments)
    (hsub : f.touches c.catalog (.after rs s.entity) ⊆ touches) {v : Visit}
    (hv : v ∈ f.visits c s) : c.catalog.Noted e touches v.scope.path.segments := by
  refine f.scope_of_mem_visits (P := fun s => c.catalog.Noted e touches s.path.segments) hpath
    (fun v hv hnoted inner hopens => ?_) v hv
  obtain ⟨name, r, hname, hr, hinner⟩ := hopens.exists_relation
  rw [hinner]
  exact ((f.notedIn_of_mem_visits hs v hv).mono hsub).notes hnoted hname r _ hr

lemma Compiler.carries_noted (c : Compiler) (e : Entity) (touches : List Touch) :
    c.Carries (fun s p => c.catalog.Noted e touches s.path.segments →
      ∀ trail ∈ p.trails s.rows, c.catalog.Noted e touches trail.segments)
      (Scope.Notes c e touches) where
  and? h hp hs := (Predicate.local_trails _ _).and? (fun q hq => h q hq hs) hp
  or? h hp hs := (Predicate.local_trails _ _).or? (fun q hq => h q hq hs) hp
  not h hs := (Predicate.local_trails _ _).not (h hs)
  included s values hs trail ht := by
    rw [Predicate.eq_of_mem_trails rfl ht, Operand.source, Scope.rows_append_fieldPath]
    exact hs
  join {s name r target p} hname _ hr _ h _ := by
    refine h ?_
    rw [Scope.segments_path_join]
    exact hname r target hr
  someRow {s name r target} hname _ hr _ trail ht := by
    obtain rfl := List.mem_singleton.mp ht
    rw [Scope.rows_append_relationPath]
    exact hname r target hr
  someRowWith {s name r target p} hname _ hr h _ trail ht := by
    have hnoted := hname r target hr
    rcases List.mem_cons.mp ht with rfl | ht
    · rw [Scope.rows_append_relationPath]
      exact hnoted
    · rw [← Scope.rows_enter s name target] at ht
      refine h ?_ trail ht
      rw [Scope.segments_path_enter]
      exact hnoted

/-- **What the predicate of a filter follows is noted**, wherever the filter stands. -/
theorem Filter.trails_noted_of_predicate? {set : ProjectionSet} {f : Filter} {p : Predicate}
    (hs : s.Follows c.catalog e rs) (hpath : c.catalog.Noted e touches s.path.segments)
    (hsub : f.touches c.catalog (.after rs s.entity) ⊆ touches)
    (hp : f.predicate? c set s = some p) :
    ∀ trail ∈ p.trails s.rows, c.catalog.Noted e touches trail.segments := by
  refine f.predicate?_of_carries (c.carries_noted e touches) (fun v hv => ?_) p hp hpath
  have hnoted := Filter.path_noted_of_mem_visits hs hpath hsub hv
  have hin := (f.notedIn_of_mem_visits hs v hv).mono hsub
  exact ⟨fun name hname => hin.notes hnoted hname,
    fun q hq _ trail ht => (Visit.trail_of_predicate? hq trail ht).noted hin hnoted⟩

/-- **What a visited entry requests is noted.** -/
theorem Visit.trails_noted_of_mem_requests {set : ProjectionSet} {v : Visit}
    (hv : v.NotedIn c e touches) (hpath : c.catalog.Noted e touches v.scope.path.segments)
    {r : Projection} (hr : r ∈ v.requests c set) :
    ∀ trail ∈ r.trails, c.catalog.Noted e touches trail.segments := by
  intro trail ht
  rcases Visit.trail_of_mem_requests hr trail ht with h | h
  · exact h.noted hv hpath
  · obtain ⟨a, condition, fingerprint, target, p, hentry, htarget, hp, ht⟩ := h
    obtain ⟨-, r, hr, -⟩ := Compiler.toMany?_eq_some.mp htarget
    have hname : a.relation ∈ v.relations := by simp [relations, hentry]
    have hnoted := hv.notes hpath hname r target hr
    obtain ⟨rs, hrs, hsub⟩ := hv
    have hrows : (v.scope.enter a.relation target).path.segments =
        v.scope.path.segments ++ [a.relation] := Scope.segments_path_enter
    have hinner := hrs.concat hr hrows rfl
    refine Filter.trails_noted_of_predicate? hinner ?_ ?_ hp trail ht
    · rw [hrows]
      exact hnoted
    · refine List.Subset.trans ?_ hsub
      simp only [hentry, FilterEntry.touches, Place.follow?_after hr]
      exact List.subset_cons_self _ _

end

/-- The paths that a compiled filter follows from the rows of the filtered entity. -/
def CompiledFilter.trails (compiled : CompiledFilter) : List RelationPath :=
  compiled.predicate.toList.flatMap (Predicate.trails .root) ++
    compiled.projections.toList.flatMap Projection.trails

/-- The list that an analysis puts a relation on: paths to one row and to many are apart. -/
def Analysis.listOf (a : Analysis) (r : Relation) : List String :=
  if r.isToMany then a.prefetchRelated else a.selectRelated

lemma Analysis.mem_listOf {a : Analysis} {rs : List Relation} {r : Relation}
    (h : .hop rs r ∈ a.touches) : Text.join "__" ((rs ++ [r]).map Relation.name) ∈ a.listOf r := by
  unfold Touch.hop Touch.relation at h
  unfold listOf
  split at h
  · next hmany =>
    rw [if_pos hmany, prefetchRelated, List.mem_eraseDups]
    exact List.mem_filterMap.mpr ⟨_, h, rfl⟩
  · next hone =>
    rw [if_neg hone, selectRelated, List.mem_eraseDups]
    exact List.mem_filterMap.mpr ⟨_, h, rfl⟩

/-- If a filter compiles, it can be analysed, and the analysis lists every relation that the
compiled filter follows, under the names that the relations up to it carry. -/
lemma Compiler.analysis_lists_hops {c : Compiler} {f : Filter} {n : String}
    {compiled : CompiledFilter} (hc : c.compile f n = .ok compiled) :
    ∃ e a, c.catalog.entity? n = some e ∧ c.analyze f n = .ok a ∧
      ∀ trail ∈ compiled.trails, ∀ init, init <+: trail.segments → init ≠ [] →
        ∃ rs r, c.catalog.hops? e init = some (rs ++ [r]) ∧
          Text.join "__" ((rs ++ [r]).map Relation.name) ∈ a.listOf r := by
  obtain ⟨e, he, -, rfl⟩ := compile_eq_ok_iff.mp hc
  have hanalyze : c.analyze f n = .ok { entity := n
                                        touches := f.touches c.catalog { entity := e }
                                        clauses := f.clauses
                                        depth := f.depth
                                        projections := (c.projections f e).size
                                        patterns := f.patterns.length } := by
    unfold analyze
    rw [he]
  refine ⟨e, _, he, hanalyze, fun trail ht init hinit hne => ?_⟩
  have hstart := Scope.Follows.refl c.catalog e
  have hroot : c.catalog.Noted e (f.touches c.catalog { entity := e }) [] := .nil
  have htouches : f.touches c.catalog (.after [] e) ⊆ f.touches c.catalog { entity := e } :=
    List.Subset.refl _
  have hnoted : c.catalog.Noted e (f.touches c.catalog { entity := e }) trail.segments := by
    rcases List.mem_append.mp ht with ht | ht
    · obtain ⟨p, hp, ht⟩ := List.mem_flatMap.mp ht
      exact Filter.trails_noted_of_predicate? hstart hroot htouches (Option.mem_toList.mp hp)
        trail ht
    · obtain ⟨r, hr, ht⟩ := List.mem_flatMap.mp ht
      rw [projections_eq_requests] at hr
      have hmem := ProjectionSet.mem_of_mem_toList_ofRequests hr
      obtain ⟨v, hv, hrv⟩ := List.mem_flatMap.mp hmem
      have hin := (f.notedIn_of_mem_visits hstart v hv).mono htouches
      have hpath := Filter.path_noted_of_mem_visits hstart hroot htouches hv
      exact Visit.trails_noted_of_mem_requests hin hpath hrv trail ht
  obtain ⟨rs, r, hhops, htouch⟩ := hnoted init hinit hne
  exact ⟨rs, r, hhops, Analysis.mem_listOf htouch⟩

/-- **The analysis reports every relation that a compiled filter follows**, in a catalog that stores
relations under their own names.  Whatever the settings, if a filter compiles, it can be analysed,
and every path that the predicate or a projection follows from the filtered rows leads over
relations of the catalog.  Each beginning of the path is listed: on one list if it leads to many
rows, on the other if it leads to one. -/
theorem Compiler.analysis_covers_trails {c : Compiler} {f : Filter} {n : String}
    {compiled : CompiledFilter} (hnames : c.catalog.NamesRelations)
    (hc : c.compile f n = .ok compiled) :
    ∃ e a, c.catalog.entity? n = some e ∧ c.analyze f n = .ok a ∧
      ∀ trail ∈ compiled.trails, ∀ init, init <+: trail.segments → init ≠ [] →
        ∃ rs r, c.catalog.hops? e init = some (rs ++ [r]) ∧
          Text.join "__" init ∈ a.listOf r := by
  obtain ⟨e, a, he, ha, hlists⟩ := analysis_lists_hops hc
  refine ⟨e, a, he, ha, fun trail ht init hinit hne => ?_⟩
  obtain ⟨rs, r, hhops, hmem⟩ := hlists trail ht init hinit hne
  rw [hnames.names_hops? (Catalog.mem_values_of_entity? he) hhops] at hmem
  exact ⟨rs, r, hhops, hmem⟩

theorem Compiler.analysis_covers_trails_shop :
    ∃ compiled a, Shop.compiler.catalog.NamesRelations ∧
      Shop.compiler.compile Shop.praisedBrand "Product" = .ok compiled ∧
      Shop.compiler.analyze Shop.praisedBrand "Product" = .ok a ∧
      (⟨["brand", "reviews"]⟩ ∈ compiled.trails) ∧
      a.selectRelated = ["brand"] ∧ a.prefetchRelated = ["brand__reviews"] ∧
      ∀ trail ∈ compiled.trails, ∀ init, init <+: trail.segments → init ≠ [] →
        ∃ rs r, Shop.compiler.catalog.hops? Shop.product init = some (rs ++ [r]) ∧
          Text.join "__" init ∈ a.listOf r := by
  have hlimits : Shop.compiler.settings.limits.error? Shop.praisedBrand = none := by
    decide +kernel
  have hc := compile_eq_ok (n := "Product") (e := Shop.product) rfl hlimits
  obtain ⟨e, a, he, ha, hcovers⟩ := analysis_covers_trails Shop.isKeyed.namesRelations hc
  obtain rfl : Shop.product = e := Option.some.inj he
  refine ⟨_, a, Shop.isKeyed.namesRelations, hc, ha, by decide +kernel, ?_, ?_, hcovers⟩
  · obtain rfl := Except.ok.inj ha
    decide +kernel
  · obtain rfl := Except.ok.inj ha
    decide +kernel

/-- The analysis writes what a relation is called, and compilation follows what it is stored under:
where the two differ, the path that is followed is on no list. -/
theorem Compiler.analysis_covers_not_always :
    ∃ compiled a, Diary.answered.compile Diary.discussed "Note" = .ok compiled ∧
      Diary.answered.analyze Diary.discussed "Note" = .ok a ∧
      (⟨["answers"]⟩ ∈ compiled.trails) ∧ a.selectRelated = [] ∧
      a.prefetchRelated = ["replies"] := by
  have hlimits : Diary.answered.settings.limits.error? Diary.discussed = none := by
    decide +kernel
  have hc := compile_eq_ok (c := Diary.answered) (n := "Note") rfl hlimits
  obtain ⟨e, a, he, ha, -⟩ := analysis_lists_hops hc
  refine ⟨_, a, hc, ha, by decide +kernel, ?_, ?_⟩
  · obtain rfl := Except.ok.inj ha
    decide +kernel
  · obtain rfl := Except.ok.inj ha
    decide +kernel

end EntityFilter
