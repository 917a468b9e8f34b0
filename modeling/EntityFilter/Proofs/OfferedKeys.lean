import EntityFilter.Proofs.FilterKeys
import EntityFilter.Proofs.Reach
import EntityFilter.Proofs.SchemaTypes

/-!
# What is compiled is offered

The compiler leaves out what may not be used, and the schema does not offer it; each of the two
asks for features, relations, kinds and depths in its own way.  `Compiler.Admits` puts down, for
each kind of key, what the compiler has found out about it by the time an entry says anything.
Entries that contribute are admitted (`Visit.admits_of_contributes`), and keys that are admitted are
offered (`Compiler.hasOffer_of_admits`).

The walk of the compiler follows relations as the schema does, so the filter that an entry belongs
to is one of its types.  Together: every entry of a filter that constrains anything or plans a
projection stands under a key that the schema offers where the entry stands
(`Compiler.offers_of_reaches`).

The compiler looks names up where things are stored, and the schema writes the names that things
carry.  Building a catalog and reading one store everything under the name that it carries
(`Catalog.StoresByName`, `Catalog.storesByName_of_ofText`), and without that the compiler takes keys
that are not offered (`Compiler.offers_not_always`).
-/

namespace EntityFilter

/-! ## Catalogs that store everything under its own name -/

/-- Every entity is stored under its own name, with its fields and relations under theirs. -/
structure Catalog.StoresByName (c : Catalog) : Prop where
  entity : ∀ p ∈ c.entities.entries, p.2.name = p.1
  parts : c.IsKeyed

namespace Catalog

variable {c : Catalog} {e : Entity}

lemma storesByName_empty : StoresByName {} := ⟨fun _ h => absurd h List.not_mem_nil, isKeyed_empty⟩

lemma StoresByName.withEntity (h : c.StoresByName) (he : e.IsKeyed) :
    (c.withEntity e).StoresByName where
  entity p hp := by
    rcases Entries.mem_insert hp with rfl | hp
    · rfl
    · exact h.entity p hp
  parts := h.parts.withEntity he

/-- An entity is found under the name that it carries. -/
lemma StoresByName.entity?_name (h : c.StoresByName) (he : e ∈ c.entities.values) :
    c.entity? e.name = some e := by
  obtain ⟨p, hp, rfl⟩ := List.mem_map.mp he
  rw [h.entity p hp]
  exact Entries.get?_of_mem c.entities.nodup hp

/-- **Every catalog that is read stores everything under its own name.** -/
theorem storesByName_of_ofText {env : Environment} {s : String}
    (h : Catalog.ofText env s = .ok c) : c.StoresByName :=
  of_ofText storesByName_empty (fun _ _ hc he => hc.withEntity he) h

end Catalog

/-! ## Where entries stand -/

section Home

variable {c : Compiler} {P : Filter → Prop} {v : Visit}

mutual

/-- A visited entry belongs to a filter that shares what filters hand on to the filters in them. -/
theorem Filter.home_of_mem_visits
    (hP : ∀ g, P g → ∀ p ∈ g.entries, ∀ inner ∈ p.2.children, P inner) :
    ∀ {s : Scope} (f : Filter), P f → v ∈ f.visits c s → ∃ g, P g ∧ (v.key, v.entry) ∈ g.entries
  | _, .node es, hf, hv => FilterEntry.home_of_mem_visitsOfAll hP hf es (fun _ h => h) hv

theorem FilterEntry.home_of_mem_visitsOfAll
    (hP : ∀ g, P g → ∀ p ∈ g.entries, ∀ inner ∈ p.2.children, P inner) {g : Filter} (hg : P g) :
    ∀ {s : Scope} (es : List (String × FilterEntry)), (∀ p ∈ es, p ∈ g.entries) →
      v ∈ FilterEntry.visitsOfAll c s es → ∃ g, P g ∧ (v.key, v.entry) ∈ g.entries
  | _, [], _, hv => by simp [FilterEntry.visitsOfAll] at hv
  | s, (key, e) :: es, hes, hv => by
    rw [List.forall_mem_cons] at hes
    simp only [FilterEntry.visitsOfAll, List.mem_cons, List.mem_append] at hv
    rcases hv with rfl | hv | hv
    · exact ⟨g, hg, hes.1⟩
    · exact FilterEntry.home_of_mem_visitsBelow hP e (hP g hg _ hes.1) hv
    · exact FilterEntry.home_of_mem_visitsOfAll hP hg es hes.2 hv

theorem FilterEntry.home_of_mem_visitsBelow
    (hP : ∀ g, P g → ∀ p ∈ g.entries, ∀ inner ∈ p.2.children, P inner) :
    ∀ {s : Scope} (e : FilterEntry), (∀ inner ∈ e.children, P inner) → v ∈ e.visitsBelow c s →
      ∃ g, P g ∧ (v.key, v.entry) ∈ g.entries
  | _, .all fs, he, hv => Filter.home_of_mem_visitsOfAll hP fs he hv
  | _, .any fs, he, hv => Filter.home_of_mem_visitsOfAll hP fs he hv
  | _, .negation f, he, hv => Filter.home_of_mem_visits hP f (he f (List.mem_singleton.mpr rfl)) hv
  | s, .related relation f, he, hv => by
    simp only [FilterEntry.visitsBelow] at hv
    split at hv
    · exact Filter.home_of_mem_visits hP f (he f (List.mem_singleton.mpr rfl)) hv
    · simp at hv
  | s, .quantified relation _ f, he, hv => by
    simp only [FilterEntry.visitsBelow] at hv
    split at hv
    · exact Filter.home_of_mem_visits hP f (he f (List.mem_singleton.mpr rfl)) hv
    · simp at hv
  | _, .existence items, he, hv => ExistenceTest.home_of_mem_visitsOfAll hP items he hv
  | _, .id _, _, hv | _, .quick _, _, hv | _, .included _, _, hv | _, .search _, _, hv
  | _, .window _, _, hv | _, .subquery _, _, hv | _, .compare _, _, hv | _, .aggregate _ _, _, hv
  | _, .trunc _, _, hv | _, .extract _, _, hv | _, .count _ _, _, hv | _, .field _ _, _, hv => by
    simp [FilterEntry.visitsBelow] at hv

theorem Filter.home_of_mem_visitsOfAll
    (hP : ∀ g, P g → ∀ p ∈ g.entries, ∀ inner ∈ p.2.children, P inner) :
    ∀ {s : Scope} (fs : List Filter), (∀ f ∈ fs, P f) → v ∈ Filter.visitsOfAll c s fs →
      ∃ g, P g ∧ (v.key, v.entry) ∈ g.entries
  | _, [], _, hv => by simp [Filter.visitsOfAll] at hv
  | _, f :: fs, hfs, hv => by
    rw [List.forall_mem_cons] at hfs
    rcases List.mem_append.mp hv with hv | hv
    · exact Filter.home_of_mem_visits hP f hfs.1 hv
    · exact Filter.home_of_mem_visitsOfAll hP fs hfs.2 hv

theorem ExistenceTest.home_of_mem_visitsOfAll
    (hP : ∀ g, P g → ∀ p ∈ g.entries, ∀ inner ∈ p.2.children, P inner) :
    ∀ {s : Scope} (items : List (ExistenceTest × Option Filter)),
      (∀ f ∈ items.filterMap Prod.snd, P f) → v ∈ ExistenceTest.visitsOfAll c s items →
      ∃ g, P g ∧ (v.key, v.entry) ∈ g.entries
  | _, [], _, hv => by simp [ExistenceTest.visitsOfAll] at hv
  | _, (_, none) :: items, hitems, hv =>
    ExistenceTest.home_of_mem_visitsOfAll hP items hitems hv
  | s, (t, some f) :: items, hitems, hv => by
    have hfirst : P f := hitems f List.mem_cons_self
    have hrest : ∀ f ∈ items.filterMap Prod.snd, P f :=
      fun f hf => hitems f (List.mem_cons_of_mem _ hf)
    simp only [ExistenceTest.visitsOfAll] at hv
    split at hv
    · rcases List.mem_append.mp hv with hv | hv
      · exact Filter.home_of_mem_visits hP f hfirst hv
      · exact ExistenceTest.home_of_mem_visitsOfAll hP items hrest hv
    · exact ExistenceTest.home_of_mem_visitsOfAll hP items hrest hv

end

end Home

/-- An entry of a keyed filter: it shows its key, and the filters in it are keyed. -/
structure Visit.IsKeyed (v : Visit) : Prop where
  key_eq : FilterKey.ofName v.key = v.entry.key
  children : ∀ inner ∈ v.entry.children, inner.IsKeyed

lemma Visit.isKeyed_of_mem_visits {c : Compiler} {s : Scope} {f : Filter} {v : Visit}
    (hf : f.IsKeyed) (hv : v ∈ f.visits c s) : v.IsKeyed := by
  have hchildren : ∀ g : Filter, g.IsKeyed → ∀ p ∈ g.entries, ∀ inner ∈ p.2.children,
      inner.IsKeyed := by
    rintro g ⟨-, hchildren⟩
    exact hchildren
  obtain ⟨g, hg, hmem⟩ := Filter.home_of_mem_visits hchildren f hf hv
  obtain ⟨hkeys, hchildren⟩ := hg
  exact ⟨hkeys _ hmem, hchildren _ hmem⟩

/-! ## What the compiler admits -/

/-- What the compiler has found out about a key by the time the entry under it says anything. -/
inductive Compiler.Admits (c : Compiler) (s : Scope) : FilterKey → Prop where
  | all : Admits c s .all
  | any : Admits c s .any
  | negation : Admits c s .negation
  | id : Admits c s .id
  | quick : Admits c s .quick
  | included : Admits c s .included
  | compare : Admits c s .compare
  | search : c.settings.features.fullText → Admits c s .search
  | window : c.settings.features.window → Admits c s .window
  | subquery : c.settings.features.subquery → c.canFollow s → Admits c s .subquery
  | existence : c.settings.features.existence → c.canFollow s → Admits c s .existence
  | related {name : String} {r : Relation} {target : Entity} : c.canNest s →
      c.relation? s name = some (r, target) → r.isToOne → Admits c s (.related name)
  | quantified {name : String} {r : Relation} {target : Entity} (quantifier : Quantifier) :
      c.canNest s → c.relation? s name = some (r, target) → r.isToMany →
      Admits c s (.quantified name quantifier)
  | aggregate {name : String} {target : Entity} : c.toMany? s name = some target →
      Admits c s (.aggregate name)
  | conditionalAggregate {name : String} {target : Entity} :
      c.settings.features.conditionalAggregation → c.canNest s →
      c.toMany? s name = some target → Admits c s (.conditionalAggregate name)
  | trunc {name : String} {f : Field} : c.settings.features.dateTrunc →
      s.entity.field? name = some f → f.kind.isTemporal → Admits c s (.trunc name)
  | extract {name : String} {f : Field} : c.settings.features.dateExtract →
      s.entity.field? name = some f → f.kind.isTemporal → Admits c s (.extract name)
  | count {name : String} {target : Entity} : ¬s.entity.hasField (name ++ "_count") →
      c.toMany? s name = some target → Admits c s (.count name)
  | stored {key : FilterKey} {f : Field} : s.entity.field? key.written = some f →
      (f.kind.isArray → c.settings.features.array) → Admits c s key
  | identifiers {name : String} {r : Relation} {target : Entity} : c.canFollow s →
      c.relation? s name = some (r, target) → Admits c s (.field name)

namespace Visit

variable {c : Compiler} {set : ProjectionSet} {v : Visit} {p : Predicate}

/-- The key of a keyed entry is the one that the entry shows. -/
lemma IsKeyed.key_written (hv : v.IsKeyed) : v.entry.key.written = v.key := by
  rw [← hv.key_eq]
  exact FilterKey.written_ofName v.key

/-- An entry that plans a projection is admitted. -/
lemma admits_of_plans (hv : v.IsKeyed) {key : ProjectionKey} {expr : ProjectionExpr}
    (h : v.Plans c set key expr) : c.Admits v.scope v.entry.key := by
  have hwritten := hv.key_written
  cases h with
  | aggregate hentry htarget =>
    rw [hentry]
    exact .aggregate htarget
  | conditionalAggregate hentry hfeature hnest htarget =>
    rw [hentry]
    exact .conditionalAggregate hfeature hnest htarget
  | count hentry hreal htarget =>
    rw [hentry] at hwritten ⊢
    rw [← hwritten] at hreal
    exact .count hreal htarget
  | window hentry hfeature =>
    rw [hentry]
    exact .window hfeature
  | subquery hentry _ hfeature htarget =>
    rw [hentry]
    exact .subquery hfeature (Compiler.toMany?_eq_some.mp htarget).1
  | dateTrunc hentry hfeature hf htemporal =>
    rw [hentry]
    exact .trunc hfeature hf htemporal
  | dateExtract hentry hfeature hf htemporal =>
    rw [hentry]
    exact .extract hfeature hf htemporal
  | searchVector hentry hfeature =>
    rw [hentry]
    exact .search hfeature
  | searchRank hentry hfeature =>
    rw [hentry]
    exact .search hfeature

end Visit

namespace Compiler

variable {c : Compiler} {set : ProjectionSet} {s : Scope} {leaf : Leaf} {p : Predicate}

/-- A leaf is compiled under a key that names a field, or the identifiers of a relation. -/
lemma admits_of_fieldPredicate? {name : String} (h : c.fieldPredicate? s name leaf = some p) :
    c.Admits s (.field name) := by
  unfold fieldPredicate? at h
  split at h
  · next f hf =>
    split at h
    · simp at h
    · next hgate =>
      refine .stored hf fun harray => ?_
      simpa [harray] using hgate
  · unfold relationPredicate? at h
    split at h
    · next hfollow =>
      split at h
      · next r target hr => exact .identifiers hfollow hr
      · simp at h
    · simp at h

/-- A leaf is compiled under a key with the ending of a count, if this is the name of a field. -/
lemma admits_count_of_fieldPredicate? {relation : String}
    (hfield : s.entity.hasField (relation ++ "_count"))
    (h : c.fieldPredicate? s (relation ++ "_count") leaf = some p) :
    c.Admits s (.count relation) := by
  obtain ⟨f, hf⟩ := Option.isSome_iff_exists.mp hfield
  have hf : s.entity.field? (relation ++ "_count") = some f := hf
  simp only [fieldPredicate?, hf] at h
  split at h
  · simp at h
  · next hgate =>
    refine .stored hf fun harray => ?_
    simpa [harray] using hgate

lemma admits_existence {items : List (ExistenceTest × Option Filter)}
    (h : ExistenceTest.predicates c set s items ≠ []) : c.Admits s .existence := by
  have hone : ∀ {t : ExistenceTest} {conditional : Bool} {f : Entity → Predicate},
      ((c.existenceTarget? s t.relation conditional).map f).toList ≠ [] →
      c.Admits s .existence := by
    intro t conditional f hne
    obtain ⟨q, hq⟩ := List.exists_mem_of_ne_nil _ hne
    obtain ⟨target, htarget, -⟩ := Option.map_eq_some_iff.mp (Option.mem_toList.mp hq)
    obtain ⟨hfeature, hfollow, -⟩ := existenceTarget?_eq_some.mp htarget
    exact .existence hfeature hfollow
  induction items with
  | nil => simp [ExistenceTest.predicates] at h
  | cons item items ih =>
    obtain ⟨t, _ | f⟩ := item
    all_goals
      by_cases hrest : ExistenceTest.predicates c set s items = []
      · rw [ExistenceTest.predicates, hrest, List.append_nil] at h
        exact hone h
      · exact ih hrest

end Compiler

namespace Visit

variable {c : Compiler} {set : ProjectionSet} {v : Visit} {p : Predicate}

lemma exists_of_and?_filterMap {α : Type} {items : List α} {f : α → Option Predicate}
    (h : Predicate.and? (items.filterMap f) = some p) : ∃ i ∈ items, ∃ q, f i = some q := by
  have hne : items.filterMap f ≠ [] := by
    intro hnil
    rw [hnil] at h
    cases h
  obtain ⟨q, hq⟩ := List.exists_mem_of_ne_nil _ hne
  obtain ⟨i, hi, hiq⟩ := List.mem_filterMap.mp hq
  exact ⟨i, hi, q, hiq⟩

/-- An entry that constrains anything is admitted. -/
lemma admits_of_predicate? (hv : v.IsKeyed)
    (h : v.entry.predicate? c set v.scope v.key = some p) : c.Admits v.scope v.entry.key := by
  have hwritten := hv.key_written
  obtain ⟨s, key, e⟩ := v
  cases e with
  | all fs => exact .all
  | any fs => exact .any
  | negation f => exact .negation
  | id leaf => exact .id
  | quick text => exact .quick
  | included values => exact .included
  | compare items => exact .compare
  | search search =>
    obtain ⟨plan, hplan, -⟩ := Option.bind_eq_some_iff.mp h
    exact .search (Compiler.planSearch?_eq_some hplan).2.2.1
  | window items =>
    obtain ⟨w, -, q, hq⟩ := exists_of_and?_filterMap h
    obtain ⟨plan, hplan, -⟩ := Option.bind_eq_some_iff.mp hq
    exact .window (Compiler.planWindow?_eq_some hplan).2.1
  | subquery items =>
    obtain ⟨i, -, q, hq⟩ := exists_of_and?_filterMap h
    obtain ⟨plan, hplan, -⟩ := Option.bind_eq_some_iff.mp hq
    obtain ⟨-, hfeature, target, htarget, -⟩ := Compiler.planSubquery?_eq_some hplan
    exact .subquery hfeature (Compiler.toMany?_eq_some.mp htarget).1
  | existence items =>
    have hne : ExistenceTest.predicates c set s items ≠ [] := by
      intro hnil
      rw [FilterEntry.predicate?, hnil] at h
      cases h
    exact Compiler.admits_existence hne
  | related relation f =>
    rw [FilterEntry.predicate?] at h
    split at h
    · next inner hinner =>
      obtain ⟨hnest, r, target, hr, hone, -⟩ := Compiler.joinedScope?_eq_some.mp hinner
      exact .related hnest hr hone
    · simp at h
  | quantified relation quantifier f =>
    rw [FilterEntry.predicate?] at h
    split at h
    · next inner hinner =>
      obtain ⟨hnest, r, target, hr, hmany, -⟩ := Compiler.rowsScope?_eq_some.mp hinner
      exact .quantified quantifier hnest hr hmany
    · simp at h
  | aggregate a condition =>
    obtain ⟨i, -, q, hq⟩ := exists_of_and?_filterMap h
    obtain ⟨plan, hplan, -⟩ := Option.bind_eq_some_iff.mp hq
    obtain ⟨-, hgate, target, htarget, -⟩ := Compiler.planAggregate?_eq_some hplan
    cases condition with
    | none => exact .aggregate htarget
    | some condition =>
      obtain ⟨hfeature, hnest⟩ := hgate rfl
      exact .conditionalAggregate hfeature hnest htarget
  | trunc t =>
    obtain ⟨plan, hplan, -⟩ := Option.bind_eq_some_iff.mp h
    obtain ⟨-, hfeature, f, hf, htemporal⟩ := Compiler.planTrunc?_eq_some hplan
    exact .trunc hfeature hf htemporal
  | extract e =>
    obtain ⟨plan, hplan, -⟩ := Option.bind_eq_some_iff.mp h
    obtain ⟨-, hfeature, f, hf, htemporal⟩ := Compiler.planExtract?_eq_some hplan
    exact .extract hfeature hf htemporal
  | count relation leaf =>
    obtain rfl : relation ++ "_count" = key := hwritten
    rw [FilterEntry.predicate?] at h
    split at h
    · next hfield => exact Compiler.admits_count_of_fieldPredicate? hfield h
    · next hfield =>
      obtain ⟨plan, hplan, -⟩ := Option.bind_eq_some_iff.mp h
      obtain ⟨-, target, htarget⟩ := Compiler.planCount?_eq_some hplan
      exact .count hfield htarget
  | field name leaf => exact Compiler.admits_of_fieldPredicate? h

/-- An entry contributes if it constrains anything, includes identifiers in any case or plans a
projection, whatever has been collected. -/
def Contributes (c : Compiler) (v : Visit) : Prop :=
  ∃ set, (v.entry.predicate? c set v.scope v.key).isSome ∨
    FilterEntry.includedValues [(v.key, v.entry)] ≠ [] ∨ v.requests c set ≠ []

/-- **Every entry that contributes is admitted.** -/
theorem admits_of_contributes (hv : v.IsKeyed) (h : v.Contributes c) :
    c.Admits v.scope v.entry.key := by
  obtain ⟨set, hpredicate | hincluded | hrequests⟩ := h
  · obtain ⟨p, hp⟩ := Option.isSome_iff_exists.mp hpredicate
    exact admits_of_predicate? hv hp
  · obtain ⟨s, key, e⟩ := v
    cases e with
    | included values => exact .included
    | _ => exact absurd rfl hincluded
  · obtain ⟨r, hr⟩ := List.exists_mem_of_ne_nil _ hrequests
    exact admits_of_plans hv (plans_of_mem_requests hr)

end Visit

/-! ## What the schema offers -/

namespace Entity.IsKeyed

variable {e : Entity} {name : String}

/-- A field is among the fields, and carries the name under which it is found. -/
lemma mem_fields (he : e.IsKeyed) {f : Field} (hf : e.field? name = some f) :
    f ∈ e.fields.values ∧ f.name = name := by
  have hmem := Entries.mem_of_get? hf
  exact ⟨List.mem_map.mpr ⟨_, hmem, rfl⟩, he.field _ hmem⟩

/-- A relation is among the relations, and carries the name under which it is found. -/
lemma mem_relations (he : e.IsKeyed) {r : Relation} (hr : e.relation? name = some r) :
    r ∈ e.relations.values ∧ r.name = name := by
  have hmem := Entries.mem_of_get? hr
  exact ⟨List.mem_map.mpr ⟨_, hmem, rfl⟩, he.relation _ hmem⟩

end Entity.IsKeyed

/-- The filters that the catalog and the settings of the compiler allow. -/
def Compiler.language (c : Compiler) (scope : String) : FilterLanguage :=
  { catalog := c.catalog, settings := c.settings, scope }

namespace FilterLanguage

/-- The filter on an entity offers a field of a name. -/
def HasOffer (l : FilterLanguage) (e : Entity) (depth : Nat) (name : String) : Prop :=
  ∃ o ∈ l.offers e depth, o.field.name = name

variable {l : FilterLanguage} {e target : Entity} {depth : Nat} {name : String} {o : Offer}

lemma HasOffer.isSome_field? (h : l.HasOffer e depth name) :
    ((l.filterObject e depth).field? name).isSome := by
  obtain ⟨o, ho, rfl⟩ := h
  exact InputObject.isSome_field?_ofFields (List.mem_map.mpr ⟨o, ho, rfl⟩)

lemma Offered.hasOffer (h : l.Offered e depth o) : l.HasOffer e depth o.field.name :=
  ⟨o, mem_offers_iff.mpr h, rfl⟩

end FilterLanguage

/-- **What the compiler admits is offered**, where entities have no arrays as primary keys. -/
theorem Compiler.hasOffer_of_admits {c : Compiler} {s : Scope} {key : FilterKey} (scope : String)
    (hs : s.entity.IsKeyed) (hsKey : ¬s.entity.primaryKeyKind.isArray)
    (hkeys : ∀ e ∈ c.catalog.entities.values, ¬e.primaryKeyKind.isArray)
    (h : c.Admits s key) : (c.language scope).HasOffer s.entity s.depth key.written := by
  have hfollows {name : String} {r : Relation} {target : Entity}
      (hr : c.relation? s name = some (r, target)) (hfollow : c.canFollow s) :
      (c.language scope).Follows s.entity s.depth r target ∧ r.name = name := by
    obtain ⟨hrelation, htarget⟩ := Catalog.resolve?_eq_some.mp hr
    obtain ⟨hmem, hname⟩ := hs.mem_relations hrelation
    exact ⟨⟨hmem, htarget, depth_lt_of_canFollow hfollow⟩, hname⟩
  have hmany {name : String} {target : Entity} (htarget : c.toMany? s name = some target) :
      ∃ r, (c.language scope).Follows s.entity s.depth r target ∧ r.isToMany ∧ r.name = name := by
    obtain ⟨hfollow, r, hr, hmany⟩ := toMany?_eq_some.mp htarget
    exact ⟨r, (hfollows hr hfollow).1, hmany, (hfollows hr hfollow).2⟩
  have hoffer {o : Offer} (ho : (c.language scope).Offered s.entity s.depth o) :
      (c.language scope).HasOffer s.entity s.depth o.field.name := ho.hasOffer
  cases h with
  | all => exact hoffer (.combined (.inl rfl))
  | any => exact hoffer (.combined (.inr rfl))
  | negation => exact hoffer .negation
  | quick => exact hoffer .quick
  | included => exact hoffer .included
  | compare => exact hoffer .compare
  | id => exact hoffer (.id fun harray => absurd harray hsKey)
  | search hfeature => exact hoffer (.search hfeature)
  | window hfeature => exact hoffer (.window hfeature)
  | subquery hfeature hfollow => exact hoffer (.subquery (depth_lt_of_canFollow hfollow) hfeature)
  | existence hfeature hfollow => exact hoffer (.existence (depth_lt_of_canFollow hfollow) hfeature)
  | related hnest hr hone =>
    obtain ⟨hfollows, rfl⟩ := hfollows hr (canFollow_of_canNest hnest)
    refine hoffer (.joined hfollows ?_ (of_decide_eq_true hnest))
    simp only [Relation.isToOne, Relation.isToMany, decide_eq_true_eq] at hone ⊢
    simp [hone]
  | quantified quantifier hnest hr hmany =>
    obtain ⟨hfollows, rfl⟩ := hfollows hr (canFollow_of_canNest hnest)
    exact hoffer (.quantified hfollows hmany (of_decide_eq_true hnest) quantifier)
  | aggregate htarget =>
    obtain ⟨r, hfollows, hmany, rfl⟩ := hmany htarget
    exact hoffer (.aggregate hfollows hmany)
  | conditionalAggregate hfeature hnest htarget =>
    obtain ⟨r, hfollows, hmany, rfl⟩ := hmany htarget
    exact hoffer (.conditional hfollows hmany (of_decide_eq_true hnest) hfeature)
  | count hfree htarget =>
    obtain ⟨r, hfollows, hmany, rfl⟩ := hmany htarget
    exact hoffer (.count hfollows hmany hfree)
  | trunc hfeature hf htemporal =>
    obtain ⟨hmem, rfl⟩ := hs.mem_fields hf
    exact hoffer (.trunc hmem htemporal hfeature)
  | extract hfeature hf htemporal =>
    obtain ⟨hmem, rfl⟩ := hs.mem_fields hf
    exact hoffer (.extract hmem htemporal hfeature)
  | stored hf hgate =>
    obtain ⟨hmem, hname⟩ := hs.mem_fields hf
    rw [← hname]
    exact hoffer (.stored hmem hgate)
  | identifiers hfollow hr =>
    obtain ⟨hfollows, rfl⟩ := hfollows hr hfollow
    have htarget := Catalog.mem_values_of_entity? hfollows.target
    exact hoffer (.identifiers hfollows fun harray => absurd harray (hkeys _ htarget))

/-! ## Every entry that is reached -/

/-- The entries that compilation reaches, in the conditions of aggregates too: a condition is
compiled on its own, in the scope of the rows that are aggregated. -/
inductive Filter.Reaches (c : Compiler) : Scope → Filter → Visit → Prop where
  | visit {s : Scope} {f : Filter} {v : Visit} : v ∈ f.visits c s → Reaches c s f v
  | condition {s : Scope} {f : Filter} {v w : Visit} {a : Aggregation} {condition : Filter}
      {fingerprint : UInt32} {target : Entity} : v ∈ f.visits c s →
      v.entry = .aggregate a (some (condition, fingerprint)) → c.canNest v.scope →
      c.toMany? v.scope a.relation = some target →
      Reaches c (v.scope.enter a.relation target) condition w → Reaches c s f w

variable {c : Compiler}

/-- Step by step, compilation comes to every entry that is reached, and the entry is keyed. -/
lemma Filter.steps_of_reaches {s : Scope} {f : Filter} {v : Visit} (h : f.Reaches c s v)
    (hf : f.IsKeyed) : Relation.ReflTransGen c.Steps s v.scope ∧ v.IsKeyed := by
  induction h with
  | visit hv => exact ⟨Filter.reaches_of_mem_visits hv, Visit.isKeyed_of_mem_visits hf hv⟩
  | condition hv hentry hnest htarget _ ih =>
    have hkeyed := Visit.isKeyed_of_mem_visits hf hv
    obtain ⟨hreach, hw⟩ := ih (hkeyed.children _ (by simp [hentry, FilterEntry.children]))
    obtain ⟨-, r, hr, -⟩ := Compiler.toMany?_eq_some.mp htarget
    exact ⟨((Filter.reaches_of_mem_visits hv).tail (.enter hnest hr)).trans hreach, hw⟩

/-- A step of compilation leads from a filter to one that it needs. -/
lemma Compiler.leads_of_steps {s inner : Scope} (scope : String) (hs : s.entity.IsKeyed)
    (h : c.Steps s inner) :
    (c.language scope).Leads (s.entity, s.depth) (inner.entity, inner.depth) := by
  have hneeds : ∀ {name r target}, c.canNest s → c.relation? s name = some (r, target) →
      Need.filter target ∈ (c.language scope).needs s.entity s.depth := by
    intro name r target hnest hr
    obtain ⟨hrelation, htarget⟩ := Catalog.resolve?_eq_some.mp hr
    exact FilterLanguage.filter_mem_needs (hs.mem_relations hrelation).1 htarget
      (of_decide_eq_true hnest)
  cases h with
  | join hnest hr _ => exact ⟨hneeds hnest hr, Scope.depth_join⟩
  | enter hnest hr => exact ⟨hneeds hnest hr, Scope.depth_enter⟩

/-- The entity of a scope to which steps lead is in the catalog, as that of the first scope is. -/
lemma Compiler.mem_entities_of_steps {s inner : Scope} (hs : s.entity ∈ c.catalog.entities.values)
    (h : Relation.ReflTransGen c.Steps s inner) : inner.entity ∈ c.catalog.entities.values := by
  induction h with
  | refl => exact hs
  | tail _ hstep _ =>
    cases hstep with
    | join _ hr _ => exact Catalog.mem_values_of_entity? (Catalog.resolve?_eq_some.mp hr).2
    | enter _ hr => exact Catalog.mem_values_of_entity? (Catalog.resolve?_eq_some.mp hr).2

lemma Compiler.reaches_of_steps {s inner : Scope} (scope : String) (hc : c.catalog.IsKeyed)
    (hs : s.entity ∈ c.catalog.entities.values) (h : Relation.ReflTransGen c.Steps s inner) :
    Relation.ReflTransGen (c.language scope).Leads (s.entity, s.depth)
      (inner.entity, inner.depth) := by
  induction h with
  | refl => exact .refl
  | tail hreach hstep ih =>
    exact ih.tail (leads_of_steps scope (hc _ (mem_entities_of_steps hs hreach)) hstep)

lemma Catalog.StoresByName.distinct (h : c.catalog.StoresByName) (scope : String) :
    (c.language scope).Distinct :=
  FilterLanguage.distinct_of_stored h.entity

/-- **What is compiled is offered**: wherever compilation comes to in a filter that has been read,
the schema has the filter on the entity there, at the depth there, and every entry that contributes
stands under the name of one of its fields. -/
theorem Compiler.offers_of_reaches {d : Document} {f : Filter} {n : String} {e : Entity}
    (scope : String) (hstored : c.catalog.StoresByName)
    (hkeys : ∀ x ∈ c.catalog.entities.values, ¬x.primaryKeyKind.isArray)
    (hf : Filter.ofDocument? d = some f) (he : c.catalog.entity? n = some e) :
    ∃ schema, (c.language scope).schema? n 0 = some schema ∧
      ∀ v, f.Reaches c { entity := e } v →
        ∃ o, schema.types.get? (filterName scope v.scope.entity.name v.scope.depth) = some o ∧
          (v.Contributes c → (o.field? v.key).isSome) := by
  have hmem := Catalog.mem_values_of_entity? he
  refine ⟨_, FilterLanguage.schema?_eq_some he, fun v hv => ?_⟩
  obtain ⟨hsteps, hkeyed⟩ := Filter.steps_of_reaches hv (Filter.isKeyed_of_ofDocument? d hf)
  have hentity := mem_entities_of_steps hmem hsteps
  have hleads := reaches_of_steps scope hstored.parts hmem hsteps
  refine ⟨(c.language scope).filterObject v.scope.entity v.scope.depth,
    FilterLanguage.get?_of_reaches (hstored.distinct scope) hmem hleads, fun hcontributes => ?_⟩
  have hadmits := Visit.admits_of_contributes hkeyed hcontributes
  have hoffer := hasOffer_of_admits scope (hstored.parts _ hentity) (hkeys _ hentity) hkeys hadmits
  rw [hkeyed.key_written] at hoffer
  exact hoffer.isSome_field?

lemma Shop.storesByName : Shop.compiler.catalog.StoresByName :=
  ⟨by decide, Shop.isKeyed⟩

namespace Shop

/-- A review praises the product. -/
def praising : Filter :=
  .node [("reviews_some", .quantified "reviews" .some
    (.node [("text", .field "text" (leaf "eq" (.text "good")))]))]

/-- What is said about the review. -/
def praisingText : Visit :=
  ⟨({ entity := product } : Scope).enter "reviews" review, "text",
    .field "text" (leaf "eq" (.text "good"))⟩

end Shop

theorem Compiler.offers_of_reaches_shop :
    ∃ d schema o, Filter.ofDocument? d = some Shop.praising ∧
      (Shop.compiler.language "").schema? "Product" 0 = some schema ∧
      Shop.praising.Reaches Shop.compiler { entity := Shop.product } Shop.praisingText ∧
      Shop.praisingText.Contributes Shop.compiler ∧
      schema.types.get? "ReviewWhereInputDepth1" = some o ∧ (o.field? "text").isSome := by
  have hd : Filter.ofDocument? (.object [("reviews_some",
      .object [("text", .object [("eq", .text "good")])])]) = some Shop.praising := by
    have hsome : FilterKey.ofName "reviews_some" = .quantified "reviews" .some := by decide
    have htext : FilterKey.ofName "text" = .field "text" := by decide
    rw [Filter.ofDocument?, FilterEntry.ofMembers, hsome, FilterEntry.ofDocument?,
      Filter.ofDocument?, FilterEntry.ofMembers, FilterEntry.ofMembers, htext,
      FilterEntry.ofDocument?, FilterEntry.ofMembers]
    rfl
  have hkeys : ∀ x ∈ Shop.compiler.catalog.entities.values, ¬x.primaryKeyKind.isArray := by decide
  obtain ⟨schema, hschema, hoffers⟩ :=
    offers_of_reaches "" Shop.storesByName hkeys hd (n := "Product") (e := Shop.product) rfl
  have hreached : Shop.praising.Reaches Shop.compiler { entity := Shop.product }
      Shop.praisingText := .visit (List.mem_cons_of_mem _ List.mem_cons_self)
  have hcontributes : Shop.praisingText.Contributes Shop.compiler := ⟨.empty, .inl rfl⟩
  obtain ⟨o, ho, hfield⟩ := hoffers _ hreached
  exact ⟨_, schema, o, hd, hschema, hreached, hcontributes, ho, hfield hcontributes⟩

/-- Compilation comes to an entry that contributes, under a key that is no field of the filter that
the schema has there. -/
def Compiler.TakesUnoffered (c : Compiler) (n : String) (d : Document) : Prop :=
  ∃ f e v schema o, Filter.ofDocument? d = some f ∧ c.catalog.entity? n = some e ∧
    f.Reaches c { entity := e } v ∧ v.Contributes c ∧
    (c.language "").schema? n 0 = some schema ∧
    schema.types.get? (filterName "" v.scope.entity.name v.scope.depth) = some o ∧
    o.field? v.key = none

/-- What contributes at the top of a filter can be missing in the filter on the entity. -/
lemma Compiler.takesUnoffered_of_field?_eq_none {n : String} {d : Document} {f : Filter}
    {e : Entity} {key : String} {entry : FilterEntry}
    (hstored : ∀ p ∈ c.catalog.entities.entries, p.2.name = p.1)
    (hf : Filter.ofDocument? d = some f) (he : c.catalog.entity? n = some e)
    (hvisit : ⟨{ entity := e }, key, entry⟩ ∈ f.visits c { entity := e })
    (hcontributes : Visit.Contributes c ⟨{ entity := e }, key, entry⟩)
    (hkey : ((c.language "").filterObject e 0).field? key = none) : c.TakesUnoffered n d := by
  have hroot := FilterLanguage.get?_of_reaches (FilterLanguage.distinct_of_stored hstored)
    (l := c.language "") (Catalog.mem_values_of_entity? he) (.refl (a := (e, 0)))
  exact ⟨f, e, _, _, _, hf, he, .visit hvisit, hcontributes, FilterLanguage.schema?_eq_some he,
    hroot, hkey⟩

namespace Diary

/-- Notes of a day are asked for where the day is stored. -/
lemma takesUnoffered_dated :
    dated.TakesUnoffered "Note" (.object [("on", .object [("eq", .text "2024-01-05")])]) := by
  have hd : Filter.ofDocument? (.object [("on", .object [("eq", .text "2024-01-05")])]) =
      some (.node [("on", .field "on" (Shop.leaf "eq" (.text "2024-01-05")))]) := by
    have hon : FilterKey.ofName "on" = .field "on" := by decide
    rw [Filter.ofDocument?, FilterEntry.ofMembers, hon, FilterEntry.ofDocument?,
      FilterEntry.ofMembers]
    rfl
  exact Compiler.takesUnoffered_of_field?_eq_none (by decide) hd rfl List.mem_cons_self
    ⟨.empty, .inl rfl⟩ (by decide +kernel)

/-- Answers are counted where they are stored. -/
lemma takesUnoffered_answered :
    answered.TakesUnoffered "Note" (.object [("answers_count", .object [("gte", .int 1)])]) := by
  have hd : Filter.ofDocument? (.object [("answers_count", .object [("gte", .int 1)])]) =
      some discussed := by
    have hcount : FilterKey.ofName "answers_count" = .count "answers" := by decide
    rw [Filter.ofDocument?, FilterEntry.ofMembers, hcount, FilterEntry.ofDocument?,
      FilterEntry.ofMembers]
    rfl
  exact Compiler.takesUnoffered_of_field?_eq_none (by decide) hd rfl List.mem_cons_self
    ⟨.empty, .inr (.inr (by decide +kernel))⟩ (by decide +kernel)

end Diary

/-- Where a field or a relation is stored under another name than its own, the compiler takes the
one name and the schema offers the other, though all entities are stored under their own names and
no primary key is an array. -/
theorem Compiler.offers_not_always :
    ((∀ p ∈ Diary.dated.catalog.entities.entries, p.2.name = p.1) ∧
      (∀ x ∈ Diary.dated.catalog.entities.values, ¬x.primaryKeyKind.isArray) ∧
      Diary.dated.TakesUnoffered "Note" (.object [("on", .object [("eq", .text "2024-01-05")])])) ∧
    ((∀ p ∈ Diary.answered.catalog.entities.entries, p.2.name = p.1) ∧
      (∀ x ∈ Diary.answered.catalog.entities.values, ¬x.primaryKeyKind.isArray) ∧
      Diary.answered.TakesUnoffered "Note"
        (.object [("answers_count", .object [("gte", .int 1)])])) :=
  ⟨⟨by decide, by decide, Diary.takesUnoffered_dated⟩,
    ⟨by decide, by decide, Diary.takesUnoffered_answered⟩⟩

end EntityFilter
