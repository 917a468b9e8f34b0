import EntityFilter.Catalog.Reader
import EntityFilter.Proofs.Requests

/-!
# Paths through a catalog

A path of relations leads from entity to entity (`Catalog.along?`).  Two such paths say where
compilation is: one leads from the filtered entity to the rows that are tested, the other from there
to the entity that is named (`Scope.Located`), and the walk never loses them
(`Filter.located_of_mem_visits`).

Names do not mix in a catalog that is valid: what is a relation is no field, and the primary key is
a field (`Catalog.IsSound`).  Validation looks at the names that fields and relations carry, and
filters use the names under which these are stored.  So this holds for catalogs that store fields
and relations under their own names (`Catalog.IsKeyed`), which is what building a catalog does and
what reading one does (`Catalog.isKeyed_of_ofText`).
-/

namespace EntityFilter

/-! ## Catalogs that store everything under its own name -/

/-- Fields and relations are stored under their own names. -/
structure Entity.IsKeyed (e : Entity) : Prop where
  field : ∀ p ∈ e.fields.entries, p.2.name = p.1
  relation : ∀ p ∈ e.relations.entries, p.2.name = p.1

/-- The fields and relations of every entity are stored under their own names. -/
def Catalog.IsKeyed (c : Catalog) : Prop := ∀ e ∈ c.entities.values, e.IsKeyed

lemma Entity.isKeyed_of_eq_nil {e : Entity} (hf : e.fields.entries = [])
    (hr : e.relations.entries = []) : e.IsKeyed where
  field p hp := by
    rw [hf] at hp
    simp at hp
  relation p hp := by
    rw [hr] at hp
    simp at hp

/-- A field is found under the name that it carries. -/
lemma Entity.IsKeyed.field?_name {e : Entity} (he : e.IsKeyed) {f : Field}
    (hf : f ∈ e.fields.values) : e.field? f.name = some f := by
  obtain ⟨p, hp, rfl⟩ := List.mem_map.mp hf
  rw [he.field p hp]
  exact Entries.get?_of_mem e.fields.nodup hp

/-- A relation is found under the name that it carries. -/
lemma Entity.IsKeyed.relation?_name {e : Entity} (he : e.IsKeyed) {r : Relation}
    (hr : r ∈ e.relations.values) : e.relation? r.name = some r := by
  obtain ⟨p, hp, rfl⟩ := List.mem_map.mp hr
  rw [he.relation p hp]
  exact Entries.get?_of_mem e.relations.nodup hp

lemma Catalog.isKeyed_empty : Catalog.IsKeyed {} := fun _ he => absurd he List.not_mem_nil

lemma Entity.IsKeyed.withField {e : Entity} (h : e.IsKeyed) (f : Field) :
    (e.withField f).IsKeyed where
  field p hp := by
    rcases Entries.mem_insert hp with rfl | hp
    · rfl
    · exact h.field p hp
  relation := h.relation

lemma Entity.IsKeyed.withRelation {e : Entity} (h : e.IsKeyed) (r : Relation) :
    (e.withRelation r).IsKeyed where
  field := h.field
  relation p hp := by
    rcases Entries.mem_insert hp with rfl | hp
    · rfl
    · exact h.relation p hp

lemma Catalog.IsKeyed.withEntity {c : Catalog} {e : Entity} (h : c.IsKeyed) (he : e.IsKeyed) :
    (c.withEntity e).IsKeyed := by
  intro e' hmem
  obtain ⟨p, hp, rfl⟩ := List.mem_map.mp hmem
  rcases Entries.mem_insert hp with rfl | hp
  · exact he
  · exact h p.2 (List.mem_map.mpr ⟨p, hp, rfl⟩)

lemma Entity.isKeyed_of_ofToml? {name : String} {t : Toml} {e : Entity}
    (h : Entity.ofToml? name t = some e) : e.IsKeyed := by
  unfold Entity.ofToml? at h
  simp only [Option.bind_eq_bind, Option.bind_eq_some_iff, Option.pure_def,
    Option.some.injEq] at h
  obtain ⟨-, -, -, -, fields, -, relations, -, -, -, -, -, -, -, -, -, rfl⟩ := h
  have hfields : ∀ (fs : List Field) (e : Entity), e.IsKeyed →
      (fs.foldl Entity.withField e).IsKeyed := by
    intro fs
    induction fs with
    | nil => exact fun _ h => h
    | cons f fs ih => exact fun e h => ih _ (h.withField f)
  have hrelations : ∀ (rs : List Relation) (e : Entity), e.IsKeyed →
      (rs.foldl Entity.withRelation e).IsKeyed := by
    intro rs
    induction rs with
    | nil => exact fun _ h => h
    | cons r rs ih => exact fun e h => ih _ (h.withRelation r)
  exact hrelations _ _ (hfields _ _ (isKeyed_of_eq_nil rfl rfl))

/-- What is read from a table is read from its members. -/
lemma Toml.of_mem_asMap? {α : Type} {f : String → Toml → Option α} {t : Toml} {xs : List α} {x : α}
    (h : t.asMap? f = some xs) (hx : x ∈ xs) : ∃ name value, f name value = some x := by
  unfold Toml.asMap? at h
  split at h
  · next ms =>
    induction ms generalizing xs with
    | nil =>
      simp only [List.mapM_nil, Option.pure_def, Option.some.injEq] at h
      simp [← h] at hx
    | cons m ms ih =>
      simp only [List.mapM_cons, Option.bind_eq_bind, Option.bind_eq_some_iff, Option.pure_def,
        Option.some.injEq] at h
      obtain ⟨y, hy, ys, hys, rfl⟩ := h
      rcases List.mem_cons.mp hx with rfl | hx
      · exact ⟨m.1, m.2, hy⟩
      · exact ih hx hys
  · simp at h

/-- A catalog that is read is built entity by entity, and each of them field by field. -/
lemma Catalog.eq_foldl_of_ofMembers? {root : Toml.Members} {c : Catalog}
    (h : Catalog.ofMembers? root = some c) :
    ∃ entities : List Entity, (∀ e ∈ entities, e.IsKeyed) ∧
      c = entities.foldl Catalog.withEntity {} := by
  unfold Catalog.ofMembers? at h
  simp only [Option.bind_eq_bind, Option.bind_eq_some_iff, Option.pure_def,
    Option.some.injEq] at h
  obtain ⟨parts, -, entities, hentities, rfl⟩ := h
  refine ⟨entities, fun e he => ?_, rfl⟩
  unfold Toml.optional? at hentities
  split at hentities
  · obtain ⟨name, t, ht⟩ := Toml.of_mem_asMap? hentities he
    exact Entity.isKeyed_of_ofToml? ht
  · obtain rfl := Option.some.inj hentities
    simp at he

/-- What holds of the empty catalog, and is kept when an entity with its parts under their own names
is added, holds of every catalog that is read. -/
theorem Catalog.of_ofText {P : Catalog → Prop} (hempty : P {})
    (hwith : ∀ c e, P c → Entity.IsKeyed e → P (c.withEntity e)) {env : Environment} {s : String}
    {c : Catalog} (h : Catalog.ofText env s = .ok c) : P c := by
  have hfold : ∀ (es : List Entity) (c : Catalog), P c → (∀ e ∈ es, e.IsKeyed) →
      P (es.foldl Catalog.withEntity c) := by
    intro es
    induction es with
    | nil => exact fun _ hc _ => hc
    | cons e es ih =>
      intro c hc hes
      rw [List.forall_mem_cons] at hes
      exact ih _ (hwith c e hc hes.1) hes.2
  unfold Catalog.ofText at h
  split at h
  · next c' hc =>
    obtain ⟨root, -, hroot⟩ := Option.bind_eq_some_iff.mp hc
    obtain rfl := Except.ok.inj h
    obtain ⟨entities, hkeyed, rfl⟩ := eq_foldl_of_ofMembers? hroot
    exact hfold entities {} hempty hkeyed
  · simp at h

/-- **Every catalog that is read stores its parts under their own names.** -/
theorem Catalog.isKeyed_of_ofText {env : Environment} {s : String} {c : Catalog}
    (h : Catalog.ofText env s = .ok c) : c.IsKeyed :=
  of_ofText isKeyed_empty (fun _ _ hc he => hc.withEntity he) h

/-! ## Names do not mix -/

/-- The names of an entity are what they are taken for: its primary key is a field, a field is found
under the name that it carries, and no relation is a field. -/
structure Entity.IsSound (e : Entity) : Prop where
  primaryKey : ∃ f, e.field? e.primaryKey = some f
  stored : ∀ f ∈ e.fields.values, e.field? f.name = some f
  apart : ∀ {name r}, e.relation? name = some r → e.field? name = none

/-- The names of every entity are what they are taken for. -/
def Catalog.IsSound (c : Catalog) : Prop := ∀ {n e}, c.entity? n = some e → e.IsSound

lemma Entity.isSound_of_faults {c : Catalog} {e : Entity} (h : e.faults c = []) (hk : e.IsKeyed) :
    e.IsSound where
  primaryKey := by
    simp only [faults, List.append_eq_nil_iff, ite_eq_left_iff, List.cons_ne_nil, imp_false,
      not_not] at h
    exact Option.isSome_iff_exists.mp h.1.1.2
  stored _ hf := hk.field?_name hf
  apart {name r} hr := by
    have hmem := Entries.mem_of_get? hr
    have hname : r.name = name := hk.relation _ hmem
    simp only [faults, List.append_eq_nil_iff, List.flatMap_eq_nil_iff] at h
    have hcollision := (h.2 r (List.mem_map.mpr ⟨_, hmem, rfl⟩)).1.2
    rw [hname] at hcollision
    simp only [ite_eq_right_iff, List.cons_ne_nil, imp_false] at hcollision
    exact Option.not_isSome_iff_eq_none.mp hcollision

lemma Catalog.mem_values_of_entity? {c : Catalog} {n : String} {e : Entity}
    (h : c.entity? n = some e) : e ∈ c.entities.values :=
  List.mem_map.mpr ⟨_, Entries.mem_of_get? h, rfl⟩

/-- **Names do not mix in a valid catalog** that stores its parts under their own names. -/
theorem Catalog.isSound_of_isValid {c : Catalog} (h : c.IsValid) (hk : c.IsKeyed) : c.IsSound := by
  intro n e he
  have hmem := mem_values_of_entity? he
  exact Entity.isSound_of_faults (List.flatMap_eq_nil_iff.mp h e hmem) (hk e hmem)

namespace Entity.IsSound

variable {e : Entity} {f : Field}

lemma searchable (he : e.IsSound) {names : List String} (hf : f ∈ e.searchable names) :
    e.field? f.name = some f := by
  unfold Entity.searchable at hf
  split at hf
  · exact he.stored f (List.mem_filter.mp hf).1
  · obtain ⟨name, -, hname⟩ := List.mem_filterMap.mp hf
    exact he.stored f (List.mem_map.mpr ⟨_, Entries.mem_of_get? hname, rfl⟩)

end Entity.IsSound

/-! ## Paths -/

namespace Catalog

variable {c : Catalog} {e target : Entity} {path rest : List String} {name : String} {r : Relation}

/-- The entity that a path of relations leads to. -/
def along? (c : Catalog) (e : Entity) : List String → Option Entity
  | [] => some e
  | name :: path => (c.resolve? e name).bind fun (_, target) => c.along? target path

lemma along?_append :
    c.along? e (path ++ rest) = (c.along? e path).bind fun target => c.along? target rest := by
  induction path generalizing e with
  | nil => rfl
  | cons name path ih =>
    simp only [List.cons_append, along?, Option.bind_assoc]
    exact congrArg _ (funext fun _ => ih)

lemma along?_single (h : c.resolve? e name = some (r, target)) :
    c.along? e [name] = some target := by
  simp [along?, h]

lemma along?_cons_eq_some :
    c.along? e (name :: path) = some target ↔
      ∃ r next, c.resolve? e name = some (r, next) ∧ c.along? next path = some target := by
  simp [along?, Option.bind_eq_some_iff]

lemma resolve?_eq_some :
    c.resolve? e name = some (r, target) ↔
      e.relation? name = some r ∧ c.entity? r.target = some target := by
  simp only [resolve?, Option.bind_eq_bind, Option.bind_eq_some_iff, Option.pure_def,
    Option.some.injEq, Prod.mk.injEq]
  constructor
  · rintro ⟨r', hr, target', ht, rfl, rfl⟩
    exact ⟨hr, ht⟩
  · rintro ⟨hr, ht⟩
    exact ⟨r, hr, target, ht, rfl, rfl⟩

lemma IsSound.resolve? (hc : c.IsSound) (h : c.resolve? e name = some (r, target)) :
    target.IsSound :=
  hc (resolve?_eq_some.mp h).2

lemma IsSound.along? (hc : c.IsSound) (he : e.IsSound) (h : c.along? e path = some target) :
    target.IsSound := by
  induction path generalizing e with
  | nil =>
    obtain rfl := Option.some.inj h
    exact he
  | cons name path ih =>
    obtain ⟨r, next, hr, hpath⟩ := along?_cons_eq_some.mp h
    exact ih (hc.resolve? hr) hpath

end Catalog

/-! ## Where compilation is -/

/-- The paths of a scope lead from the filtered entity to the entity of the rows that are tested,
and from there to the entity that is named. -/
def Scope.Located (c : Catalog) (e : Entity) (s : Scope) : Prop :=
  ∃ base, c.along? e s.rows.segments = some base ∧ c.along? base s.joined.segments = some s.entity

lemma Scope.located_refl (c : Catalog) (e : Entity) : Scope.Located c e { entity := e } :=
  ⟨e, rfl, rfl⟩

lemma Scope.Located.of_steps {c : Compiler} {e : Entity} {s inner : Scope}
    (h : s.Located c.catalog e) (hs : c.Steps s inner) : inner.Located c.catalog e := by
  obtain ⟨base, hbase, hjoined⟩ := h
  cases hs with
  | @join name r target _ hr _ =>
    refine ⟨base, hbase, ?_⟩
    show c.catalog.along? base (s.joined.segments ++ [name]) = some target
    rw [Catalog.along?_append, hjoined]
    exact Catalog.along?_single hr
  | @enter name r target _ hr =>
    refine ⟨target, ?_, rfl⟩
    show c.catalog.along? e (s.rows.segments ++ s.joined.segments ++ [name]) = some target
    rw [Catalog.along?_append, Catalog.along?_append, hbase, Option.bind_some, hjoined]
    exact Catalog.along?_single hr

/-- **The walk knows where it is.** -/
theorem Filter.located_of_mem_visits {c : Compiler} {e : Entity} {s : Scope} {f : Filter}
    {v : Visit} (hs : s.Located c.catalog e) (hv : v ∈ f.visits c s) :
    v.scope.Located c.catalog e := by
  have hreach := Filter.reaches_of_mem_visits hv
  revert hreach
  generalize v.scope = inner
  intro hreach
  induction hreach with
  | refl => exact hs
  | tail _ hstep ih => exact ih.of_steps hstep

/-- The shop is built entity by entity, and each of them field by field. -/
lemma Shop.isKeyed : Shop.compiler.catalog.IsKeyed := by
  have hreview : review.IsKeyed := ((Entity.isKeyed_of_eq_nil rfl rfl).withField _).withField _
  have hbrand : brand.IsKeyed :=
    (((Entity.isKeyed_of_eq_nil rfl rfl).withField _).withField _).withRelation _
  have hproduct : product.IsKeyed :=
    ((((Entity.isKeyed_of_eq_nil rfl rfl).withField _).withField _).withRelation _).withRelation _
  exact ((Catalog.isKeyed_empty.withEntity hproduct).withEntity hbrand).withEntity hreview

/-! ## A diary

Notes with one field or one relation, which need not be stored under the name that it carries. -/

namespace Diary

/-- Compilation against notes with one field, stored under a name, every feature switched on. -/
def compiler (stored : String) (f : Field) : Compiler :=
  { catalog := Catalog.withEntity {} { name := "Note", fields := .ofList [(stored, f)] }
    settings := { features := .all }
    now := ⟨0, 0⟩ }

/-- Compilation against notes with one relation, stored under a name. -/
def linkedCompiler (stored : String) (r : Relation) : Compiler :=
  { catalog := Catalog.withEntity {} { name := "Note", relations := .ofList [(stored, r)] }
    settings := { features := .all }
    now := ⟨0, 0⟩ }

/-- The day of a note, a field that is stored under another name than its own. -/
def dated : Compiler := compiler "on" { name := "day", kind := .date }

/-- The notes that answer a note, a relation that is stored under another name than its own. -/
def answered : Compiler :=
  linkedCompiler "answers" { name := "replies", cardinality := .many, target := "Note" }

/-- Notes with answers. -/
def discussed : Filter := .node [("answers_count", .count "answers" (Shop.leaf "gte" (.int 1)))]

end Diary

end EntityFilter
