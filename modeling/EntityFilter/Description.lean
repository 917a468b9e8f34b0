import EntityFilter.Catalog
import EntityFilter.Operator
import EntityFilter.Settings

/-!
# What a filter on an entity may contain

A description lists the fields of an entity with their operators, the keys that its relations
offer, and the keys that belong to neither.  It covers the filter on the entity itself, and leaves
out what the settings turn off.
-/

namespace EntityFilter

/-- A field and what can be done with it. -/
structure FieldDescription where
  /-- The field. -/
  field : Field
  /-- Its operators. -/
  operators : List OperatorInfo
  /-- The keys that are made from its name. -/
  extraKeys : List String

/-- A relation and the keys that it offers. -/
structure RelationDescription where
  /-- The relation. -/
  relation : Relation
  /-- The keys. -/
  keys : List String

/-- A key that belongs to no field or relation. -/
structure KeyDescription where
  /-- The key. -/
  key : String
  /-- What it does. -/
  description : String
  deriving DecidableEq

/-- What a filter on an entity may contain. -/
structure EntityDescription where
  /-- The name of the entity. -/
  entity : String
  /-- The fields. -/
  fields : List FieldDescription
  /-- The relations. -/
  relations : List RelationDescription
  /-- The other keys. -/
  specialKeys : List KeyDescription

namespace EntityDescription

/-- The field of a name. -/
def field? (d : EntityDescription) (name : String) : Option FieldDescription :=
  d.fields.find? (·.field.name = name)

/-- The relation of a name. -/
def relation? (d : EntityDescription) (name : String) : Option RelationDescription :=
  d.relations.find? (·.relation.name = name)

/-- Whether a key belongs to no field or relation. -/
def hasSpecialKey (d : EntityDescription) (key : String) : Bool :=
  d.specialKeys.any (·.key = key)

/-- Describe a field. -/
def ofField (features : Features) (f : Field) : FieldDescription where
  field := f
  operators := f.kind.operators
  extraKeys :=
    if f.kind.isTemporal then
      (if features.dateTrunc then [f.name ++ "_trunc"] else []) ++
      (if features.dateExtract then [f.name ++ "_extract"] else [])
    else []

/-- Describe a relation of an entity. -/
def ofRelation (e : Entity) (s : Settings) (r : Relation) : RelationDescription where
  relation := r
  keys :=
    let nested := 1 < s.schema.maxRelationDepth
    let count := r.name ++ "_count"
    r.name ::
      if r.isToOne then if nested then [r.name ++ "_rel"] else []
      else
        [r.name ++ "_agg"] ++ (if e.hasField count then [] else [count]) ++
        if nested then
          (if s.features.conditionalAggregation then [r.name ++ "_cond_agg"] else []) ++
          [r.name ++ "_some", r.name ++ "_every", r.name ++ "_none"]
        else []

/-- The keys that belong to no field or relation. -/
def specialKeysOf (s : Settings) : List KeyDescription :=
  let follows := 0 < s.schema.maxRelationDepth
  [⟨"id", "Filter on the primary key"⟩,
   ⟨"quick", "Case-insensitive text match across the quick-search fields"⟩,
   ⟨"include", "Identifiers always part of the result"⟩,
   ⟨"AND", "Every nested filter matches"⟩,
   ⟨"OR", "At least one nested filter matches"⟩,
   ⟨"NOT", "The nested filter does not match"⟩,
   ⟨"_compare", "Compare two fields of the same row"⟩] ++
  (if s.features.window then [⟨"_window", "Filter on a window function result"⟩] else []) ++
  (if follows && s.features.subquery then
    [⟨"_subquery", "Filter on a value looked up in related rows"⟩] else []) ++
  (if follows && s.features.existence then
    [⟨"_exists", "Test whether related rows exist"⟩] else []) ++
  (if s.features.fullText then [⟨"search", "Full-text search over the search fields"⟩] else [])

end EntityDescription

/-- Describe an entity under given settings. -/
def Entity.describe (e : Entity) (s : Settings) : EntityDescription where
  entity := e.name
  fields := (e.fields.values.filter fun f => s.features.array || !f.kind.isArray).map
    (EntityDescription.ofField s.features)
  relations :=
    if s.schema.maxRelationDepth = 0 then []
    else e.relations.values.map (EntityDescription.ofRelation e s)
  specialKeys := EntityDescription.specialKeysOf s

end EntityFilter
