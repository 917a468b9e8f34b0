import EntityFilter.Catalog
import EntityFilter.FilterSchema.Operand
import EntityFilter.Settings

/-!
# The language of filters

A catalog and settings decide which filters there are: the language.  `FilterLanguage.offers` lists
what a filter on an entity may contain, field by field, each with the objects that have to be
defined for it.  How far the entity is from the one that is filtered in the first place is its
depth; relations are followed up to the depth that the settings allow.

`FilterLanguage.schema?` collects the objects from the filter on an entity onwards.  An object of a
filter is defined before the objects that its fields refer to, any other object after them, and
no object is defined twice.
-/

namespace EntityFilter

/-- What decides which filters there are. -/
structure FilterLanguage where
  /-- The entities. -/
  catalog : Catalog
  /-- The settings. -/
  settings : Settings := {}
  /-- What the names of filters begin with. -/
  scope : String := ""

/-- The name of the filter on an entity of a given name at a given depth. -/
def filterName (scope entity : String) (depth : Nat) : String :=
  scope ++ entity ++ "WhereInput" ++ if depth = 0 then "" else s!"Depth{depth}"

/-- Something that has to be defined for a field. -/
inductive Need where
  /-- An input object. -/
  | object (object : InputObject)
  /-- The filter on an entity that a relation leads to. -/
  | filter (target : Entity)

/-- A field of a filter, and what has to be defined for it, in order. -/
structure Offer where
  /-- The field. -/
  field : InputField
  /-- What has to be defined. -/
  needs : List Need := []

namespace Offer

/-- A field that refers to the last of some input objects, each of which is defined. -/
def ofObjects (name : String) (type : InputType) (objects : List InputObject)
    (description : Option String := none) : Offer :=
  ⟨⟨name, type, description⟩, objects.map .object⟩

end Offer

namespace FilterLanguage

/-- The greatest depth at which there are filters. -/
def maxDepth (l : FilterLanguage) : Nat := l.settings.schema.maxRelationDepth

/-- The advanced features. -/
def features (l : FilterLanguage) : Features := l.settings.features

/-- The name of the filter on an entity. -/
def nameOf (l : FilterLanguage) (e : Entity) (depth : Nat) : String :=
  filterName l.scope e.name depth

/-- A field that holds the operators of a kind, if the kind has any: those of arrays are a feature
of its own. -/
def operatorsOffers (l : FilterLanguage) (name : String) (kind : FieldKind)
    (description : Option String := none) : List Offer :=
  if kind.isArray && !l.features.array then []
  else [.ofObjects name (.object kind.operatorsName) kind.operatorsDefinitions description]

/-- The description of a field: its own, or the values that it is restricted to. -/
def describe (f : Field) : Option String :=
  match f.documentation with
  | some text => some text
  | none => f.choices.bind InputObject.oneOf

/-- What a filter may contain for a field. -/
def fieldOffers (l : FilterLanguage) (f : Field) : List Offer :=
  l.operatorsOffers f.name f.kind (describe f) ++
  if f.kind.isTemporal then
    (if l.features.dateTrunc then
      [.ofObjects (f.name ++ "_trunc") (.object f.kind.truncName)
        (f.kind.operatorsDefinitions ++ [.trunc f.kind])] else []) ++
    (if l.features.dateExtract then
      [.ofObjects (f.name ++ "_extract") (.object InputObject.extract.name)
        (FieldKind.int.operatorsDefinitions ++ [.extract])] else [])
  else []

/-- A field that holds a filter on the target of a relation, given its depth. -/
def nestedOffer (l : FilterLanguage) (name : String) (target : Entity) (depth : Nat)
    (description : Option String := none) : Offer :=
  ⟨⟨name, .object (l.nameOf target depth), description⟩, [.filter target]⟩

/-- A constraint on aggregates of those related rows that satisfy a filter. -/
def conditionalOffer (l : FilterLanguage) (name : String) (target : Entity) (depth : Nat) : Offer :=
  let object := InputObject.conditionalAggregate (l.nameOf target depth)
  ⟨⟨name, .object object.name, none⟩,
    .filter target :: (InputObject.numbers ++ [object]).map .object⟩

/-- What a filter at a given depth may contain for a relation to many rows. -/
def toManyOffers (l : FilterLanguage) (e : Entity) (r : Relation) (target : Entity) (depth : Nat) :
    List Offer :=
  let count := r.name ++ "_count"
  [.ofObjects (r.name ++ "_agg") (.object InputObject.aggregate.name)
    (InputObject.numbers ++ [.aggregate])] ++
  (if e.hasField count then [] else l.operatorsOffers count .int) ++
  if depth + 1 < l.maxDepth then
    (if l.features.conditionalAggregation then
      [l.conditionalOffer (r.name ++ "_cond_agg") target (depth + 1)] else []) ++
    [l.nestedOffer (r.name ++ "_some") target (depth + 1) "At least one related row matches",
     l.nestedOffer (r.name ++ "_every") target (depth + 1)
      "There are related rows and every one matches",
     l.nestedOffer (r.name ++ "_none") target (depth + 1) "No related row matches"]
  else []

/-- What a filter at a given depth may contain for a relation, if its target is in the catalog. -/
def relationOffers (l : FilterLanguage) (e : Entity) (depth : Nat) (r : Relation) : List Offer :=
  match l.catalog.entity? r.target with
  | none => []
  | some target =>
    l.operatorsOffers r.name target.primaryKeyKind
      ("Filter on the identifiers of " ++ target.name : String) ++
    if r.isToMany then l.toManyOffers e r target depth
    else if depth + 1 < l.maxDepth then
      [l.nestedOffer (r.name ++ "_rel") target (depth + 1)]
    else []

/-- What a filter on an entity may contain apart from fields and relations. -/
def specialOffers (l : FilterLanguage) (e : Entity) (depth : Nat) : List Offer :=
  let own : InputType := .object (l.nameOf e depth)
  let list (name : String) (objects : List InputObject) (last : InputObject) : Offer :=
    .ofObjects name (.list (.object last.name)) (objects ++ [last])
  let follows := depth < l.maxDepth
  l.operatorsOffers "id" e.primaryKeyKind "Filter on the primary key" ++
  [⟨⟨"quick", .scalar .text,
      "Case-insensitive text match across the quick-search fields"⟩, []⟩,
   ⟨⟨"include", .list (.scalar .id), "Identifiers always part of the result"⟩, []⟩,
   ⟨⟨"AND", .list own, none⟩, []⟩,
   ⟨⟨"OR", .list own, none⟩, []⟩,
   ⟨⟨"NOT", own, none⟩, []⟩,
   list "_compare" [] .comparison] ++
  (if l.features.window then
    [list "_window" FieldKind.float.operatorsDefinitions .window] else []) ++
  (if follows && l.features.subquery then [list "_subquery" [] .subquery] else []) ++
  (if follows && l.features.existence then [list "_exists" [] .existence] else []) ++
  (if l.features.fullText then
    [.ofObjects "search" (.object InputObject.search.name) [.search]] else [])

/-- What a filter on an entity at a given depth may contain. -/
def offers (l : FilterLanguage) (e : Entity) (depth : Nat) : List Offer :=
  e.fields.values.flatMap l.fieldOffers ++
  (if depth < l.maxDepth then e.relations.values.flatMap (l.relationOffers e depth) else []) ++
  l.specialOffers e depth

/-- The object of the filter on an entity. -/
def filterObject (l : FilterLanguage) (e : Entity) (depth : Nat) : InputObject :=
  .ofFields (l.nameOf e depth) ((l.offers e depth).map Offer.field)

/-- What has to be defined for the filter on an entity. -/
def needs (l : FilterLanguage) (e : Entity) (depth : Nat) : List Need :=
  (l.offers e depth).flatMap Offer.needs

/-- Define the filter on an entity and what it needs, given how to define the filters on the
entities that relations lead to. -/
def defineWith (l : FilterLanguage) (follow : Entity → InputTypes → InputTypes) (e : Entity)
    (depth : Nat) (types : InputTypes) : InputTypes :=
  if l.nameOf e depth ∈ types.names then types
  else
    (l.needs e depth).foldl
      (fun types need =>
        match need with
        | .object o => types.define o
        | .filter target => follow target types)
      (types.define (l.filterObject e depth))

/-- Define the filter on an entity and all that it needs, following so many relations at most. -/
def define (l : FilterLanguage) : Nat → Entity → Nat → InputTypes → InputTypes
  | 0, e, depth => l.defineWith (fun _ types => types) e depth
  | room + 1, e, depth => l.defineWith (fun target => l.define room target (depth + 1)) e depth

/-- The schema of the filters on an entity at a given depth, if the catalog has the entity.  No
more relations are followed than the depth leaves. -/
def schema? (l : FilterLanguage) (entity : String) (depth : Nat) : Option FilterSchema :=
  (l.catalog.entity? entity).map fun e =>
    ⟨l.define (l.maxDepth - depth) e depth {}, l.nameOf e depth⟩

end FilterLanguage

end EntityFilter
