import EntityFilter.FieldKind
import EntityFilter.OrderedMap

/-!
# Catalogs of entities

A catalog says what can be filtered: entities with scalar fields and with relations to other
entities.  Nothing here checks that the parts fit together.  A relation may name a target that the
catalog lacks, and filters simply skip it; `Catalog.validate` reports such faults beforehand.
-/

namespace EntityFilter

/-- A scalar field of an entity. -/
structure Field where
  /-- The name. -/
  name : String
  /-- What its values are. -/
  kind : FieldKind
  /-- Whether a value may be missing. -/
  nullable : Bool := false
  /-- The values it is restricted to. -/
  choices : Option (List String) := none
  /-- A description. -/
  documentation : Option String := none
  deriving DecidableEq

namespace Field

/-- Whether the field is restricted to some values. -/
def hasChoices (f : Field) : Bool := f.choices.any (!·.isEmpty)

/-- Whether the field is free text that a quick search may look through. -/
def isSearchable (f : Field) : Bool := f.kind.isText && !f.hasChoices

end Field

/-- How many rows a relation leads to. -/
inductive Cardinality where
  /-- At most one row. -/
  | one
  /-- Any number of rows. -/
  | many
  deriving DecidableEq

namespace Cardinality

/-- The name of a cardinality. -/
def name : Cardinality → String
  | one => "one"
  | many => "many"

/-- A cardinality with both of its sides: any number of rows may lead to the same ones. -/
def render : Cardinality → String
  | one => "n:1"
  | many => "1:n"

end Cardinality

/-- A relation of an entity to another one. -/
structure Relation where
  /-- The name. -/
  name : String
  /-- How many rows it leads to. -/
  cardinality : Cardinality
  /-- The name of the entity it leads to. -/
  target : String
  /-- The field of the target that leads back. -/
  backReference : Option String := none
  /-- A description. -/
  documentation : Option String := none
  deriving DecidableEq

namespace Relation

/-- Whether the relation leads to at most one row. -/
def isToOne (r : Relation) : Bool := r.cardinality = .one

/-- Whether the relation leads to any number of rows. -/
def isToMany (r : Relation) : Bool := r.cardinality = .many

end Relation

/-- An entity with its fields and relations. -/
structure Entity where
  /-- The name. -/
  name : String
  /-- The name of the field that identifies a row. -/
  primaryKey : String := "id"
  /-- The scalar fields, by name. -/
  fields : OrderedMap String Field := .empty
  /-- The relations, by name. -/
  relations : OrderedMap String Relation := .empty
  /-- The fields of the quick search; when empty, all free text. -/
  quickFields : List String := []
  /-- The fields of the full-text search; when empty, all free text. -/
  searchFields : List String := []
  /-- A description. -/
  documentation : Option String := none

namespace Entity

/-- Add a field, or replace the one of the same name. -/
def withField (e : Entity) (f : Field) : Entity := { e with fields := e.fields.insert f.name f }

/-- Add a relation, or replace the one of the same name. -/
def withRelation (e : Entity) (r : Relation) : Entity :=
  { e with relations := e.relations.insert r.name r }

/-- The field of a name. -/
def field? (e : Entity) (name : String) : Option Field := e.fields.get? name

/-- The relation of a name. -/
def relation? (e : Entity) (name : String) : Option Relation := e.relations.get? name

/-- Whether the entity has a field of a name. -/
def hasField (e : Entity) (name : String) : Bool := e.fields.contains name

/-- The field that identifies a row, if it is declared. -/
def primaryKeyField? (e : Entity) : Option Field := e.field? e.primaryKey

/-- The kind of the identifiers; an undeclared primary key is an opaque one. -/
def primaryKeyKind (e : Entity) : FieldKind := (e.primaryKeyField?.map Field.kind).getD .id

/-- The named fields that exist, or all free text when none are named. -/
def searchable (e : Entity) (names : List String) : List Field :=
  if names.isEmpty then e.fields.values.filter Field.isSearchable else names.filterMap e.field?

/-- The fields of the quick search. -/
def quickSearchFields (e : Entity) : List Field := e.searchable e.quickFields

/-- The fields of the full-text search. -/
def fullTextFields (e : Entity) : List Field := e.searchable e.searchFields

/-- The fields that hold dates or points in time. -/
def temporalFields (e : Entity) : List Field := e.fields.values.filter (·.kind.isTemporal)

/-- The relations to at most one row. -/
def toOneRelations (e : Entity) : List Relation := e.relations.values.filter Relation.isToOne

/-- The relations to any number of rows. -/
def toManyRelations (e : Entity) : List Relation := e.relations.values.filter Relation.isToMany

end Entity

/-- Entities by name. -/
structure Catalog where
  /-- The entities. -/
  entities : OrderedMap String Entity := .empty

namespace Catalog

/-- Add an entity, or replace the one of the same name. -/
def withEntity (c : Catalog) (e : Entity) : Catalog := ⟨c.entities.insert e.name e⟩

/-- The entity of a name. -/
def entity? (c : Catalog) (name : String) : Option Entity := c.entities.get? name

/-- A relation of an entity and the entity it leads to, if the catalog has both. -/
def resolve? (c : Catalog) (e : Entity) (name : String) : Option (Relation × Entity) := do
  let relation ← e.relation? name
  let target ← c.entity? relation.target
  return (relation, target)

end Catalog

end EntityFilter
