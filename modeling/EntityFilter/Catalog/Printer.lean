import EntityFilter.Catalog
import EntityFilter.Document

/-!
# Catalogs as documents

The document of a catalog has the parts by which a catalog is configured.  Names are the keys of
its objects and are not repeated inside.
-/

namespace EntityFilter

/-- A kind: its name, or an object that holds the kind of the elements of an array. -/
def FieldKind.toDocument : FieldKind → Document
  | array element => .object [("array", element.toDocument)]
  | kind => .text kind.name

/-- The document of a field. -/
def Field.toDocument (f : Field) : Document :=
  .object [("kind", f.kind.toDocument), ("nullable", .bool f.nullable),
    ("choices", match f.choices with
      | some choices => .ofTexts choices
      | none => .null),
    ("documentation", .ofText? f.documentation)]

/-- The document of a relation. -/
def Relation.toDocument (r : Relation) : Document :=
  .object [("cardinality", .text r.cardinality.name), ("target", .text r.target),
    ("back_reference", .ofText? r.backReference), ("documentation", .ofText? r.documentation)]

/-- The document of an entity. -/
def Entity.toDocument (e : Entity) : Document :=
  .object [("primary_key", .text e.primaryKey),
    ("fields", .object (e.fields.entries.map fun (name, f) => (name, f.toDocument))),
    ("relations", .object (e.relations.entries.map fun (name, r) => (name, r.toDocument))),
    ("quick_fields", .ofTexts e.quickFields), ("search_fields", .ofTexts e.searchFields),
    ("documentation", .ofText? e.documentation)]

/-- The document of a catalog. -/
def Catalog.toDocument (c : Catalog) : Document :=
  .object [("entities",
    .object (c.entities.entries.map fun (name, e) => (name, e.toDocument)))]

end EntityFilter
