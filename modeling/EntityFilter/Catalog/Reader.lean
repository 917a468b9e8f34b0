import EntityFilter.Catalog.Validation
import EntityFilter.Environment
import EntityFilter.Toml.Reader
import EntityFilter.Toml.Record

/-!
# Reading catalogs

A catalog is written as a configuration document with one table, `entities`.  Entities, fields and
relations are named by the keys under which they stand; a name that is written out must be a text
and counts for nothing.  Parts that are not known are passed over everywhere but at the top.
-/

namespace EntityFilter

/-- The kind of a given name in a configuration document, which knows fewer spellings. -/
def FieldKind.ofConfigured? (name : String) : Option FieldKind :=
  if name = "bigint" ∨ name = "datetime" then none else scalarOfName? name

/-- Whether a value has nothing inside, as in the table form of a name. -/
def Toml.isHollow : Toml → Bool
  | .table _ ms => ms.isEmpty
  | .array items => items.isEmpty
  | _ => false

mutual

/-- A kind: its name, or a table with one member, which is the kind of the elements of an array or
hollow under the name of any other kind. -/
def FieldKind.ofToml? : Toml → Option FieldKind
  | .text name => ofConfigured? name
  | .table _ ms => ofMember? ms
  | _ => none

/-- The kind that the only member of a table stands for. -/
def FieldKind.ofMember? : List (String × Toml) → Option FieldKind
  | (name, value) :: [] =>
    if name = "array" then (ofToml? value).map array
    else if value.isHollow then ofConfigured? name else none
  | _ => none

end

namespace Cardinality

/-- The cardinality of a given name. -/
def ofName? : String → Option Cardinality
  | "one" | "to_one" => some one
  | "many" | "to_many" => some many
  | _ => none

/-- A cardinality: its name, or a table with one hollow member of that name. -/
def ofToml? : Toml → Option Cardinality
  | .text name => ofName? name
  | .table _ [(name, value)] => if value.isHollow then ofName? name else none
  | _ => none

end Cardinality

/-- A text that may be missing. -/
def Toml.optionalText? (name : String) (ms : Toml.Members) : Option (Option String) :=
  Toml.optional? (fun t => t.asText?.map some) none name ms

/-- A field of a given name. -/
def Field.ofToml? (name : String) (t : Toml) : Option Field := do
  let parts ← t.parts? ["name", "kind", "nullable", "choices", "documentation"]
  let _ ← Toml.optionalText? "name" parts
  return {
    name
    kind := ← Toml.required? FieldKind.ofToml? "kind" parts
    nullable := ← Toml.optional? Toml.asFlag? false "nullable" parts
    choices := ← Toml.optional? (fun t => t.asTexts?.map some) none "choices" parts
    documentation := ← Toml.optionalText? "documentation" parts }

/-- A relation of a given name. -/
def Relation.ofToml? (name : String) (t : Toml) : Option Relation := do
  let parts ← t.parts? ["name", "cardinality", "target", "back_reference", "documentation"]
  let _ ← Toml.optionalText? "name" parts
  return {
    name
    cardinality := ← Toml.required? Cardinality.ofToml? "cardinality" parts
    target := ← Toml.required? Toml.asText? "target" parts
    backReference := ← Toml.optionalText? "back_reference" parts
    documentation := ← Toml.optionalText? "documentation" parts }

/-- An entity of a given name. -/
def Entity.ofToml? (name : String) (t : Toml) : Option Entity := do
  let parts ← t.parts? ["name", "primary_key", "fields", "relations", "quick_fields",
    "search_fields", "documentation"]
  let _ ← Toml.optionalText? "name" parts
  let fields ← Toml.optional? (Toml.asMap? Field.ofToml?) [] "fields" parts
  let relations ← Toml.optional? (Toml.asMap? Relation.ofToml?) [] "relations" parts
  let entity : Entity := {
    name
    primaryKey := ← Toml.optional? Toml.asText? "id" "primary_key" parts
    quickFields := ← Toml.optional? Toml.asTexts? [] "quick_fields" parts
    searchFields := ← Toml.optional? Toml.asTexts? [] "search_fields" parts
    documentation := ← Toml.optionalText? "documentation" parts }
  return relations.foldl withRelation (fields.foldl withField entity)

namespace Catalog

/-- The catalog that a document writes. -/
def ofMembers? (root : Toml.Members) : Option Catalog := do
  let parts ← (Toml.table .header root).closedParts? ["entities"]
  let entities ← Toml.optional? (Toml.asMap? Entity.ofToml?) [] "entities" parts
  return entities.foldl withEntity {}

/-- The catalog that a text writes in an environment. -/
def ofText (env : Environment) (s : String) : Except CatalogError Catalog :=
  match (Toml.read? (env.expand s)).bind ofMembers? with
  | some c => .ok c
  | none => .error .malformed

/-- The catalog in a file, whose text is missing when it cannot be read. -/
def ofFile (env : Environment) (path : String) (contents : Option String) :
    Except CatalogError Catalog :=
  match contents with
  | some s => ofText env s
  | none => .error (.unreadable path)

end Catalog

end EntityFilter
