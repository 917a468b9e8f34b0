import EntityFilter.Catalog

/-!
# Validation of catalogs

Validation reports every fault of a catalog: names that are no identifiers, primary keys that are
not declared, relations that share the name of a field or lead nowhere.  One fault is reported as
it is and several as a list of them, in the order of the catalog.
-/

namespace EntityFilter

/-- What can be wrong with a part of a catalog. -/
inductive Fault where
  /-- The name is not an identifier. -/
  | identifier
  /-- The primary key is not a declared field. -/
  | primaryKey (name : String)
  /-- A field has the same name. -/
  | collision
  /-- The catalog lacks the target. -/
  | unknownTarget (name : String)
  deriving DecidableEq

/-- The wording of a fault. -/
def Fault.message : Fault → String
  | identifier => "invalid identifier"
  | primaryKey name => s!"primary key `{name}` is not a declared field"
  | collision => "name collides with a field"
  | unknownTarget name => s!"unknown target `{name}`"

/-- Why a catalog cannot be loaded or is not valid. -/
inductive CatalogError where
  /-- The file cannot be read. -/
  | unreadable (path : String)
  /-- The text is not a catalog. -/
  | malformed
  | entity (name : String) (fault : Fault)
  | field (owner name : String) (fault : Fault)
  | relation (owner name : String) (fault : Fault)
  | unknownEntity (name : String)
  | configuration (message : String)
  /-- Several errors at once. -/
  | many (errors : List CatalogError)

namespace CatalogError

/-- The wording of an error. -/
def message : CatalogError → String
  | unreadable path => s!"failed to read file: {path}"
  | malformed => "failed to parse TOML"
  | entity name fault => s!"invalid entity `{name}`: {fault.message}"
  | field owner name fault => s!"invalid field `{owner}.{name}`: {fault.message}"
  | relation owner name fault => s!"invalid relation `{owner}.{name}`: {fault.message}"
  | unknownEntity name => s!"unknown entity `{name}`"
  | configuration text => s!"configuration error: {text}"
  | many errors => s!"catalog validation failed with {errors.length} error(s)"

/-- The advice that goes with an error. -/
def help? : CatalogError → Option String
  | relation .. => some "declare the target entity in the catalog or remove the relation"
  | _ => none

/-- One error stands for itself and several are collected. -/
def ofMany? : List CatalogError → Option CatalogError
  | [] => none
  | [e] => some e
  | es => some (many es)

end CatalogError

/-- A letter or underscore, then letters, digits and underscores, all of them ASCII. -/
def isIdentifier (s : String) : Bool :=
  match s.toList with
  | [] => false
  | c :: cs => (c.isAlpha || c == '_') && cs.all fun c => c.isAlphanum || c == '_'

namespace Entity

/-- The faults of an entity in a catalog. -/
def faults (c : Catalog) (e : Entity) : List CatalogError :=
  (if isIdentifier e.name then [] else [.entity e.name .identifier]) ++
  (if e.primaryKeyField?.isSome then [] else [.entity e.name (.primaryKey e.primaryKey)]) ++
  e.fields.values.flatMap (fun f =>
    if isIdentifier f.name then [] else [.field e.name f.name .identifier]) ++
  e.relations.values.flatMap fun r =>
    (if isIdentifier r.name then [] else [.relation e.name r.name .identifier]) ++
    (if e.hasField r.name then [.relation e.name r.name .collision] else []) ++
    (if c.entities.contains r.target then [] else [.relation e.name r.name (.unknownTarget r.target)])

end Entity

namespace Catalog

/-- All faults of a catalog, in its order. -/
def faults (c : Catalog) : List CatalogError := c.entities.values.flatMap (Entity.faults c)

/-- The error that the faults of a catalog amount to, if it has any. -/
def validate (c : Catalog) : Except CatalogError Unit :=
  match CatalogError.ofMany? c.faults with
  | some e => .error e
  | none => .ok ()

/-- Whether a catalog has no fault. -/
def IsValid (c : Catalog) : Prop := c.faults = []

end Catalog

end EntityFilter
