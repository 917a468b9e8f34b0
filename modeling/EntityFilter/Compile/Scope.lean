import EntityFilter.Operator.Condition
import EntityFilter.Projection.Set
import EntityFilter.Catalog
import EntityFilter.Settings

/-!
# Where a filter is compiled

A filter is compiled in a scope: the entity that it filters, the path from the filtered entity to
the rows that are tested, and the relations joined to such a row.  A relation to one row is joined,
so its fields are read through the row; a relation to many rows opens a new scope for each of them.

All rules about what a filter may use are in the functions of `Compiler` that follow: an unknown
field or relation, a relation of the wrong kind, a feature that is off and a relation too far away
all give `none`, and then the part of the filter that asks for it says nothing.
-/

namespace EntityFilter

/-- Where a filter is compiled. -/
structure Scope where
  /-- The entity whose fields and relations the filter names. -/
  entity : Entity
  /-- The path to the rows that are tested. -/
  rows : RelationPath := .root
  /-- The relations joined to a row. -/
  joined : RelationPath := .root

namespace Scope

/-- The relations followed so far. -/
def path (s : Scope) : RelationPath := s.rows ++ s.joined

/-- The number of relations followed so far. -/
def depth (s : Scope) : Nat := s.path.length

/-- The path of a field of the entity, from the row. -/
def fieldPath (s : Scope) (field : String) : FieldPath := .under s.joined field

/-- The path of a relation of the entity, from the row. -/
def relationPath (s : Scope) (relation : String) : RelationPath := s.joined.join relation

/-- The path of a relation of the entity, from the beginning. -/
def fullPath (s : Scope) (relation : String) : RelationPath := s.path.join relation

/-- Whether the rows that are tested are those of the filtered entity. -/
def isBaseRow (s : Scope) : Bool := s.rows.isEmpty

/-- The scope behind a relation that is joined to the row. -/
def join (s : Scope) (relation : String) (target : Entity) : Scope :=
  { s with entity := target, joined := s.joined.join relation }

/-- The scope of the rows that a relation leads to. -/
def enter (s : Scope) (relation : String) (target : Entity) : Scope :=
  { entity := target, rows := s.fullPath relation }

end Scope

/-- What a filter is compiled with. -/
structure Compiler where
  /-- The entities. -/
  catalog : Catalog
  /-- What filters may use. -/
  settings : Settings
  /-- The present, for named periods. -/
  now : Instant

namespace Compiler

/-- The greatest number of relations that can be followed. -/
def maxDepth (c : Compiler) : Nat := c.settings.schema.maxRelationDepth

/-- A relation of the scope and the entity it leads to. -/
def relation? (c : Compiler) (s : Scope) (name : String) : Option (Relation × Entity) :=
  c.catalog.resolve? s.entity name

/-- Whether a relation of the scope may be followed. -/
def canFollow (c : Compiler) (s : Scope) : Bool := s.depth < c.maxDepth

/-- Whether a filter may stand behind a relation of the scope. -/
def canNest (c : Compiler) (s : Scope) : Bool := s.depth + 1 < c.maxDepth

/-- The entity that a relation to many rows leads to, if it may be followed. -/
def toMany? (c : Compiler) (s : Scope) (name : String) : Option Entity :=
  if c.canFollow s then
    match c.relation? s name with
    | some (r, target) => if r.isToMany then some target else none
    | none => none
  else none

/-- The scope of a filter on the one row that a relation leads to. -/
def joinedScope? (c : Compiler) (s : Scope) (name : String) : Option Scope :=
  if c.canNest s then
    match c.relation? s name with
    | some (r, target) => if r.isToOne then some (s.join name target) else none
    | none => none
  else none

/-- The scope of a filter on the rows that a relation leads to. -/
def rowsScope? (c : Compiler) (s : Scope) (name : String) : Option Scope :=
  if c.canNest s then
    match c.relation? s name with
    | some (r, target) => if r.isToMany then some (s.enter name target) else none
    | none => none
  else none

/-- The entity that an existence test leads to.  With a condition, a filter must be allowed
there. -/
def existenceTarget? (c : Compiler) (s : Scope) (name : String) (conditional : Bool) :
    Option Entity :=
  if c.settings.features.existence && c.canFollow s && (!conditional || c.canNest s) then
    (c.relation? s name).map Prod.snd
  else none

end Compiler

end EntityFilter
