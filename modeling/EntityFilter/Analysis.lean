import EntityFilter.Compiled

/-!
# Analysis of filters

An analysis says what a filter touches and roughly what it costs, without compiling or refusing it:
the relations that could be joined or fetched beforehand, the size of the filter, and advice.

`Filter.touches` lists everything of note in the order in which it is met.  It follows every
relation that the catalog has, however far it leads and whether or not the feature that asks for it
is on.
-/

namespace EntityFilter

/-- Something of note that a filter does. -/
inductive Touch where
  /-- It follows a relation to one row. -/
  | toOne (path : RelationPath)
  /-- It follows a relation to many rows. -/
  | toMany (path : RelationPath)
  /-- It looks up a value. -/
  | lookup
  /-- It ranks rows. -/
  | window
  /-- It searches texts. -/
  | search
  deriving DecidableEq

namespace Touch

/-- Follow a relation. -/
def relation (r : Relation) (path : RelationPath) : Touch :=
  if r.isToMany then toMany path else toOne path

/-- The relation to one row that is followed. -/
def one? : Touch → Option String
  | toOne path => some path.lookupName
  | _ => none

/-- The relation to many rows that is followed. -/
def many? : Touch → Option String
  | toMany path => some path.lookupName
  | _ => none

/-- Whether something is costly by itself. -/
def isHeavy : Touch → Bool
  | lookup | window | search => true
  | _ => false

end Touch

/-- An entity, and the path that has led to it. -/
structure Place where
  /-- The entity. -/
  entity : Entity
  /-- The relations followed so far. -/
  path : RelationPath := .root

namespace Place

/-- The place behind a relation, and what following it is noted as. -/
def follow? (c : Catalog) (p : Place) (name : String) : Option (Touch × Place) :=
  (c.resolve? p.entity name).map fun (r, target) =>
    let path := p.path.join r.name
    (.relation r path, ⟨target, path⟩)

/-- What following a relation is noted as. -/
def touches (c : Catalog) (p : Place) (name : String) : List Touch :=
  ((p.follow? c name).map Prod.fst).toList

end Place

mutual

/-- What a filter does, in order. -/
def Filter.touches (c : Catalog) (p : Place) : Filter → List Touch
  | .node es => FilterEntry.touchesAll c p es

/-- What entries do. -/
def FilterEntry.touchesAll (c : Catalog) (p : Place) : List (String × FilterEntry) → List Touch
  | [] => []
  | (key, e) :: es => e.touches c p key ++ FilterEntry.touchesAll c p es

/-- What an entry does. -/
def FilterEntry.touches (c : Catalog) (p : Place) (key : String) : FilterEntry → List Touch
  | .all fs | .any fs => Filter.touchesAll c p fs
  | .negation f => f.touches c p
  | .related relation f | .quantified relation _ f =>
    match p.follow? c relation with
    | some (touch, inner) => touch :: f.touches c inner
    | none => []
  | .existence items => ExistenceTest.touchesAll c p items
  | .aggregate a none => p.touches c a.relation
  | .aggregate a (some (f, _)) =>
    match p.follow? c a.relation with
    | some (touch, inner) => touch :: f.touches c inner
    | none => []
  | .count relation _ => if p.entity.hasField key then [] else p.touches c relation
  | .subquery items => items.flatMap fun q => .lookup :: p.touches c q.relation
  | .window items => items.map fun _ => .window
  | .search _ => [.search]
  | .field name _ => if p.entity.hasField name then [] else p.touches c name
  | _ => []

/-- What filters do. -/
def Filter.touchesAll (c : Catalog) (p : Place) : List Filter → List Touch
  | [] => []
  | f :: fs => f.touches c p ++ Filter.touchesAll c p fs

/-- What existence tests do. -/
def ExistenceTest.touchesAll (c : Catalog) (p : Place) :
    List (ExistenceTest × Option Filter) → List Touch
  | [] => []
  | (t, none) :: items => p.touches c t.relation ++ ExistenceTest.touchesAll c p items
  | (t, some f) :: items =>
    (match p.follow? c t.relation with
      | some (touch, inner) => touch :: f.touches c inner
      | none => []) ++ ExistenceTest.touchesAll c p items

end

/-- What a filter roughly costs. -/
inductive CostTier where
  | low
  | medium
  | high
  deriving DecidableEq, Repr

namespace CostTier

/-- The name of a tier. -/
def name : CostTier → String
  | low => "low"
  | medium => "medium"
  | high => "high"

/-- The tier of a number of points. -/
def ofPoints (points : Nat) : CostTier :=
  if points < 10 then low else if points < 25 then medium else high

end CostTier

/-- What is known about a filter. -/
structure Analysis where
  /-- The entity that is filtered. -/
  entity : String
  /-- What the filter does. -/
  touches : List Touch
  /-- The number of clauses. -/
  clauses : Nat
  /-- The deepest level. -/
  depth : Nat
  /-- The number of projections. -/
  projections : Nat
  /-- The number of regular expressions. -/
  patterns : Nat

namespace Analysis

/-- The paths of relations to one row, each once. -/
def selectRelated (a : Analysis) : List String := (a.touches.filterMap Touch.one?).eraseDups

/-- The paths of relations to many rows, each once. -/
def prefetchRelated (a : Analysis) : List String := (a.touches.filterMap Touch.many?).eraseDups

/-- Whether the filter needs more than the rows themselves. -/
def touchesRelations (a : Analysis) : Bool :=
  !a.selectRelated.isEmpty || !a.prefetchRelated.isEmpty

/-- The points of a filter: one for a clause, three for each time that many rows are followed and
for a projection, five for a regular expression and for anything costly. -/
def points (a : Analysis) : Nat :=
  a.clauses + 3 * (a.touches.filterMap Touch.many?).length + 3 * a.projections + 5 * a.patterns +
    5 * a.touches.countP Touch.isHeavy

/-- What the filter roughly costs. -/
def cost (a : Analysis) : CostTier := .ofPoints a.points

/-- Advice that is given under a condition. -/
private def adviceIf (condition : Bool) (text : String) : List String :=
  if condition then [text] else []

/-- Advice about a filter, given what it may ask for. -/
def hints (a : Analysis) (l : Limits) : List String :=
  adviceIf (!a.selectRelated.isEmpty)
    ("Join to-one relations in the base query: " ++ Text.join ", " a.selectRelated) ++
  adviceIf (!a.prefetchRelated.isEmpty)
    ("Index the foreign keys behind: " ++ Text.join ", " a.prefetchRelated) ++
  adviceIf (0 < a.patterns)
    s!"{a.patterns} regex pattern(s) cannot use a b-tree index; prefer starts_with or icontains" ++
  adviceIf (a.touches.contains .window) "Window filters rank every base row before filtering" ++
  adviceIf (a.touches.contains .search)
    "Full-text search benefits from an index on the search vector" ++
  adviceIf (l.maxClauses * 4 ≤ a.clauses * 5)
    s!"Clause count {a.clauses} is close to the limit of {l.maxClauses}" ++
  adviceIf (l.maxDepth ≤ a.depth + 2)
    s!"Nesting depth {a.depth} is close to the limit of {l.maxDepth}" ++
  adviceIf (a.cost = .high) "Narrow the filter with an indexed field before the costly parts"

end Analysis

/-- Analyse a filter on the entity of a given name. -/
def Compiler.analyze (c : Compiler) (f : Filter) (entity : String) :
    Except FilterError Analysis :=
  match c.catalog.entity? entity with
  | none => .error (.ofCause (.unknownEntity entity))
  | some e =>
    .ok {
      entity
      touches := f.touches c.catalog { entity := e }
      clauses := f.clauses
      depth := f.depth
      projections := (c.projections f e).size
      patterns := f.patterns.length }

end EntityFilter
