import EntityFilter.FilterSchema.Language

/-!
# How a schema is made

While a schema is made its objects are referred to by their places in a growing list.  A place is
handed out at once, so the filter on an entity can be referred to before it has fields: it is a
placeholder until they are there.  Operators and constraints are made when they are asked for, and
found by their names from then on.

A filter is asked for by the name of its entity and its depth.  It may be finished, or its fields
are being made: then it asks for itself, since filters can be combined.  Else a place is reserved,
the fields are made, which may ask for further filters, and the place is filled in.

Relations may run in circles, so how often a step may call itself is limited.  A step that would
have to do so more often has no result; `FilterLanguage.generate?` leaves as many calls as relations
can be followed, and two more.
-/

namespace EntityFilter

/-- Input objects that refer to each other by their places. -/
structure SchemaDraft where
  /-- The objects. -/
  objects : List (InputObject Nat) := []
  /-- The places of objects, by name. -/
  ids : OrderedMap String Nat := .empty

namespace SchemaDraft

/-- Put an object at the end. -/
def push (d : SchemaDraft) (o : InputObject Nat) : Nat × SchemaDraft :=
  (d.objects.length, ⟨d.objects ++ [o], d.ids.insert o.name d.objects.length⟩)

/-- Hand out a place for an object whose fields are made later. -/
def reserve (d : SchemaDraft) (name : String) : Nat × SchemaDraft :=
  d.push { name, isPlaceholder := true }

/-- Fill in the object at a place. -/
def finish (d : SchemaDraft) (id : Nat) (fields : List (InputField Nat)) : SchemaDraft :=
  { d with objects := d.objects.modify id fun o => .ofFields o.name fields }

/-- Add an object, unless there is one of its name. -/
def add (d : SchemaDraft) (o : InputObject Nat) : Nat × SchemaDraft :=
  match d.ids.get? o.name with
  | some id => (id, d)
  | none => d.push o

/-- The name of the object at a place. -/
def nameOf (d : SchemaDraft) (id : Nat) : String :=
  (d.objects[id]?.map InputObject.name).getD s!"#{id}"

/-- The schema of the objects, whose root has a given place.  Objects that share a name would be
mixed up there. -/
def schema? (d : SchemaDraft) (root : Nat) : Option FilterSchema :=
  let objects := d.objects.map (.map d.nameOf)
  if nodup : (objects.map InputObject.name).Nodup then some ⟨⟨objects, nodup⟩, d.nameOf root⟩
  else none

end SchemaDraft

/-- What has happened since the first filter was asked for. -/
structure Generation where
  /-- The objects. -/
  draft : SchemaDraft := {}
  /-- The places of the filters that are finished. -/
  finished : OrderedMap (String × Nat) Nat := .empty
  /-- The places of the filters whose fields are being made. -/
  inProgress : OrderedMap (String × Nat) Nat := .empty

namespace Generation

/-- The place of the filter on an entity at a depth, if it has one. -/
def place? (g : Generation) (key : String × Nat) : Option Nat :=
  (g.finished.get? key).or (g.inProgress.get? key)

/-- Begin with a filter. -/
def begin (g : Generation) (key : String × Nat) (name : String) : Nat × Generation :=
  let (id, draft) := g.draft.reserve name
  (id, { g with draft, inProgress := g.inProgress.insert key id })

/-- End with a filter. -/
def complete (g : Generation) (key : String × Nat) (id : Nat) (fields : List (InputField Nat)) :
    Generation where
  draft := g.draft.finish id fields
  finished := g.finished.insert key id
  inProgress := g.inProgress.without [key]

end Generation

/-- A step in which a schema is made. -/
abbrev Generating := StateT Generation Option

namespace Generating

/-- The fields of some steps, one after the other. -/
def inOrder (steps : List (Generating (List (InputField Nat)))) :
    Generating (List (InputField Nat)) := do
  return (← steps.mapM id).flatten

/-- The object of a name, which is made when it is asked for the first time. -/
def named (name : String) (make : Generating (InputObject Nat)) : Generating Nat := do
  match (← get).draft.ids.get? name with
  | some id => return id
  | none =>
    let o ← make
    modifyGet fun g =>
      let (id, draft) := g.draft.add o
      (id, { g with draft })

/-- A field that holds an object. -/
def objectField (name : String) (type : Generating Nat) : Generating (List (InputField Nat)) := do
  return [⟨name, .object (← type), none⟩]

/-- A field that holds a list of objects. -/
def listField (name : String) (type : Generating Nat) : Generating (List (InputField Nat)) := do
  return [⟨name, .list (.object (← type)), none⟩]

/-- The type of an operand, given how operators of integers are made. -/
def operandType (integers : Generating Nat) (kind : FieldKind) :
    OperandShape → Generating (InputType Nat)
  | .value | .ordered => pure (.scalar kind.scalar)
  | .list | .range => pure (.list (.scalar (kind.element?.getD kind).scalar))
  | .flag => pure (.scalar .boolean)
  | .pattern | .key => pure (.scalar .text)
  | .keys => pure (.list (.scalar .text))
  | .integer => return .object (← integers)

/-- The field of an operator. -/
def operatorField (integers : Generating Nat) (kind : FieldKind) (info : OperatorInfo) :
    Generating (InputField Nat) := do
  return ⟨info.name, ← operandType integers kind info.shape, some info.description⟩

/-- The operators of a kind. -/
def operatorsWith (integers : Generating Nat) (kind : FieldKind) : Generating Nat :=
  named kind.operatorsName do
    return .ofFields kind.operatorsName (← kind.operators.mapM (operatorField integers kind))

/-- The operators of integers.  These do not take operators of integers again. -/
def integers : Generating Nat := operatorsWith failure .int

/-- The operators of a kind, some of which may take those of integers. -/
def operators (kind : FieldKind) : Generating Nat := operatorsWith integers kind

/-- Constraints on truncated dates. -/
def trunc (kind : FieldKind) : Generating Nat := do
  let filter ← operators kind
  named kind.truncName (pure (.truncWith kind filter))

/-- Constraints on parts of dates. -/
def extract : Generating Nat := do
  let integers ← operators .int
  named InputObject.extract.name (pure (.extractWith integers))

/-- Constraints on aggregates. -/
def aggregate : Generating Nat := do
  let integers ← operators .int
  let doubles ← operators .float
  named InputObject.aggregate.name
    (pure (.ofFields InputObject.aggregate.name
      (InputObject.aggregateFieldsWith integers doubles)))

/-- Constraints on aggregates of rows that satisfy a filter, given its name and its place. -/
def conditionalAggregate (filter : String) (id : Nat) : Generating Nat := do
  let integers ← operators .int
  let doubles ← operators .float
  let name := (InputObject.conditionalAggregate filter).name
  named name (pure (.ofFields name
    (InputObject.aggregateFieldsWith integers doubles ++ [InputObject.conditionField id])))

/-- Comparisons of two fields. -/
def comparison : Generating Nat := named InputObject.comparison.name (pure (.comparison Nat))

/-- Constraints on ranks. -/
def window : Generating Nat := do
  let doubles ← operators .float
  named InputObject.window.name (pure (.windowWith doubles))

/-- Constraints on looked-up values. -/
def subquery : Generating Nat := named InputObject.subquery.name (pure (.subquery Nat))

/-- Existence tests. -/
def existence : Generating Nat := named InputObject.existence.name (pure (.existence Nat))

/-- Full-text searches. -/
def search : Generating Nat := named InputObject.search.name (pure (.search Nat))

end Generating

namespace FilterLanguage

open Generating

/-- A field that holds the operators of a kind, unless they are those of arrays, which are off. -/
def operatorsFields (l : FilterLanguage) (name : String) (kind : FieldKind)
    (description : Option String := none) : Generating (List (InputField Nat)) := do
  if kind.isArray && !l.features.array then return []
  return [⟨name, .object (← operators kind), description⟩]

/-- What a filter holds for a field. -/
def fieldFields (l : FilterLanguage) (f : Field) : Generating (List (InputField Nat)) :=
  inOrder <|
    l.operatorsFields f.name f.kind (describe f) ::
    if f.kind.isTemporal then
      (if l.features.dateTrunc then [objectField (f.name ++ "_trunc") (trunc f.kind)] else []) ++
      (if l.features.dateExtract then [objectField (f.name ++ "_extract") extract] else [])
    else []

variable (l : FilterLanguage) (again : Entity → Nat → Generating Nat)

/-- What a filter holds for aggregates of those related rows that satisfy a filter, given its
place. -/
def conditionalFields (r : Relation) (target : Entity) (depth filter : Nat) :
    Generating (List (InputField Nat)) :=
  if l.features.conditionalAggregation then
    objectField (r.name ++ "_cond_agg") (conditionalAggregate (l.nameOf target depth) filter)
  else pure []

/-- What a filter holds for filters on the rows that a relation to many leads to. -/
def nestedFields (r : Relation) (target : Entity) (depth : Nat) :
    Generating (List (InputField Nat)) := do
  let filter ← again target depth
  let conditional ← l.conditionalFields r target depth filter
  return conditional ++
    [⟨r.name ++ "_some", .object filter, "At least one related row matches"⟩,
     ⟨r.name ++ "_every", .object filter, "There are related rows and every one matches"⟩,
     ⟨r.name ++ "_none", .object filter, "No related row matches"⟩]

/-- What a filter at a depth holds for a relation to many rows. -/
def toManyFields (e : Entity) (r : Relation) (target : Entity) (depth : Nat) :
    List (Generating (List (InputField Nat))) :=
  let count := r.name ++ "_count"
  [objectField (r.name ++ "_agg") aggregate] ++
  (if e.hasField count then [] else [l.operatorsFields count .int]) ++
  (if depth + 1 < l.maxDepth then [l.nestedFields again r target (depth + 1)] else [])

/-- What a filter at a depth holds for a relation, if its target is in the catalog. -/
def relationFields (e : Entity) (depth : Nat) (r : Relation) : Generating (List (InputField Nat)) :=
  match l.catalog.entity? r.target with
  | none => pure []
  | some target =>
    inOrder <|
      l.operatorsFields r.name target.primaryKeyKind
        ("Filter on the identifiers of " ++ target.name : String) ::
      if r.isToMany then l.toManyFields again e r target depth
      else if depth + 1 < l.maxDepth then
        [objectField (r.name ++ "_rel") (again target (depth + 1))]
      else []

/-- The fields that combine filters of one type. -/
def combiningFields (own : Generating Nat) : Generating (List (InputField Nat)) := do
  let own ← own
  return [⟨"AND", .list (.object own), none⟩, ⟨"OR", .list (.object own), none⟩,
    ⟨"NOT", .object own, none⟩]

/-- What a filter on an entity holds apart from fields and relations. -/
def specialFields (e : Entity) (depth : Nat) : List (Generating (List (InputField Nat))) :=
  let follows := depth < l.maxDepth
  [l.operatorsFields "id" e.primaryKeyKind "Filter on the primary key",
   pure [
     ⟨"quick", .scalar .text, "Case-insensitive text match across the quick-search fields"⟩,
     ⟨"include", .list (.scalar .id), "Identifiers always part of the result"⟩],
   combiningFields (again e depth),
   listField "_compare" comparison] ++
  (if l.features.window then [listField "_window" window] else []) ++
  (if follows && l.features.subquery then [listField "_subquery" subquery] else []) ++
  (if follows && l.features.existence then [listField "_exists" existence] else []) ++
  (if l.features.fullText then [objectField "search" search] else [])

/-- The fields of the filter on an entity. -/
def whereFields (e : Entity) (depth : Nat) : Generating (List (InputField Nat)) :=
  inOrder <|
    e.fields.values.map l.fieldFields ++
    (if depth < l.maxDepth then e.relations.values.map (l.relationFields again e depth) else []) ++
    l.specialFields again e depth

/-- The place of the filter on an entity, which is made unless it has one. -/
def whereTypeWith (e : Entity) (depth : Nat) : Generating Nat := do
  let key := (e.name, depth)
  match (← get).place? key with
  | some id => return id
  | none =>
    let id ← modifyGet fun g => g.begin key (l.nameOf e depth)
    let fields ← l.whereFields again e depth
    modify fun g => g.complete key id fields
    return id

/-- The place of the filter on an entity, with so many calls at most inside of each other. -/
def whereType (l : FilterLanguage) : Nat → Entity → Nat → Generating Nat
  | 0, _, _ => failure
  | calls + 1, e, depth => l.whereTypeWith (l.whereType calls) e depth

/-- The calls inside of each other that a filter takes: one for each relation that can be followed,
one for itself and one for the filter that it refers to. -/
def callsFor (depth : Nat) : Nat := l.maxDepth - depth + 2

/-- The schema of the filters on an entity at a given depth, made step by step. -/
def generate? (l : FilterLanguage) (entity : String) (depth : Nat) : Option FilterSchema := do
  let e ← l.catalog.entity? entity
  let (root, g) ← (l.whereType (l.callsFor depth) e depth).run {}
  g.draft.schema? root

end FilterLanguage

end EntityFilter
