import EntityFilter.Compile.Scope
import EntityFilter.Text.Blank

/-!
# Planned projections

A plan says which projection an entry of a filter asks for, and of which kind its values are.  Both
phases of compilation make the same plans: the first one collects the projections, the second one
finds them again by their keys.
-/

namespace EntityFilter

/-- The projection that an entry asks for. -/
structure Plan where
  /-- What is computed. -/
  key : ProjectionKey
  /-- The kind of its values. -/
  kind : FieldKind
  deriving DecidableEq

/-- The projections that a full-text search asks for. -/
structure SearchPlan where
  /-- The document. -/
  vector : ProjectionKey
  /-- The rank, if it is constrained. -/
  rank : Option ProjectionKey
  /-- The fields of the document. -/
  fields : List String
  /-- The language. -/
  config : String

namespace Compiler

/-- The kind of the field that an aggregate takes, if it may take it. -/
def aggregatedKind? (target : Entity) (name : String) (function : AggregateFunction) :
    Option FieldKind :=
  match target.field? name with
  | some f => if function.requiresNumeric && !f.kind.isNumeric then none else some f.kind
  | none => none

/-- The kind of an aggregate, given the kind of the field. -/
def aggregateKind (function : AggregateFunction) (field : Option FieldKind) : FieldKind :=
  if function.isCount then .int
  else if function = .avg then .float
  else field.getD .float

/-- Plan an aggregate; the fingerprint is that of its condition. -/
def planAggregate? (c : Compiler) (s : Scope) (a : Aggregation) (fingerprint : Option UInt32)
    (function : AggregateFunction) : Option Plan := do
  let target ← c.toMany? s a.relation
  if fingerprint.isSome && !(c.settings.features.conditionalAggregation && c.canNest s) then none
  let field ← match a.field with
    | some name => (aggregatedKind? target name function).map some
    | none => if function.allowsNoField then some none else none
  let relation := s.fullPath a.relation
  let key := match fingerprint with
    | some n => ProjectionKey.conditionalAggregate relation a.field function n
    | none => ProjectionKey.aggregate relation a.field function
  return ⟨key, aggregateKind function field⟩

/-- Plan the number of related rows. -/
def planCount? (c : Compiler) (s : Scope) (relation : String) : Option Plan :=
  (c.toMany? s relation).map fun _ => ⟨.count (s.fullPath relation), .int⟩

/-- Plan a rank.  Only the rows of the filtered entity are ranked. -/
def planWindow? (c : Compiler) (s : Scope) (w : WindowFilter) : Option Plan :=
  let fields := w.spec.partitionBy ++ w.spec.orderBy.map OrderKey.field
  if c.settings.features.window && s.path.isEmpty && fields.all s.entity.hasField then
    some ⟨.window s.path w.function w.spec, if w.function.isFractional then .float else .int⟩
  else none

/-- Plan a look-up. -/
def planSubquery? (c : Compiler) (s : Scope) (q : SubqueryFilter) : Option Plan := do
  if !c.settings.features.subquery then none
  let target ← c.toMany? s q.relation
  let field ← target.field? q.field
  if q.orderBy.all fun k => target.hasField k.field then
    some ⟨.subquery (s.fullPath q.relation) q.field q.orderBy, field.kind⟩
  else none

/-- The kind of a field that holds dates or instants.  It must belong to a row of the filtered
entity, or to one joined to it. -/
def temporalKind? (s : Scope) (name : String) : Option FieldKind :=
  if s.isBaseRow then
    match s.entity.field? name with
    | some f => if f.kind.isTemporal then some f.kind else none
    | none => none
  else none

/-- Plan a truncated date. -/
def planTrunc? (c : Compiler) (s : Scope) (t : TruncFilter) : Option Plan :=
  if c.settings.features.dateTrunc then
    (temporalKind? s t.field).map fun kind => ⟨.dateTrunc s.path t.field t.kind, kind⟩
  else none

/-- Plan a part of a date. -/
def planExtract? (c : Compiler) (s : Scope) (e : ExtractFilter) : Option Plan :=
  if c.settings.features.dateExtract then
    match temporalKind? s e.field with
    | some kind =>
      if e.part.needsTime && !kind.hasTime then none
      else some ⟨.dateExtract s.path e.field e.part, .int⟩
    | none => none
  else none

/-- The fields of a search: those that it names, which must be free text, or those of the
entity. -/
def searchFields? (s : Scope) (search : SearchFilter) : Option (List String) :=
  let names :=
    if search.fields.isEmpty then s.entity.fullTextFields.map Field.name else search.fields
  let allowed := search.fields.all fun name => (s.entity.field? name).any (·.kind.isText)
  if allowed && !names.isEmpty then some names else none

/-- Plan a full-text search. -/
def planSearch? (c : Compiler) (s : Scope) (search : SearchFilter) : Option SearchPlan := do
  if !c.settings.features.fullText || !s.isBaseRow || Text.isBlankText search.query then none
  let fields ← searchFields? s search
  let config := search.config.getD c.settings.searchConfig
  return {
    vector := .searchVector s.path fields config
    rank := search.minRank.map fun _ => .searchRank s.path search.query search.mode
    fields
    config }

end Compiler

end EntityFilter
