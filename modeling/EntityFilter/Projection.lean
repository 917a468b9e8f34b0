import EntityFilter.Aggregate
import EntityFilter.Document.Canonical
import EntityFilter.Predicate.Printer
import EntityFilter.Window

/-!
# Projections

A projection is a value that is computed for a row before the row is tested.  Its key says what is
computed, starting from the entity that is filtered, and the name of the projection is made from
the key alone.  The expression says how to compute it, starting from the rows that it is computed
for: the scope is the path of relations that leads to them.
-/

namespace EntityFilter

/-- What a projection is. -/
inductive ProjectionKey where
  /-- An aggregate over related rows. -/
  | aggregate (relation : RelationPath) (field : Option String) (function : AggregateFunction)
  /-- An aggregate over the related rows that satisfy a condition. -/
  | conditionalAggregate (relation : RelationPath) (field : Option String)
      (function : AggregateFunction) (fingerprint : UInt32)
  /-- The number of related rows. -/
  | count (relation : RelationPath)
  /-- The rank of a row. -/
  | window (path : RelationPath) (function : WindowFunction) (spec : WindowSpec)
  /-- A field of the first related row. -/
  | subquery (relation : RelationPath) (field : String) (orderBy : List OrderKey)
  /-- A truncated date. -/
  | dateTrunc (path : RelationPath) (field : String) (kind : TruncKind)
  /-- A part of a date. -/
  | dateExtract (path : RelationPath) (field : String) (part : DatePart)
  /-- The document of a full-text search. -/
  | searchVector (path : RelationPath) (fields : List String) (config : String)
  /-- The rank of a row in a full-text search. -/
  | searchRank (path : RelationPath) (query : String) (mode : SearchMode)
  deriving DecidableEq

namespace ProjectionKey

/-- A name behind the path of relations, if there is one. -/
def under (path : RelationPath) (name : String) : String :=
  if path.isEmpty then name else path.lookupName ++ "__" ++ name

/-- The part of the name that says what is aggregated and how. -/
def aggregateName (field : Option String) (function : AggregateFunction) : String :=
  match field with
  | some field => field ++ "_" ++ function.name
  | none => function.name

/-- The name of a projection. -/
def name : ProjectionKey → String
  | aggregate relation field function =>
    relation.lookupName ++ "_agg_" ++ aggregateName field function
  | conditionalAggregate relation field function fingerprint =>
    relation.lookupName ++ "_cond_agg_" ++ aggregateName field function ++ "_" ++
      Document.fingerprintText fingerprint
  | count relation => relation.lookupName ++ "_count"
  | window path function spec => under path ("window_" ++ function.name ++ spec.suffix)
  | subquery relation field orderBy =>
    relation.lookupName ++ "_subquery_" ++ field ++
      (if orderBy.isEmpty then "" else "_by_" ++ OrderKey.fragments orderBy)
  | dateTrunc path field kind => under path (field ++ "_trunc_" ++ kind.name)
  | dateExtract path field part => under path (field ++ "_extract_" ++ part.name)
  | searchVector path _ _ => under path "search_vector"
  | searchRank path _ _ => under path "search_rank"

end ProjectionKey

/-- How a projection is computed. -/
inductive ProjectionExpr where
  /-- Aggregate a field of the related rows, or the rows themselves; only those that satisfy the
  predicate if there is one. -/
  | aggregate (function : AggregateFunction) (relation : RelationPath) (field : Option String)
      (filter : Option Predicate)
  /-- Count the related rows. -/
  | count (relation : RelationPath)
  /-- Look up a field of the first related row. -/
  | subquery (relation : RelationPath) (field : String) (orderBy : List OrderKey)
  /-- Rank the rows. -/
  | window (function : WindowFunction) (spec : WindowSpec)
  /-- Truncate a date. -/
  | dateTrunc (field : FieldPath) (kind : TruncKind)
  /-- Read a part off a date. -/
  | dateExtract (field : FieldPath) (part : DatePart)
  /-- Join the fields of a full-text search. -/
  | searchVector (fields : List FieldPath) (config : String)
  /-- Rank a row in a full-text search. -/
  | searchRank (vector : ProjectionHandle) (query : String) (mode : SearchMode) (config : String)

namespace ProjectionExpr

/-- The text of an expression. -/
def render : ProjectionExpr → String
  | aggregate function relation field filter =>
    let inner := match field with
      | some field =>
        (if function = .countDistinct then "DISTINCT " else "") ++ relation.render ++ "." ++ field
      | none => relation.render
    function.sql ++ "(" ++ inner ++ ")" ++
      (match filter with
        | some p => " FILTER (WHERE " ++ p.render ++ ")"
        | none => "")
  | count relation => "COUNT(" ++ relation.render ++ ")"
  | subquery relation field orderBy =>
    "(SELECT " ++ field ++ " FROM " ++ relation.render ++
      (if orderBy.isEmpty then ""
        else " ORDER BY " ++ Text.join ", " (orderBy.map OrderKey.render)) ++ " LIMIT 1)"
  | window function spec => function.sql ++ "() " ++ spec.render
  | dateTrunc field kind => "DATE_TRUNC('" ++ kind.name ++ "', " ++ field.render ++ ")"
  | dateExtract field part => part.renderOf field
  | searchVector fields config =>
    "to_tsvector('" ++ config ++ "', " ++ Text.join " || ' ' || " (fields.map FieldPath.render) ++
      ")"
  | searchRank vector query mode config =>
    "ts_rank(" ++ vector.name ++ ", " ++ mode.queryFunction ++ "('" ++ config ++ "', " ++
      Literal.quote query ++ "))"

end ProjectionExpr

/-- A projection of a compiled filter. -/
structure Projection where
  /-- What is computed. -/
  key : ProjectionKey
  /-- How it is computed. -/
  expr : ProjectionExpr
  /-- The path to the rows that it is computed for. -/
  scope : RelationPath := .root

namespace Projection

/-- The name of a projection. -/
def name (p : Projection) : String := p.key.name

/-- The text of a projection. -/
def render (p : Projection) : String :=
  p.name ++ " = " ++ p.expr.render ++
    (if p.scope.isEmpty then "" else " FOR EACH " ++ p.scope.render)

end Projection

end EntityFilter
