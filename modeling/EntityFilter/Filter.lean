import EntityFilter.Aggregate
import EntityFilter.Calendar.Bucket
import EntityFilter.CompareOp
import EntityFilter.Literal
import EntityFilter.SearchMode
import EntityFilter.Window

/-!
# Filters

A filter over an entity is a list of entries under their keys, in the order in which they were
written.  What an entry means is decided by its key alone; whether the entity has the field or the
relation that it names is decided when the filter is compiled.

A leaf is a list of operators with their operands, applied to one value.
-/

namespace EntityFilter

/-- Operators with their operands, in order. -/
structure Leaf where
  /-- The operands by operator. -/
  operators : OrderedMap String Literal := .empty

namespace Leaf

/-- The leaf that a document writes: an object lists operators, and any other document is the
operand of `eq`. -/
def ofDocument : Document → Leaf
  | .object members => ⟨.ofList (members.map fun (name, d) => (name, Literal.ofDocument d))⟩
  | d => ⟨.ofList [("eq", Literal.ofDocument d)]⟩

/-- The operand of an operator. -/
def get? (l : Leaf) (operator : String) : Option Literal := l.operators.get? operator

/-- Whether an operator matches a regular expression. -/
def isPatternOperator (operator : String) : Bool := operator = "regex" || operator = "iregex"

/-- The regular expressions of one operator; an operand that is an object has operators itself. -/
def operandPatterns (operator : String) : Literal → List String
  | .text pattern => if isPatternOperator operator then [pattern] else []
  | .document (.object members) =>
    members.filterMap fun (inner, d) =>
      match d with
      | .text pattern => if isPatternOperator inner then some pattern else none
      | _ => none
  | _ => []

/-- The regular expressions of a leaf. -/
def patterns (l : Leaf) : List String :=
  l.operators.entries.flatMap fun (operator, operand) => operandPatterns operator operand

end Leaf

/-- How the rows of a relation are tested. -/
inductive Quantifier where
  /-- At least one row satisfies the filter. -/
  | some
  /-- There are rows, and all of them satisfy the filter. -/
  | every
  /-- No row satisfies the filter. -/
  | none
  deriving DecidableEq, Repr

namespace Quantifier

/-- What a key ends in. -/
def ending : Quantifier → String
  | some => "_some"
  | every => "_every"
  | none => "_none"

end Quantifier

/-- Rank the rows and constrain the rank. -/
structure WindowFilter where
  /-- How rows are ranked. -/
  function : WindowFunction
  /-- The partition and the order. -/
  spec : WindowSpec
  /-- The constraint on the rank. -/
  filter : Leaf

/-- Constrain a field of the first row of a relation. -/
structure SubqueryFilter where
  /-- The relation. -/
  relation : String
  /-- The field of the target. -/
  field : String
  /-- The order of the rows. -/
  orderBy : List OrderKey
  /-- The constraint on the field. -/
  filter : Leaf

/-- Compare two fields of a row. -/
structure FieldComparison where
  /-- The field on the left. -/
  left : String
  /-- The comparison. -/
  op : CompareOp
  /-- The field on the right. -/
  right : String

/-- Constrain a truncated date. -/
structure TruncFilter where
  /-- The field. -/
  field : String
  /-- The bucket. -/
  kind : TruncKind
  /-- The constraint on the beginning of the bucket. -/
  filter : Leaf

/-- Constrain a part of a date. -/
structure ExtractFilter where
  /-- The field. -/
  field : String
  /-- The part. -/
  part : DatePart
  /-- The constraint on the part. -/
  filter : Leaf

/-- Look for words in the text fields. -/
structure SearchFilter where
  /-- What is looked for. -/
  query : String
  /-- The fields; when empty, those of the entity. -/
  fields : List String := []
  /-- How the query is understood. -/
  mode : SearchMode := .plain
  /-- The least rank. -/
  minRank : Option Float := none
  /-- The language, unless the configured one is meant. -/
  config : Option String := none

/-- Aggregates of a relation and the constraints on them. -/
structure Aggregation where
  /-- The relation. -/
  relation : String
  /-- The field that is aggregated. -/
  field : Option String
  /-- The functions, each with its constraint. -/
  functions : List (AggregateFunction × Leaf)

/-- A test whether a relation has rows. -/
structure ExistenceTest where
  /-- The relation. -/
  relation : String
  /-- Whether there should be rows. -/
  expected : Bool

mutual

/-- Entries under their keys. -/
inductive Filter where
  | node (entries : List (String × FilterEntry))

/-- One entry of a filter. -/
inductive FilterEntry where
  /-- Every filter is satisfied. -/
  | all (filters : List Filter)
  /-- At least one filter is satisfied. -/
  | any (filters : List Filter)
  /-- The filter is not satisfied. -/
  | negation (filter : Filter)
  /-- A constraint on the primary key. -/
  | id (leaf : Leaf)
  /-- Free text in the quick-search fields. -/
  | quick (text : String)
  /-- Identifiers that belong to the result in any case. -/
  | included (values : List Literal)
  /-- A full-text search. -/
  | search (search : SearchFilter)
  /-- Constraints on ranks. -/
  | window (items : List WindowFilter)
  /-- Constraints on looked-up values. -/
  | subquery (items : List SubqueryFilter)
  /-- Tests for rows, each with the filter that the rows must satisfy. -/
  | existence (items : List (ExistenceTest × Option Filter))
  /-- Comparisons of fields. -/
  | compare (items : List FieldComparison)
  /-- A filter on the one row that a relation leads to. -/
  | related (relation : String) (filter : Filter)
  /-- A filter on the rows that a relation leads to. -/
  | quantified (relation : String) (quantifier : Quantifier) (filter : Filter)
  /-- Constraints on aggregates; the condition picks the rows and comes with its fingerprint. -/
  | aggregate (aggregation : Aggregation) (condition : Option (Filter × UInt32))
  /-- A constraint on a truncated date. -/
  | trunc (trunc : TruncFilter)
  /-- A constraint on a part of a date. -/
  | extract (extract : ExtractFilter)
  /-- A constraint on the number of related rows. -/
  | count (relation : String) (leaf : Leaf)
  /-- A constraint on a field, or on the identifiers of a relation. -/
  | field (name : String) (leaf : Leaf)

end

namespace Filter

/-- The entries, in order. -/
def entries : Filter → List (String × FilterEntry)
  | node es => es

/-- The entry under a key. -/
def get? (f : Filter) (key : String) : Option FilterEntry := Entries.get? key f.entries

end Filter

namespace FilterEntry

/-- The filters inside an entry, one level deeper than the entry itself. -/
def children : FilterEntry → List Filter
  | all fs | any fs => fs
  | negation f | related _ f | quantified _ _ f => [f]
  | existence items => items.filterMap Prod.snd
  | aggregate _ (some (f, _)) => [f]
  | _ => []

/-- The leaves that an entry holds itself. -/
def leaves : FilterEntry → List Leaf
  | id leaf | count _ leaf | field _ leaf => [leaf]
  | aggregate a _ => a.functions.map Prod.snd
  | window items => items.map WindowFilter.filter
  | subquery items => items.map SubqueryFilter.filter
  | trunc t => [t.filter]
  | extract e => [e.filter]
  | _ => []

/-- The regular expressions that an entry holds itself. -/
def patterns (e : FilterEntry) : List String := e.leaves.flatMap Leaf.patterns

end FilterEntry

end EntityFilter
