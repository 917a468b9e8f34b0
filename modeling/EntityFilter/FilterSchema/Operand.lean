import EntityFilter.Aggregate
import EntityFilter.Calendar.Bucket
import EntityFilter.FilterSchema
import EntityFilter.Operator
import EntityFilter.SearchMode
import EntityFilter.Window

/-!
# Input objects of operators and constraints

Every kind of field has an input object with its operators.  Kinds whose operators and operands look
the same share one, and so do all arrays: the first kind of array that is met decides what its
operands look like.  Constraints that are not operators of a field have an object each.

The objects of this file refer to each other at most.  Each one comes with the list of objects to
define, in which an object follows those that it refers to.
-/

namespace EntityFilter

namespace FieldKind

/-- The name of the object that holds the operators of a kind. -/
def operatorsName : FieldKind → String
  | text => "StringFilter"
  | int | bigInt => "IntFilter"
  | float | decimal => "FloatFilter"
  | boolean => "BooleanFilter"
  | date => "DateFilter"
  | dateTime => "DateTimeFilter"
  | id => "IdFilter"
  | uuid => "UuidFilter"
  | json => "JsonFilter"
  | array _ => "ArrayFilter"

/-- What the values of a kind look like as operands. -/
def scalar : FieldKind → Scalar
  | text => .text
  | int | bigInt => .int
  | float | decimal => .float
  | boolean => .boolean
  | date => .date
  | dateTime => .dateTime
  | id => .id
  | uuid => .uuid
  | json | array _ => .json

/-- The type of an operand of a shape. -/
def operandType (kind : FieldKind) : OperandShape → InputType
  | .value | .ordered => .scalar kind.scalar
  | .list | .range => .list (.scalar (kind.element?.getD kind).scalar)
  | .flag => .scalar .boolean
  | .pattern | .key => .scalar .text
  | .keys => .list (.scalar .text)
  | .integer => .object int.operatorsName

/-- The object that holds the operators of a kind. -/
def operatorsObject (kind : FieldKind) : InputObject :=
  .ofFields kind.operatorsName (kind.operators.map fun info =>
    ⟨info.name, kind.operandType info.shape, some info.description⟩)

/-- The operators of a kind; some of them take operators of integers. -/
def operatorsDefinitions (kind : FieldKind) : List InputObject :=
  (if kind.operators.any (·.shape = .integer) then [int.operatorsObject] else []) ++
    [kind.operatorsObject]

/-- The name of the object of constraints on truncated dates. -/
def truncName (kind : FieldKind) : String :=
  if kind.hasTime then "DateTimeTruncFilter" else "DateTruncFilter"

end FieldKind

namespace InputObject

variable {ρ : Type}

/-- A field that holds a text. -/
def textField (name : String) (description : Option String := none) : InputField ρ :=
  ⟨name, .scalar .text, description⟩

/-- A field that holds texts. -/
def textsField (name : String) (description : Option String := none) : InputField ρ :=
  ⟨name, .list (.scalar .text), description⟩

/-- A field that holds operators, given their object. -/
def operatorsField (name : String) (operators : ρ) : InputField ρ := ⟨name, .object operators, none⟩

/-- A description that lists some names. -/
def oneOf (names : List String) : Option String := some ("One of: " ++ Text.join ", " names)

/-- A constraint on a truncated date, given the operators of the kind. -/
def truncWith (kind : FieldKind) (operators : ρ) : InputObject ρ :=
  .ofFields kind.truncName [
    textField "kind" (oneOf (TruncKind.all.map TruncKind.name)),
    operatorsField "filter" operators]

/-- A constraint on a truncated date. -/
def trunc (kind : FieldKind) : InputObject := truncWith kind kind.operatorsName

/-- A constraint on a part of a date, given the operators of integers. -/
def extractWith (integers : ρ) : InputObject ρ :=
  .ofFields "DateExtractFilter" [
    textField "part" (oneOf (DatePart.all.map DatePart.name)),
    operatorsField "filter" integers]

/-- A constraint on a part of a date. -/
def extract : InputObject := extractWith FieldKind.int.operatorsName

/-- The fields of constraints on aggregates, given the operators of integers and of doubles. -/
def aggregateFieldsWith (integers doubles : ρ) : List (InputField ρ) :=
  textField "field" (some "Related field to aggregate; omit to count rows") ::
    AggregateFunction.all.map fun f =>
      operatorsField f.name (if f.isCount then integers else doubles)

/-- The fields of constraints on aggregates. -/
def aggregateFields : List InputField :=
  aggregateFieldsWith FieldKind.int.operatorsName FieldKind.float.operatorsName

/-- A constraint on aggregates of related rows. -/
def aggregate : InputObject := .ofFields "AggregateFilter" aggregateFields

/-- The field for the filter that related rows satisfy if they are aggregated. -/
def conditionField (filter : ρ) : InputField ρ :=
  ⟨"condition", .object filter, some "Only related rows matching this filter are aggregated"⟩

/-- A constraint on aggregates of those related rows that satisfy a filter, which is the object of
the given name. -/
def conditionalAggregate (filter : String) : InputObject :=
  .ofFields (filter ++ "ConditionalAggregateFilter") (aggregateFields ++ [conditionField filter])

/-- A comparison of two fields. -/
def comparison (ρ : Type := String) : InputObject ρ :=
  .ofFields "FieldComparison" [
    textField "left",
    textField "op" (oneOf (CompareOp.all.map CompareOp.name)),
    textField "right"]

/-- A constraint on a rank, given the operators of doubles. -/
def windowWith (doubles : ρ) : InputObject ρ :=
  .ofFields "WindowFilter" [
    textField "function" (oneOf (WindowFunction.all.map WindowFunction.name)),
    textsField "partition_by",
    textsField "order_by" (some "Field names, `-` prefix for descending"),
    operatorsField "filter" doubles]

/-- A constraint on a rank. -/
def window : InputObject := windowWith FieldKind.float.operatorsName

/-- A constraint on a looked-up value. -/
def subquery (ρ : Type := String) : InputObject ρ :=
  .ofFields "SubqueryFilter" [
    textField "relation",
    textField "field",
    textsField "order_by",
    ⟨"filter", .scalar .json, some "Operators of the selected field's kind"⟩]

/-- An existence test. -/
def existence (ρ : Type := String) : InputObject ρ :=
  .ofFields "ExistsFilter" [
    textField "relation",
    ⟨"condition", .scalar .json, some "Filter over the related entity"⟩,
    ⟨"exists", .scalar .boolean, none⟩]

/-- A full-text search. -/
def search (ρ : Type := String) : InputObject ρ :=
  .ofFields "SearchFilter" [
    textField "query",
    textsField "fields",
    textField "mode" (oneOf (SearchMode.all.map SearchMode.name)),
    ⟨"min_rank", .scalar .float, none⟩,
    textField "config"]

/-- Operators of integers and of doubles. -/
def numbers : List InputObject :=
  FieldKind.int.operatorsDefinitions ++ FieldKind.float.operatorsDefinitions

end InputObject

end EntityFilter
