import EntityFilter.Calendar.Period
import EntityFilter.FieldKind
import EntityFilter.Predicate

/-!
# Operators

A family of fields has a table of operators.  A row of the table gives the name under which
filters use an operator, what the operator does, the shape of its operand, and a description.  The
same name can do different things in two families.
-/

namespace EntityFilter

/-- What an operator does. -/
inductive Operator where
  /-- Compare with the operand; `eq` and `neq` test for null when the operand is null. -/
  | compare (op : CompareOp)
  /-- Look for the value among the operands. -/
  | member (negated : Bool)
  /-- Lie between two operands, both included. -/
  | between
  /-- Be missing, or not. -/
  | isNull
  /-- Match a text. -/
  | text (kind : TextMatch) (ignoreCase : Bool)
  /-- Match a regular expression. -/
  | regex (ignoreCase : Bool)
  /-- Constrain a part of a date. -/
  | part (part : DatePart)
  /-- Lie in a named period, or not. -/
  | period (shortcut : Shortcut)
  /-- Have keys. -/
  | keys (mode : KeyMatch)
  /-- Match an array. -/
  | array (kind : ArrayMatch)
  /-- Constrain the number of elements. -/
  | length
  deriving DecidableEq, Repr

/-- What an operator takes as its operand. -/
inductive OperandShape where
  /-- A value of the field, or null. -/
  | value
  /-- A value of the field. -/
  | ordered
  /-- A list of values; one alone is a list too. -/
  | list
  /-- A list of two values. -/
  | range
  /-- A truth value. -/
  | flag
  /-- A text. -/
  | pattern
  /-- An integer, or operators of numbers. -/
  | integer
  /-- The name of a key. -/
  | key
  /-- A list of names of keys; one alone is a list too. -/
  | keys
  deriving DecidableEq, Repr

namespace OperandShape

/-- The name of a shape. -/
def name : OperandShape → String
  | value => "value"
  | ordered => "ordered"
  | list => "list"
  | range => "range"
  | flag => "flag"
  | pattern => "pattern"
  | integer => "integer"
  | key => "key"
  | keys => "keys"

/-- A short description of what is expected. -/
def description : OperandShape → String
  | value => "value"
  | ordered => "value"
  | list => "list"
  | range => "[low, high]"
  | flag => "boolean"
  | pattern => "string"
  | integer => "integer or numeric filter"
  | key => "string"
  | keys => "list of strings"

end OperandShape

/-- An operator of a family. -/
structure OperatorInfo where
  /-- The name in filters. -/
  name : String
  /-- What it does. -/
  operator : Operator
  /-- What it takes. -/
  shape : OperandShape
  /-- A description. -/
  description : String
  deriving DecidableEq, Repr

namespace OperatorFamily

private def eqInfo : OperatorInfo := ⟨"eq", .compare .eq, .value, "Equal to"⟩

private def neqInfo : OperatorInfo := ⟨"neq", .compare .neq, .value, "Not equal to"⟩

private def inInfo : OperatorInfo := ⟨"in", .member false, .list, "Equal to one of the values"⟩

private def notInInfo : OperatorInfo :=
  ⟨"not_in", .member true, .list, "Equal to none of the values"⟩

private def betweenInfo : OperatorInfo :=
  ⟨"between", .between, .range, "Between low and high, inclusive"⟩

private def isNullInfo : OperatorInfo := ⟨"is_null", .isNull, .flag, "Is (or is not) null"⟩

private def periodInfo (s : Shortcut) (span : String) : OperatorInfo :=
  ⟨s.name, .period s, .flag, "Within (or outside) the " ++ span⟩

/-- Operators of free text. -/
def textOperators : List OperatorInfo :=
  [eqInfo, neqInfo,
   ⟨"contains", .text .contains false, .pattern, "Contains the substring"⟩,
   ⟨"icontains", .text .contains true, .pattern, "Contains the substring, ignoring case"⟩,
   ⟨"starts_with", .text .startsWith false, .pattern, "Starts with the prefix"⟩,
   ⟨"istarts_with", .text .startsWith true, .pattern, "Starts with the prefix, ignoring case"⟩,
   ⟨"ends_with", .text .endsWith false, .pattern, "Ends with the suffix"⟩,
   ⟨"iends_with", .text .endsWith true, .pattern, "Ends with the suffix, ignoring case"⟩,
   inInfo, notInInfo, isNullInfo,
   ⟨"regex", .regex false, .pattern, "Matches the regular expression"⟩,
   ⟨"iregex", .regex true, .pattern, "Matches the regular expression, ignoring case"⟩]

/-- Operators of numbers. -/
def numericOperators : List OperatorInfo :=
  [eqInfo, neqInfo,
   ⟨"gt", .compare .gt, .ordered, "Greater than"⟩,
   ⟨"gte", .compare .gte, .ordered, "Greater than or equal to"⟩,
   ⟨"lt", .compare .lt, .ordered, "Less than"⟩,
   ⟨"lte", .compare .lte, .ordered, "Less than or equal to"⟩,
   inInfo, notInInfo, betweenInfo, isNullInfo]

/-- Operators of truth values. -/
def booleanOperators : List OperatorInfo := [eqInfo, isNullInfo]

/-- Operators of dates and instants. -/
def temporalOperators : List OperatorInfo :=
  [eqInfo, neqInfo,
   ⟨"gt", .compare .gt, .ordered, "After"⟩,
   ⟨"gte", .compare .gte, .ordered, "On or after"⟩,
   ⟨"lt", .compare .lt, .ordered, "Before"⟩,
   ⟨"lte", .compare .lte, .ordered, "On or before"⟩,
   betweenInfo, isNullInfo,
   ⟨"year", .part .year, .integer, "Calendar year"⟩,
   ⟨"month", .part .month, .integer, "Month, 1-12"⟩,
   ⟨"day", .part .day, .integer, "Day of month"⟩,
   ⟨"week_day", .part .weekDay, .integer, "Day of week, 1 (Sunday) to 7 (Saturday)"⟩,
   ⟨"hour", .part .hour, .integer, "Hour of day (datetime only)"⟩,
   periodInfo .today "current day",
   periodInfo .yesterday "previous day",
   periodInfo .thisWeek "current week",
   periodInfo .pastWeek "last 7 days",
   periodInfo .thisMonth "current month",
   periodInfo .pastMonth "last 30 days",
   periodInfo .thisYear "current year",
   periodInfo .pastYear "last 365 days"]

/-- Operators of identifiers. -/
def identifierOperators : List OperatorInfo := [eqInfo, neqInfo, inInfo, notInInfo, isNullInfo]

/-- Operators of documents. -/
def jsonOperators : List OperatorInfo :=
  [⟨"eq", .compare .eq, .value, "Equal to the document"⟩, isNullInfo,
   ⟨"has_key", .keys .all, .key, "Has the top-level key"⟩,
   ⟨"has_keys", .keys .all, .keys, "Has every listed top-level key"⟩,
   ⟨"has_any_keys", .keys .any, .keys, "Has at least one listed top-level key"⟩]

/-- Operators of arrays. -/
def arrayOperators : List OperatorInfo :=
  [⟨"contains", .array .contains, .list, "Contains every listed value"⟩,
   ⟨"contained_by", .array .containedBy, .list, "Every element is one of the listed values"⟩,
   ⟨"overlaps", .array .overlaps, .list, "Shares at least one value with the list"⟩,
   ⟨"length", .length, .integer, "Number of elements"⟩, isNullInfo]

/-- The operators of a family, in the order in which they are listed. -/
def operators : OperatorFamily → List OperatorInfo
  | text => textOperators
  | numeric => numericOperators
  | boolean => booleanOperators
  | temporal => temporalOperators
  | identifier => identifierOperators
  | json => jsonOperators
  | array => arrayOperators

/-- The operator of a name. -/
def operator? (family : OperatorFamily) (name : String) : Option OperatorInfo :=
  family.operators.find? (·.name = name)

end OperatorFamily

/-- Whether an operator needs a time of day. -/
def Operator.needsTime : Operator → Bool
  | part p => p.needsTime
  | _ => false

/-- The named period that an operator asks for. -/
def Operator.shortcut? : Operator → Option Shortcut
  | period s => some s
  | _ => none

/-- The operators of a kind of field: those of its family that the values have enough for. -/
def FieldKind.operators (kind : FieldKind) : List OperatorInfo :=
  kind.family.operators.filter fun info => kind.hasTime || !info.operator.needsTime

end EntityFilter
