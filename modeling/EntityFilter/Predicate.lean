import EntityFilter.Calendar.Bucket
import EntityFilter.CompareOp
import EntityFilter.Literal
import EntityFilter.Path
import EntityFilter.SearchMode

/-!
# Predicates

A compiled filter is a predicate: a truth-valued tree over the fields of a row and over
projections, values that are computed for a row beforehand.  That there is no constraint is said by
the absence of a predicate, never by one that is always true.
-/

namespace EntityFilter

/-- A reference to a projection: its place in the set of projections and its name. -/
structure ProjectionHandle where
  /-- The place in the set. -/
  index : Nat
  /-- The name of the projection. -/
  name : String
  deriving DecidableEq, Repr

/-- A value that a predicate tests. -/
inductive Operand where
  /-- A field of the row. -/
  | field (path : FieldPath)
  /-- A projection. -/
  | projection (handle : ProjectionHandle)
  /-- A part of a date or an instant. -/
  | datePart (path : FieldPath) (part : DatePart)
  /-- The number of elements of an array. -/
  | arrayLength (path : FieldPath)
  deriving DecidableEq, Repr

/-- How a text matches another. -/
inductive TextMatch where
  | contains
  | startsWith
  | endsWith
  deriving DecidableEq, Repr

/-- How many of several keys must be there. -/
inductive KeyMatch where
  | all
  | any
  deriving DecidableEq, Repr

/-- How an array matches a list of values. -/
inductive ArrayMatch where
  /-- Every value is in the array. -/
  | contains
  /-- Every element of the array is among the values. -/
  | containedBy
  /-- Some element of the array is among the values. -/
  | overlaps
  deriving DecidableEq, Repr

/-- A condition on a row. -/
inductive Predicate where
  /-- Compare a value with a literal. -/
  | compare (left : Operand) (op : CompareOp) (value : Literal)
  /-- Compare two values. -/
  | compareOperands (left : Operand) (op : CompareOp) (right : Operand)
  /-- The value is among the literals, or is there and is not. -/
  | member (operand : Operand) (values : List Literal) (negated : Bool)
  /-- The value is missing, or is there. -/
  | isNull (operand : Operand) (negated : Bool)
  /-- The value is a text that matches. -/
  | text (operand : Operand) (kind : TextMatch) (value : String) (ignoreCase : Bool)
  /-- The value is a text in which the regular expression matches. -/
  | regex (operand : Operand) (pattern : String) (ignoreCase : Bool)
  /-- The value is an object with the keys. -/
  | keys (operand : Operand) (keys : List String) (mode : KeyMatch)
  /-- The value is an array that matches. -/
  | array (operand : Operand) (kind : ArrayMatch) (values : List Literal)
  /-- There is a related row, one that satisfies the predicate if there is one. -/
  | existence (relation : RelationPath) (entity : String) (predicate : Option Predicate)
  /-- The search finds the document that a projection holds. -/
  | search (vector : ProjectionHandle) (query : String) (mode : SearchMode) (config : String)
  /-- All predicates hold. -/
  | all (parts : List Predicate)
  /-- At least one predicate holds. -/
  | any (parts : List Predicate)
  /-- The predicate does not hold. -/
  | negation (predicate : Predicate)

namespace Predicate

/-- The parts of a conjunction; anything else is its own only part. -/
def conjuncts : Predicate → List Predicate
  | all parts => parts
  | p => [p]

/-- The parts of a disjunction; anything else is its own only part. -/
def disjuncts : Predicate → List Predicate
  | any parts => parts
  | p => [p]

/-- All predicates hold: none of them is no constraint, and one stands for itself. -/
def and? (ps : List Predicate) : Option Predicate :=
  match ps.flatMap conjuncts with
  | [] => none
  | [p] => some p
  | parts => some (all parts)

/-- At least one predicate holds: none of them is no constraint, and one stands for itself. -/
def or? (ps : List Predicate) : Option Predicate :=
  match ps.flatMap disjuncts with
  | [] => none
  | [p] => some p
  | parts => some (any parts)

/-- The predicate does not hold; a second negation takes back the first. -/
def not : Predicate → Predicate
  | negation p => p
  | p => negation p

/-- Both predicates hold. -/
def andThen (p q : Predicate) : Predicate := all (p.conjuncts ++ q.conjuncts)

mutual

/-- The number of predicates in a predicate, itself included. -/
def size : Predicate → Nat
  | all parts | any parts => 1 + sizeAll parts
  | negation p => 1 + size p
  | existence _ _ (some p) => 1 + size p
  | _ => 1

/-- The number of predicates in a list of predicates. -/
def sizeAll : List Predicate → Nat
  | [] => 0
  | p :: ps => size p + sizeAll ps

end

end Predicate

end EntityFilter
