/-!
# Comparison operators

The six ways in which two ordered values can be compared.
-/

namespace EntityFilter

/-- A comparison of two values. -/
inductive CompareOp where
  | eq
  | neq
  | gt
  | gte
  | lt
  | lte
  deriving DecidableEq, Repr, Inhabited

namespace CompareOp

/-- Every operator. -/
def all : List CompareOp := [eq, neq, gt, gte, lt, lte]

/-- The name of an operator. -/
def name : CompareOp → String
  | eq => "eq"
  | neq => "neq"
  | gt => "gt"
  | gte => "gte"
  | lt => "lt"
  | lte => "lte"

/-- The operator of a name. -/
def ofName? (s : String) : Option CompareOp := all.find? (·.name = s)

/-- The symbol of an operator. -/
def symbol : CompareOp → String
  | eq => "="
  | neq => "!="
  | gt => ">"
  | gte => ">="
  | lt => "<"
  | lte => "<="

/-- Whether the operator accepts values in the given order. -/
def holds : CompareOp → Ordering → Bool
  | eq, o => o == .eq
  | neq, o => o != .eq
  | gt, o => o == .gt
  | gte, o => o != .lt
  | lt, o => o == .lt
  | lte, o => o != .gt

end CompareOp

end EntityFilter
