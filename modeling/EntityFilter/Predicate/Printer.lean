import EntityFilter.Literal.Printer
import EntityFilter.Predicate

/-!
# Printed predicates

Predicates are printed the way the condition of a query would be written.  Conjunctions and
disjunctions stand in parentheses; texts that come from a filter stand between single quotes.
-/

namespace EntityFilter

/-- A part of a date, read off a field. -/
def DatePart.renderOf (part : DatePart) (path : FieldPath) : String :=
  "EXTRACT(" ++ part.sql ++ " FROM " ++ path.render ++ ")"

/-- The text of an operand. -/
def Operand.render : Operand → String
  | field path => path.render
  | projection handle => handle.name
  | datePart path part => part.renderOf path
  | arrayLength path => "CARDINALITY(" ++ path.render ++ ")"

/-- The pattern that stands for a match. -/
def TextMatch.pattern (kind : TextMatch) (value : String) : String :=
  match kind with
  | contains => "%" ++ value ++ "%"
  | startsWith => value ++ "%"
  | endsWith => "%" ++ value

/-- The operator of a match of keys. -/
def KeyMatch.symbol : KeyMatch → String
  | all => "?&"
  | any => "?|"

/-- The operator of a match of arrays. -/
def ArrayMatch.symbol : ArrayMatch → String
  | contains => "@>"
  | containedBy => "<@"
  | overlaps => "&&"

namespace Predicate

mutual

/-- The text of a predicate. -/
def render : Predicate → String
  | compare left op value => left.render ++ " " ++ op.symbol ++ " " ++ value.render
  | compareOperands left op right => left.render ++ " " ++ op.symbol ++ " " ++ right.render
  | member operand values negated =>
    operand.render ++ (if negated then " NOT IN " else " IN ") ++ (Literal.list values).render
  | isNull operand negated => operand.render ++ (if negated then " IS NOT NULL" else " IS NULL")
  | text operand kind value ignoreCase =>
    operand.render ++ (if ignoreCase then " ILIKE " else " LIKE ") ++
      Literal.quote (kind.pattern value)
  | regex operand pattern ignoreCase =>
    operand.render ++ (if ignoreCase then " ~* " else " ~ ") ++ Literal.quote pattern
  | keys operand names mode =>
    operand.render ++ " " ++ mode.symbol ++ " " ++ (Literal.list (names.map Literal.text)).render
  | array operand kind values =>
    operand.render ++ " " ++ kind.symbol ++ " " ++ (Literal.list values).render
  | existence relation _ none => "EXISTS(" ++ relation.render ++ ")"
  | existence relation _ (some p) => "EXISTS(" ++ relation.render ++ " WHERE " ++ render p ++ ")"
  | search vector query mode config =>
    vector.name ++ " @@ " ++ mode.queryFunction ++ "('" ++ config ++ "', " ++ Literal.quote query ++
      ")"
  | all parts => "(" ++ Text.join " AND " (renderAll parts) ++ ")"
  | any parts => "(" ++ Text.join " OR " (renderAll parts) ++ ")"
  | negation p => "NOT " ++ render p

/-- The texts of predicates. -/
def renderAll : List Predicate → List String
  | [] => []
  | p :: ps => render p :: renderAll ps

end

end Predicate

end EntityFilter
