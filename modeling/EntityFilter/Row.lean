import EntityFilter.Predicate

/-!
# Rows

A row is a document.  A relation is a member that holds an object, which is one related row, or an
array, whose items are related rows whatever they are; anything else holds no rows.

A date field holds a text.  What it writes is a `Moment`: a date if it writes nothing but a date,
and an instant if it writes one in any of the ways that filters accept.
-/

namespace EntityFilter

namespace Document

/-- The rows that a member holds. -/
def rows : Document → List Document
  | array items => items
  | object members => [object members]
  | _ => []

/-- The rows that a path of relations leads to, in order. -/
def related (row : Document) : List String → List Document
  | [] => [row]
  | relation :: path => ((row.get? relation).map rows).getD [] |>.flatMap fun d => d.related path

/-- The document at the end of a path, or null. -/
def valueAt (row : Document) (key : String) : Document := (row.get? key).getD null

/-- The document at the end of the path of a field. -/
def readField? (row : Document) (path : FieldPath) : Option Document := row.follow? path.segments

end Document

/-- A date or an instant. -/
inductive Moment where
  | date (value : Date)
  | instant (value : Instant)
  deriving DecidableEq, Repr

namespace Moment

/-- The moment that a document writes. -/
def ofDocument? : Document → Option Moment
  | .text s =>
    match Date.read? s with
    | some d => some (date d)
    | none => (Literal.instantOfText? s).map instant
  | _ => none

/-- A part of a moment. -/
def part (p : DatePart) : Moment → Int
  | date d => p.ofDate d
  | instant t => p.ofInstant t

/-- The text of the beginning of the bucket that a moment lies in. -/
def truncated (k : TruncKind) : Moment → String
  | date d => (k.truncateDate d).render
  | instant t => (k.truncate t).render

/-- The text of the beginning of the bucket that a moment lies in, unless the calendar ends on the
way to it. -/
def truncated? (k : TruncKind) : Moment → Option String
  | date d => (k.truncateDate? d).map Date.render
  | instant t => (k.truncate? t).map Instant.render

end Moment

/-- What a predicate is tested on: a row, and the row that holds the projections. -/
structure RowContext where
  /-- The row whose fields are read. -/
  row : Document
  /-- The row that holds the projections. -/
  base : Document

/-- A row that holds its own projections. -/
def RowContext.ofRow (row : Document) : RowContext := ⟨row, row⟩

namespace Operand

/-- The document that an operand stands for, if it is there. -/
def find? (ctx : RowContext) : Operand → Option Document
  | field path => ctx.row.readField? path
  | projection handle => ctx.base.get? handle.name
  | datePart path part =>
    ((ctx.row.readField? path).bind Moment.ofDocument?).map fun m => .int (m.part part)
  | arrayLength path => ((ctx.row.readField? path).bind Document.asArray?).map fun items =>
    .int items.length

/-- The value of an operand; null is no value. -/
def value? (ctx : RowContext) (o : Operand) : Option Document :=
  match o.find? ctx with
  | some .null => none
  | d => d

end Operand

end EntityFilter
