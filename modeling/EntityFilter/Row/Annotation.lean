import EntityFilter.Compiled
import EntityFilter.Row.Truth

/-!
# Computing projections and filtering rows

A projection is stored in the rows that it is computed for, under its name.  Ranks are not computed
here, so a predicate on a rank never holds.

A truncated date may have no value because the calendar ends on the way to it.  Then rows are not
annotated at all: `Document.annotate?`, `Document.project?` and `CompiledFilter.keep?` have no
result.
-/

namespace EntityFilter

namespace OrderKey

/-- Order two rows by one key.  A row without a value comes last in both directions. -/
def compareRows (k : OrderKey) (a b : Document) : Ordering :=
  let left := a.valueAt k.field
  let right := b.valueAt k.field
  match left.isNull, right.isNull with
  | true, true => .eq
  | true, false => .gt
  | false, true => .lt
  | false, false =>
    let o := (left.compare? right).getD .eq
    if k.descending then o.swap else o

/-- Order two rows by the first key that tells them apart. -/
def compareRowsBy (ks : List OrderKey) (a b : Document) : Ordering :=
  match ks with
  | [] => .eq
  | k :: ks => (k.compareRows a b).then (compareRowsBy ks a b)

end OrderKey

namespace Document

/-- Place a row among sorted ones that are given last one first: in front of those at the end that
come after it. -/
def insertRow (ks : List OrderKey) (row : Document) : List Document → List Document
  | [] => [row]
  | last :: others =>
    if OrderKey.compareRowsBy ks row last = .lt then last :: insertRow ks row others
    else row :: last :: others

/-- Rows in order; rows that are not told apart stay as they come. -/
def sortRows (ks : List OrderKey) (rows : List Document) : List Document :=
  (rows.foldl (fun sorted row => insertRow ks row sorted) []).reverse

end Document

namespace ProjectionExpr

/-- The column that an aggregate takes: the field of each row that it picks, or one value for each
row. -/
def column (field : Option String) (filter : Option Predicate) (rows : List Document) :
    List Document :=
  (rows.filter fun row => filter.all (·.holdsOf row)).map fun row =>
    match field with
    | some name => row.valueAt name
    | none => .bool true

/-- What a moment in a field gives; null when the field holds none. -/
def onMoment? (row : Document) (path : FieldPath) (f : Moment → Document) : Option Document :=
  (row.readField? path).map fun d =>
    match Moment.ofDocument? d with
    | some m => f m
    | none => .null

/-- The value of an expression for a row, if it has one. -/
def compute? (row : Document) : ProjectionExpr → Option Document
  | aggregate function relation field filter =>
    some (function.compute (column field filter (row.related relation.segments)))
  | count relation => some (.int (row.related relation.segments).length)
  | subquery relation field orderBy =>
    some (((row.related relation.segments |> Document.sortRows orderBy).head?.map fun first =>
      first.valueAt field).getD .null)
  | dateTrunc path kind => onMoment? row path fun m => .text (m.truncated kind)
  | dateExtract path part => onMoment? row path fun m => .int (m.part part)
  | searchVector fields _ =>
    some (.text (Text.join " " (fields.filterMap fun path =>
      (row.readField? path).bind Document.asText?)))
  | window _ _ => none
  | searchRank _ _ _ _ => none

/-- Whether the calendar does not end while an expression is computed for a row. -/
def fitsCalendar (row : Document) : ProjectionExpr → Bool
  | dateTrunc path kind =>
    ((row.readField? path).bind Moment.ofDocument?).all fun m => (m.truncated? kind).isSome
  | _ => true

end ProjectionExpr

namespace Document

/-- Apply a function to the rows that a path of relations leads to. -/
def mapAlong (f : Document → Document) : List String → Document → Document
  | [], row => f row
  | relation :: path, object members =>
    object (Entries.modify relation (fun d =>
      match d with
      | array items => array (items.map (mapAlong f path))
      | object inner => mapAlong f path (object inner)
      | d => d) members)
  | _ :: _, d => d

/-- Store a projection in a row. -/
def annotateRow (p : Projection) (row : Document) : Document :=
  match p.expr.compute? row with
  | some value => row.insert p.name value
  | none => row

/-- Store a projection in the rows below a row that it is computed for. -/
def annotateWith (row : Document) (p : Projection) : Document :=
  mapAlong (annotateRow p) p.scope.segments row

/-- Store all projections, one after the other. -/
def annotate (set : ProjectionSet) (row : Document) : Document :=
  set.toList.foldl annotateWith row

/-- The projections of a row itself, by name. -/
def project (set : ProjectionSet) (row : Document) : List (String × Document) :=
  Entries.ofPairs (set.toList.filterMap fun p =>
    if p.scope.isEmpty then (p.expr.compute? row).map fun value => (p.name, value) else none)

/-- Store a projection in the rows below a row, unless the calendar ends while it is computed. -/
def annotateWith? (row : Document) (p : Projection) : Option Document :=
  if (row.related p.scope.segments).all p.expr.fitsCalendar then some (row.annotateWith p)
  else none

/-- Store all projections, one after the other, unless the calendar ends on the way. -/
def annotate? (set : ProjectionSet) (row : Document) : Option Document :=
  set.toList.foldlM annotateWith? row

/-- The projections of a row itself, unless the calendar ends while one is computed. -/
def project? (set : ProjectionSet) (row : Document) : Option (List (String × Document)) :=
  if set.toList.all fun p => !p.scope.isEmpty || p.expr.fitsCalendar row then
    some (row.project set)
  else none

end Document

namespace CompiledFilter

/-- The rows that a compiled filter keeps, with their projections. -/
def apply (f : CompiledFilter) (rows : List Document) : List Document :=
  (rows.map (Document.annotate f.projections)).filter fun row =>
    f.predicate.all (·.holdsOf row)

/-- The rows that a compiled filter keeps, unless the calendar ends while they are annotated. -/
def keep? (f : CompiledFilter) (rows : List Document) : Option (List Document) :=
  (rows.mapM (Document.annotate? f.projections)).map fun annotated =>
    annotated.filter fun row => f.predicate.all (·.holdsOf row)

end CompiledFilter

end EntityFilter
