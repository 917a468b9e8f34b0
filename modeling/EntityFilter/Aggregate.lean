import EntityFilter.Document.Printer

/-!
# Aggregates

An aggregate reduces a column of values to one.  Nulls do not count.  Sums and averages are taken
over the doubles nearest to the numbers, from left to right; a sum of integers is an integer again.
The least and the greatest value are found by comparing each value with the best one so far, and
a value that cannot be compared with it is passed over.
-/

namespace EntityFilter

/-- How a column is reduced. -/
inductive AggregateFunction where
  | sum
  | avg
  | min
  | max
  | count
  | countDistinct
  deriving DecidableEq, Repr

namespace AggregateFunction

/-- Every function, in the order in which filters list them. -/
def all : List AggregateFunction := [sum, avg, min, max, count, countDistinct]

/-- The name of a function. -/
def name : AggregateFunction → String
  | sum => "sum"
  | avg => "avg"
  | min => "min"
  | max => "max"
  | count => "count"
  | countDistinct => "count_distinct"

/-- The function in a query. -/
def sql : AggregateFunction → String
  | sum => "SUM"
  | avg => "AVG"
  | min => "MIN"
  | max => "MAX"
  | count => "COUNT"
  | countDistinct => "COUNT"

/-- The function of a name. -/
def ofName? (s : String) : Option AggregateFunction := all.find? (·.name = s)

/-- Whether the function only makes sense for numbers. -/
def requiresNumeric (f : AggregateFunction) : Bool := f = sum || f = avg

/-- Whether the function can be taken over rows instead of a field. -/
def allowsNoField (f : AggregateFunction) : Bool := f = count

/-- Whether the result is a number of values. -/
def isCount (f : AggregateFunction) : Bool := f = count || f = countDistinct

/-- The sum of doubles from left to right.  It starts at minus zero, which changes no number it is
added to. -/
def sumFloats (xs : List Float) : Float := xs.foldl (· + ·) (-0.0)

/-- The best value under a comparison: a value takes the place of the best one so far when it
compares with it as `pick`. -/
def extreme (pick : Ordering) : List Document → Document
  | [] => .null
  | d :: ds => ds.foldl (fun best v => if v.compare? best = some pick then v else best) d

/-- The aggregate of a column. -/
def compute (f : AggregateFunction) (values : List Document) : Document :=
  let present := values.filter (!·.isNull)
  match f with
  | count => .int present.length
  | countDistinct => .int (present.map Document.print).eraseDups.length
  | sum =>
    match present.filterMap Document.asFloat? with
    | [] => .null
    | xs =>
      let total := sumFloats xs
      if present.all Document.isInt64 then .int (Binary64.toInt64Clamped total)
      else .ofFloat total
  | avg =>
    match present.filterMap Document.asFloat? with
    | [] => .null
    | xs => .ofFloat (sumFloats xs / Binary64.ofInt xs.length)
  | min => extreme .lt present
  | max => extreme .gt present

end AggregateFunction

end EntityFilter
