import EntityFilter.OrderKey

/-!
# Ranking windows

A window filter ranks the rows inside their partitions and constrains the rank.
-/

namespace EntityFilter

/-- How rows are ranked. -/
inductive WindowFunction where
  /-- Equal rows share a rank, and ranks are skipped after them. -/
  | rank
  /-- Equal rows share a rank, and none is skipped. -/
  | denseRank
  /-- Rows are numbered. -/
  | rowNumber
  /-- The relative rank, between 0 and 1. -/
  | percentRank
  deriving DecidableEq, Repr

namespace WindowFunction

/-- Every function. -/
def all : List WindowFunction := [rank, denseRank, rowNumber, percentRank]

/-- The name of a function. -/
def name : WindowFunction → String
  | rank => "rank"
  | denseRank => "dense_rank"
  | rowNumber => "row_number"
  | percentRank => "percent_rank"

/-- The function in a query. -/
def sql : WindowFunction → String
  | rank => "RANK"
  | denseRank => "DENSE_RANK"
  | rowNumber => "ROW_NUMBER"
  | percentRank => "PERCENT_RANK"

/-- The function of a name. -/
def ofName? (s : String) : Option WindowFunction := all.find? (·.name = s)

/-- Whether the rank is a fraction. -/
def isFractional (f : WindowFunction) : Bool := f = percentRank

end WindowFunction

/-- The partition and the order in which rows are ranked. -/
structure WindowSpec where
  /-- The fields whose values split the rows. -/
  partitionBy : List String := []
  /-- The keys that order a partition. -/
  orderBy : List OrderKey := []
  deriving DecidableEq, Repr

namespace WindowSpec

/-- The specification in a query. -/
def render (w : WindowSpec) : String :=
  let partition :=
    if w.partitionBy.isEmpty then [] else ["PARTITION BY " ++ Text.join ", " w.partitionBy]
  let order :=
    if w.orderBy.isEmpty then [] else ["ORDER BY " ++ Text.join ", " (w.orderBy.map OrderKey.render)]
  "OVER (" ++ Text.join " " (partition ++ order) ++ ")"

/-- The part of a projection name that stands for a specification. -/
def suffix (w : WindowSpec) : String :=
  (if w.partitionBy.isEmpty then "" else "_by_" ++ Text.join "_" w.partitionBy) ++
  (if w.orderBy.isEmpty then "" else "_order_" ++ OrderKey.fragments w.orderBy)

end WindowSpec

end EntityFilter
