import EntityFilter.Filter

/-!
# Keys of filters

A key says what its entry is.  Some keys are fixed words; others are the name of a relation or a
field with an ending, and a key that is nothing else names a field.  An ending needs a name in
front of it, and longer endings are looked for before those that they end in.
-/

namespace EntityFilter

/-- What a key stands for. -/
inductive FilterKey where
  | all
  | any
  | negation
  | id
  | quick
  | included
  | search
  | window
  | subquery
  | existence
  | compare
  | conditionalAggregate (relation : String)
  | aggregate (relation : String)
  | related (relation : String)
  | quantified (relation : String) (quantifier : Quantifier)
  | trunc (field : String)
  | extract (field : String)
  | count (relation : String)
  | field (name : String)
  deriving DecidableEq

namespace FilterKey

/-- The keys that are fixed words. -/
def reserved : List (String × FilterKey) :=
  [("AND", all), ("OR", any), ("NOT", negation), ("id", id), ("quick", quick),
   ("include", included), ("search", search), ("_window", window), ("_subquery", subquery),
   ("_exists", existence), ("_compare", compare)]

/-- The endings with what they make of the name in front, in the order in which they are tried. -/
def endings : List (String × (String → FilterKey)) :=
  [("_cond_agg", conditionalAggregate), ("_agg", aggregate), ("_rel", related),
   (Quantifier.some.ending, (quantified · .some)), (Quantifier.every.ending, (quantified · .every)),
   (Quantifier.none.ending, (quantified · .none)), ("_trunc", trunc), ("_extract", extract),
   ("_count", count)]

/-- What a key with an ending stands for. -/
def ofEnding? (key : String) : Option FilterKey :=
  endings.findSome? fun (ending, make) => (Text.withoutEnding? key ending).map make

/-- What a key stands for. -/
def ofName (key : String) : FilterKey :=
  match Entries.get? key reserved with
  | some k => k
  | none => (ofEnding? key).getD (field key)

end FilterKey

end EntityFilter
