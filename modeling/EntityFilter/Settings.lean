import EntityFilter.FilterError

/-!
# Settings

Settings say what filters may ask for, how far they may follow relations and which of the advanced
features are on.  Everything has a default; all advanced features are off unless they are turned
on.
-/

namespace EntityFilter

/-- How far relations are followed and how many generated types are kept. -/
structure SchemaSettings where
  /-- The greatest number of relations that can be followed one after the other. -/
  maxRelationDepth : Nat := 3
  /-- The number of generated results that are kept. -/
  cacheMaxSize : Nat := 1000
  deriving DecidableEq, Repr, Inhabited

/-- The advanced features. -/
structure Features where
  /-- Constraints on ranks. -/
  window : Bool := false
  /-- Constraints on looked-up values. -/
  subquery : Bool := false
  /-- Existence tests. -/
  existence : Bool := false
  /-- Operators of arrays. -/
  array : Bool := false
  /-- Constraints on truncated dates. -/
  dateTrunc : Bool := false
  /-- Constraints on parts of dates. -/
  dateExtract : Bool := false
  /-- Full-text search. -/
  fullText : Bool := false
  /-- Aggregates over the rows that satisfy a condition. -/
  conditionalAggregation : Bool := false
  deriving DecidableEq, Repr, Inhabited

/-- Every feature on. -/
def Features.all : Features := ⟨true, true, true, true, true, true, true, true⟩

/-- All settings. -/
structure Settings where
  /-- What a filter may ask for. -/
  limits : Limits := {}
  /-- Relations and generated types. -/
  schema : SchemaSettings := {}
  /-- The advanced features. -/
  features : Features := {}
  /-- The language of full-text searches. -/
  searchConfig : String := "english"
  deriving DecidableEq, Repr, Inhabited

namespace Settings

/-- What makes settings unusable: limits that no filter could keep. -/
def fault? (s : Settings) : Option String :=
  if s.limits.maxPatternLength = 0 then some "limits.max_regex_length must be greater than zero"
  else if s.limits.maxClauses = 0 then some "limits.max_clauses must be greater than zero"
  else if s.schema.cacheMaxSize = 0 then some "schema.cache_max_size must be greater than zero"
  else none

/-- Accept settings or say why they are unusable. -/
def validate (s : Settings) : Except FilterError Unit :=
  match s.fault? with
  | some text => .error (.ofCause (.configuration text))
  | none => .ok ()

end Settings

end EntityFilter
