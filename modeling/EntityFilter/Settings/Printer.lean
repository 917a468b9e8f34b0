import EntityFilter.Document
import EntityFilter.Settings

/-!
# Settings as documents

The document of settings has the parts by which settings are configured, every one written out.
-/

namespace EntityFilter

/-- The document of limits. -/
def Limits.toDocument (l : Limits) : Document :=
  .object [("max_regex_length", .int l.maxPatternLength), ("max_filter_depth", .int l.maxDepth),
    ("max_clauses", .int l.maxClauses)]

/-- The document of the settings of relations and generated types. -/
def SchemaSettings.toDocument (s : SchemaSettings) : Document :=
  .object [("max_relation_depth", .int s.maxRelationDepth),
    ("cache_max_size", .int s.cacheMaxSize)]

/-- The document of features. -/
def Features.toDocument (f : Features) : Document :=
  .object [("window", .bool f.window), ("subquery", .bool f.subquery),
    ("exists", .bool f.existence), ("array", .bool f.array), ("date_trunc", .bool f.dateTrunc),
    ("date_extract", .bool f.dateExtract), ("full_text", .bool f.fullText),
    ("conditional_aggregation", .bool f.conditionalAggregation)]

/-- The document of all settings. -/
def Settings.toDocument (s : Settings) : Document :=
  .object [("limits", s.limits.toDocument), ("schema", s.schema.toDocument),
    ("features", s.features.toDocument),
    ("search", .object [("config", .text s.searchConfig)])]

end EntityFilter
