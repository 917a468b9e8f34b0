import EntityFilter.Environment
import EntityFilter.Settings
import EntityFilter.Toml.Reader
import EntityFilter.Toml.Record

/-!
# Reading settings

Settings are written as a configuration document with four tables, all of them optional like
everything inside.  A part that is not known is an error, and so are settings that no filter could
keep.
-/

namespace EntityFilter

/-- Limits from their table. -/
def Limits.ofToml? (t : Toml) : Option Limits := do
  let parts ← t.closedParts? ["max_regex_length", "max_filter_depth", "max_clauses"]
  let base : Limits := {}
  return {
    maxPatternLength := ← Toml.optional? Toml.asNat? base.maxPatternLength "max_regex_length" parts
    maxDepth := ← Toml.optional? Toml.asNat? base.maxDepth "max_filter_depth" parts
    maxClauses := ← Toml.optional? Toml.asNat? base.maxClauses "max_clauses" parts }

/-- Settings of relations and generated types from their table. -/
def SchemaSettings.ofToml? (t : Toml) : Option SchemaSettings := do
  let parts ← t.closedParts? ["max_relation_depth", "cache_max_size"]
  let base : SchemaSettings := {}
  return {
    maxRelationDepth :=
      ← Toml.optional? Toml.asNat? base.maxRelationDepth "max_relation_depth" parts
    cacheMaxSize := ← Toml.optional? Toml.asNat? base.cacheMaxSize "cache_max_size" parts }

/-- Features from their table. -/
def Features.ofToml? (t : Toml) : Option Features := do
  let parts ← t.closedParts? ["window", "subquery", "exists", "array", "date_trunc",
    "date_extract", "full_text", "conditional_aggregation"]
  let flag? (name : String) := Toml.optional? Toml.asFlag? false name parts
  return {
    window := ← flag? "window"
    subquery := ← flag? "subquery"
    existence := ← flag? "exists"
    array := ← flag? "array"
    dateTrunc := ← flag? "date_trunc"
    dateExtract := ← flag? "date_extract"
    fullText := ← flag? "full_text"
    conditionalAggregation := ← flag? "conditional_aggregation" }

namespace Settings

/-- The language of full-text searches from its table. -/
def searchConfigOfToml? (t : Toml) : Option String := do
  let parts ← t.closedParts? ["config"]
  Toml.optional? Toml.asText? ({} : Settings).searchConfig "config" parts

/-- The settings that a document writes. -/
def ofMembers? (root : Toml.Members) : Option Settings := do
  let parts ← (Toml.table .header root).closedParts? ["limits", "schema", "features", "search"]
  let base : Settings := {}
  return {
    limits := ← Toml.optional? Limits.ofToml? base.limits "limits" parts
    schema := ← Toml.optional? SchemaSettings.ofToml? base.schema "schema" parts
    features := ← Toml.optional? Features.ofToml? base.features "features" parts
    searchConfig := ← Toml.optional? searchConfigOfToml? base.searchConfig "search" parts }

/-- The settings that a text writes in an environment. -/
def ofText (env : Environment) (s : String) : Except FilterError Settings :=
  match (Toml.read? (env.expand s)).bind ofMembers? with
  | some settings => settings.validate.map fun _ => settings
  | none => .error (.ofCause (.unloadable "failed to parse TOML"))

/-- The settings in a file, whose text is missing when it cannot be read. -/
def ofFile (env : Environment) (path : String) (contents : Option String) :
    Except FilterError Settings :=
  match contents with
  | some s => ofText env s
  | none => .error (.ofCause (.unloadable ("failed to read " ++ path)))

end Settings

end EntityFilter
