import EntityFilter.Text.Segment

/-!
# Log settings

Variables of the environment ask for log output: one turns debugging on, one names a level and one
a format.  A level that is not known counts as none, and a format that is not known as the default
one.  Case does not matter.
-/

namespace EntityFilter

/-- How log output is written. -/
inductive LogFormat where
  | json
  | pretty
  | compact
  deriving DecidableEq, Repr, Inhabited

namespace LogFormat

/-- The format of a name; any name but two is the default. -/
def ofName (s : String) : LogFormat :=
  match s.toLower with
  | "pretty" => pretty
  | "compact" => compact
  | _ => json

/-- The name of a format. -/
def name : LogFormat → String
  | json => "json"
  | pretty => "pretty"
  | compact => "compact"

end LogFormat

/-- How much is logged. -/
inductive LogLevel where
  | trace
  | debug
  | info
  | warn
  | error
  deriving DecidableEq, Repr, Inhabited

namespace LogLevel

/-- Every level. -/
def all : List LogLevel := [trace, debug, info, warn, error]

/-- The name of a level. -/
def name : LogLevel → String
  | trace => "trace"
  | debug => "debug"
  | info => "info"
  | warn => "warn"
  | error => "error"

/-- The level of a name. -/
def ofName? (s : String) : Option LogLevel := all.find? (·.name = s.toLower)

end LogLevel

/-- What the environment asks for. -/
structure LogSettings where
  /-- Whether anything is asked for. -/
  enabled : Bool
  /-- The level. -/
  level : LogLevel
  /-- The format. -/
  format : LogFormat
  deriving DecidableEq, Repr

namespace LogSettings

/-- Settings with a level of a given name; an unknown name means warnings. -/
def ofLevel (level : String) (format : LogFormat) : LogSettings :=
  ⟨true, (LogLevel.ofName? level).getD .warn, format⟩

/-- Whether a text says yes. -/
def isTruthy (s : String) : Bool := ["true", "1", "yes"].contains s.toLower

/-- The variable that turns debugging on. -/
def debugVariable : String := "GRAPHFILTER_DEBUG"

/-- The variable that names a level. -/
def levelVariable : String := "GRAPHFILTER_LOG_LEVEL"

/-- The variable that names a format. -/
def formatVariable : String := "GRAPHFILTER_LOG_FORMAT"

/-- Whether an environment turns debugging on. -/
def isDebug (lookup : String → Option String) : Bool := (lookup debugVariable).any isTruthy

/-- What an environment asks for. -/
def ofLookup (lookup : String → Option String) : LogSettings :=
  let debug := isDebug lookup
  let requested := lookup levelVariable
  { enabled := debug || requested.isSome
    level := (requested.bind LogLevel.ofName?).getD (if debug then .debug else .warn)
    format := ((lookup formatVariable).map LogFormat.ofName).getD .json }

/-- The components whose output is logged. -/
def targets : List String := ["graphfilter", "graphfilter_query", "graphfilter_schema"]

/-- The level for each component. -/
def directive (s : LogSettings) : String :=
  Text.join "," (targets.map fun target => target ++ "=" ++ s.level.name)

end LogSettings

end EntityFilter
