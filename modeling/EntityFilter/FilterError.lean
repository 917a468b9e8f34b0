import EntityFilter.Document.Reader
import EntityFilter.Filter.Reader
import EntityFilter.Limits

/-!
# Errors of filters

Only a few things can go wrong as a whole: a document that is no filter, a filter that exceeds a
limit, an entity that is not there, settings that cannot be used.  Everything else that a filter
cannot make use of is passed over key by key.

Every cause has a number; the thousands say what kind of cause it is.
-/

namespace EntityFilter

/-- What went wrong. -/
inductive FilterError.Cause where
  /-- The document is no filter. -/
  | notAFilter (message : String)
  /-- The catalog lacks the entity. -/
  | unknownEntity (name : String)
  /-- The filter exceeds a limit. -/
  | limit (error : LimitError)
  /-- The settings cannot be used. -/
  | configuration (message : String)
  /-- The settings cannot be loaded. -/
  | unloadable (message : String)
  /-- Something that should not happen. -/
  | internal (message : String)
  deriving DecidableEq

namespace FilterError.Cause

/-- The number of a cause. -/
def number : Cause → Nat
  | notAFilter _ => 1001
  | unknownEntity _ => 1002
  | limit (.patternTooLong ..) => 2001
  | limit (.unsafePattern ..) => 2002
  | limit (.tooDeep ..) => 2003
  | limit (.tooManyClauses ..) => 2004
  | configuration _ => 7001
  | unloadable _ => 7002
  | internal _ => 9001

/-- The number of a cause behind its letter. -/
def code (c : Cause) : String := "F" ++ toString c.number

/-- What the number of a cause says. -/
def description : Cause → String
  | notAFilter _ => "Invalid filter"
  | unknownEntity _ => "Unknown entity"
  | limit (.patternTooLong ..) => "Regex pattern too long"
  | limit (.unsafePattern ..) => "Unsafe regex pattern"
  | limit (.tooDeep ..) => "Filter too deeply nested"
  | limit (.tooManyClauses ..) => "Too many filter clauses"
  | configuration _ => "Invalid configuration"
  | unloadable _ => "Configuration could not be loaded"
  | internal _ => "Internal error"

/-- The wording of a cause, given that of expressions that do not compile. -/
def message (wording : String → String) : Cause → String
  | notAFilter text => text
  | unknownEntity name => s!"Entity `{name}` is not in the catalog"
  | limit e => e.message wording
  | configuration text => text
  | unloadable text => text
  | internal text => text

/-- Whether a cause is a limit that the filter exceeds. -/
def isSecurity (c : Cause) : Bool := 2000 ≤ c.number && c.number < 3000

/-- The advice that goes with a cause. -/
def advice : Cause → List String
  | notAFilter _ => ["Pass a JSON object mapping filter keys to conditions"]
  | limit (.patternTooLong ..) => ["Shorten the regex pattern"]
  | limit (.unsafePattern ..) =>
    ["Avoid nested quantifiers such as `(a+)+` and quantified alternations"]
  | limit (.tooDeep ..) => ["Flatten nested AND/OR/NOT groups or relation filters"]
  | limit (.tooManyClauses ..) => ["Split the filter into fewer conditions"]
  | _ => []

end FilterError.Cause

/-- An error with what is known about its place. -/
structure FilterError where
  /-- What went wrong. -/
  cause : FilterError.Cause
  /-- The entity that was filtered. -/
  entity : Option String := none
  /-- The key of the filter. -/
  key : Option String := none
  /-- What can be done about it. -/
  suggestions : List String := []
  deriving DecidableEq

namespace FilterError

/-- The error of a cause, with the advice that goes with it. -/
def ofCause (c : Cause) : FilterError where
  cause := c
  entity := match c with
    | .unknownEntity name => some name
    | _ => none
  suggestions := c.advice

/-- Name the entity. -/
def withEntity (e : FilterError) (name : String) : FilterError := { e with entity := some name }

/-- Name the key. -/
def withKey (e : FilterError) (key : String) : FilterError := { e with key := some key }

/-- Add advice. -/
def withSuggestion (e : FilterError) (text : String) : FilterError :=
  { e with suggestions := e.suggestions ++ [text] }

/-- The limit that was exceeded. -/
def limitError? (e : FilterError) : Option LimitError :=
  match e.cause with
  | .limit l => some l
  | _ => none

/-- An error in one line. -/
def render (e : FilterError) (wording : String → String) : String :=
  "[" ++ e.cause.code ++ "] " ++ e.cause.message wording

/-- Numbered lines. -/
def numbered (n : Nat) : List String → String
  | [] => ""
  | text :: texts => s!"  {n}. {text}\n" ++ numbered (n + 1) texts

/-- An error with its place and all advice. -/
def report (e : FilterError) (wording : String → String) : String :=
  "Error [" ++ e.cause.code ++ "]: " ++ e.cause.message wording ++ "\n" ++
  (match e.entity with
    | some name => s!"  → Entity: {name}\n"
    | none => "") ++
  (match e.key with
    | some key => s!"  → Key: {key}\n"
    | none => "") ++
  (if e.suggestions.isEmpty then "" else "\nSuggestions:\n" ++ numbered 1 e.suggestions)

end FilterError

/-- The filter that a document writes; only an object writes one. -/
def Filter.ofDocument (d : Document) : Except FilterError Filter :=
  match Filter.ofDocument? d with
  | some f => .ok f
  | none => .error (.ofCause (.notAFilter "filter must be a JSON object"))

/-- The filter that a text writes. -/
def Filter.ofText (s : String) : Except FilterError Filter :=
  match Document.read? s with
  | some d => Filter.ofDocument d
  | none => .error (.ofCause (.notAFilter "filter is not valid JSON"))

end EntityFilter
