import EntityFilter.Calendar.Reader
import EntityFilter.Document

/-!
# Literals

A literal is a value that a filter compares with.  It comes from a document: arrays become lists,
objects stay documents, and an integer that does not fit into 64 signed bits is a double.  Dates
and instants arise when a text is compared with a field that holds them: `coerceDate` and
`coerceInstant` turn what they understand into one and leave everything else as it is, inside
lists too.
-/

namespace EntityFilter

/-- A value to compare with. -/
inductive Literal where
  | null
  | bool (value : Bool)
  | int (value : Int)
  | float (value : Float)
  | text (value : String)
  | date (value : Date)
  | instant (value : Instant)
  | list (items : List Literal)
  | document (value : Document)
  deriving Inhabited

namespace Literal

mutual

/-- The literal that a document writes. -/
def ofDocument : Document → Literal
  | .null => null
  | .bool b => bool b
  | .int i =>
    if Binary64.minInt64 ≤ i ∧ i ≤ Binary64.maxInt64 then int i else float (Binary64.ofInt i)
  | .float x => float x
  | .text s => text s
  | .array items => list (ofDocuments items)
  | .object members => document (.object members)

/-- The literals that documents write. -/
def ofDocuments : List Document → List Literal
  | [] => []
  | d :: ds => ofDocument d :: ofDocuments ds

end

mutual

/-- A literal as a document; dates and instants become texts. -/
def toDocument : Literal → Document
  | null => .null
  | bool b => .bool b
  | int i => .int i
  | float x => .ofFloat x
  | text s => .text s
  | date d => .text d.render
  | instant t => .text t.render
  | list items => .array (toDocuments items)
  | document d => d

/-- Literals as documents. -/
def toDocuments : List Literal → List Document
  | [] => []
  | v :: vs => toDocument v :: toDocuments vs

end

/-- Whether a literal is null. -/
def isNull : Literal → Bool
  | null => true
  | _ => false

/-- Whether a literal is a number. -/
def isNumeric : Literal → Bool
  | int _ | float _ => true
  | _ => false

/-- The truth value of a literal. -/
def asBool? : Literal → Option Bool
  | bool b => some b
  | _ => none

/-- The integer of a literal; a double without a fraction counts as one, clamped to 64 bits. -/
def asInt? : Literal → Option Int
  | int i => some i
  | float x => if Binary64.isWhole x then some (Binary64.toInt64Clamped x) else none
  | _ => none

/-- The number of a literal as a double. -/
def asFloat? : Literal → Option Float
  | int i => some (Binary64.ofInt i)
  | float x => some x
  | _ => none

/-- The place of a number among the doubles.  As for documents, a double that is no number (NaN) is
given a place, and literals that have been read hold none. -/
def numberKey? : Literal → Option Int
  | int i => some (Binary64.keyOfInt i)
  | float x => some (Binary64.orderKey x)
  | _ => none

/-- The characters of a text. -/
def asText? : Literal → Option String
  | text s => some s
  | _ => none

/-- The items of a list. -/
def asList? : Literal → Option (List Literal)
  | list items => some items
  | _ => none

/-- The items of a list; anything else is a list of one. -/
def toList : Literal → List Literal
  | list items => items
  | v => [v]

/-- The date that a text writes, by itself or as part of an instant. -/
def dateOfText? (s : String) : Option Date :=
  match Date.read? s with
  | some d => some d
  | none => (Instant.read? s).map Instant.date

/-- The instant that a text writes; a date stands for its beginning. -/
def instantOfText? (s : String) : Option Instant :=
  match Instant.read? s with
  | some t => some t
  | none => (Date.read? s).map Instant.midnight

mutual

/-- Turn what writes a date into a date. -/
def coerceDate : Literal → Literal
  | text s =>
    match dateOfText? s with
    | some d => date d
    | none => text s
  | instant t => date t.date
  | list items => list (coerceDates items)
  | v => v

/-- Turn what writes dates into dates. -/
def coerceDates : List Literal → List Literal
  | [] => []
  | v :: vs => coerceDate v :: coerceDates vs

end

mutual

/-- Turn what writes an instant into an instant. -/
def coerceInstant : Literal → Literal
  | text s =>
    match instantOfText? s with
    | some t => instant t
    | none => text s
  | date d => instant (.midnight d)
  | list items => list (coerceInstants items)
  | v => v

/-- Turn what writes instants into instants. -/
def coerceInstants : List Literal → List Literal
  | [] => []
  | v :: vs => coerceInstant v :: coerceInstants vs

end

end Literal

end EntityFilter
