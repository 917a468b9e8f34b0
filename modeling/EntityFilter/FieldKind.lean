/-!
# Kinds of fields

The kind of a field says what its values look like and decides which operators a filter may apply
to it.  Kinds that share their operators form a family.
-/

namespace EntityFilter

/-- Kinds of fields that take the same operators. -/
inductive OperatorFamily where
  | text
  | numeric
  | boolean
  | temporal
  | identifier
  | json
  | array
  deriving DecidableEq, Repr, Inhabited

namespace OperatorFamily

/-- The name of a family. -/
def name : OperatorFamily → String
  | text => "text"
  | numeric => "numeric"
  | boolean => "boolean"
  | temporal => "temporal"
  | identifier => "identifier"
  | json => "json"
  | array => "array"

/-- Whether fields of two families can be compared with each other. -/
def isComparableWith (a b : OperatorFamily) : Bool := a = b && a ≠ json && a ≠ array

end OperatorFamily

/-- What the values of a field are. -/
inductive FieldKind where
  | text
  | int
  | bigInt
  | float
  | decimal
  | boolean
  | date
  | dateTime
  | id
  | uuid
  | json
  | array (element : FieldKind)
  deriving DecidableEq, Repr, Inhabited

namespace FieldKind

/-- The name of a kind; all arrays share one. -/
def name : FieldKind → String
  | text => "text"
  | int => "int"
  | bigInt => "big_int"
  | float => "float"
  | decimal => "decimal"
  | boolean => "boolean"
  | date => "date"
  | dateTime => "date_time"
  | id => "id"
  | uuid => "uuid"
  | json => "json"
  | array _ => "array"

/-- The text of a kind: an array is written with brackets behind its elements. -/
def render : FieldKind → String
  | array element => render element ++ "[]"
  | kind => kind.name

/-- The kind that is not an array and has the given name or one of its other spellings. -/
def scalarOfName? : String → Option FieldKind
  | "text" | "string" => some text
  | "int" | "integer" => some int
  | "big_int" | "bigint" => some bigInt
  | "float" => some float
  | "decimal" => some decimal
  | "boolean" | "bool" => some boolean
  | "date" => some date
  | "date_time" | "datetime" | "timestamp" => some dateTime
  | "id" => some id
  | "uuid" => some uuid
  | "json" => some json
  | _ => none

/-- Read a name whose characters come in reverse order. -/
def ofReversed? : List Char → Option FieldKind
  | ']' :: '[' :: rest => (ofReversed? rest).map array
  | rest => scalarOfName? (String.ofList rest.reverse)

/-- The kind of a given name; brackets behind a kind make an array of it. -/
def ofName? (s : String) : Option FieldKind := ofReversed? s.toList.reverse

/-- Whether values are free text. -/
def isText : FieldKind → Bool
  | text => true
  | _ => false

/-- Whether values are numbers. -/
def isNumeric : FieldKind → Bool
  | int | bigInt | float | decimal => true
  | _ => false

/-- Whether values are whole numbers. -/
def isIntegral : FieldKind → Bool
  | int | bigInt => true
  | _ => false

/-- Whether values are dates or points in time. -/
def isTemporal : FieldKind → Bool
  | date | dateTime => true
  | _ => false

/-- Whether values have a time of day. -/
def hasTime : FieldKind → Bool
  | dateTime => true
  | _ => false

/-- Whether values identify an entity. -/
def isIdentifier : FieldKind → Bool
  | id | uuid => true
  | _ => false

/-- Whether values are arrays. -/
def isArray : FieldKind → Bool
  | array _ => true
  | _ => false

/-- The kind of the elements of an array. -/
def element? : FieldKind → Option FieldKind
  | array element => some element
  | _ => none

/-- The family whose operators a kind takes. -/
def family : FieldKind → OperatorFamily
  | text => .text
  | int | bigInt | float | decimal => .numeric
  | boolean => .boolean
  | date | dateTime => .temporal
  | id | uuid => .identifier
  | json => .json
  | array _ => .array

end FieldKind

end EntityFilter
