import EntityFilter.Text.Segment

/-!
# Ordering keys

An ordering key names a field and a direction.  It is written as the name of the field, with a
minus sign in front for the descending direction; a plus sign in front is allowed and means
nothing.
-/

namespace EntityFilter

/-- A field to order by, and the direction. -/
structure OrderKey where
  /-- The name of the field. -/
  field : String
  /-- Whether greater values come first. -/
  descending : Bool := false
  deriving DecidableEq, Repr

namespace OrderKey

/-- The key that characters write; the name of the field must not be empty. -/
def ofChars? : List Char → Option OrderKey
  | '-' :: rest => if rest.isEmpty then none else some ⟨String.ofList rest, true⟩
  | '+' :: rest => if rest.isEmpty then none else some ⟨String.ofList rest, false⟩
  | cs => if cs.isEmpty then none else some ⟨String.ofList cs, false⟩

/-- The key that a text writes. -/
def read? (s : String) : Option OrderKey := ofChars? s.toList

/-- What is said about a text that writes no key. -/
def refusal (s : String) : String := s!"invalid ordering key `{s}`"

/-- The text that writes a key. -/
def write (k : OrderKey) : String := if k.descending then "-" ++ k.field else k.field

/-- The direction in a query. -/
def direction (k : OrderKey) : String := if k.descending then "DESC" else "ASC"

/-- The key in a query. -/
def render (k : OrderKey) : String := k.field ++ " " ++ k.direction

/-- The part of a projection name that stands for a key. -/
def fragment (k : OrderKey) : String := if k.descending then k.field ++ "_desc" else k.field

/-- The part of a projection name that stands for several keys. -/
def fragments (ks : List OrderKey) : String := Text.join "_" (ks.map fragment)

end OrderKey

end EntityFilter
