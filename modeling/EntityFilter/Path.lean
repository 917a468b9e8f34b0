import EntityFilter.Text.Segment

/-!
# Paths of relations and fields

Relations are followed one after the other, and a field is read at the end.
-/

namespace EntityFilter

/-- The names of relations to follow. -/
structure RelationPath where
  /-- The names, first one first. -/
  segments : List String := []
  deriving DecidableEq, Repr, Inhabited

namespace RelationPath

/-- The path that stays where it is. -/
def root : RelationPath := {}

/-- The path of one relation. -/
def single (relation : String) : RelationPath := ⟨[relation]⟩

/-- The path with one more relation at its end. -/
def join (p : RelationPath) (relation : String) : RelationPath := ⟨p.segments ++ [relation]⟩

/-- One path behind another. -/
def append (p q : RelationPath) : RelationPath := ⟨p.segments ++ q.segments⟩

instance : Append RelationPath := ⟨append⟩

/-- The number of relations. -/
def length (p : RelationPath) : Nat := p.segments.length

/-- Whether there are no relations. -/
def isEmpty (p : RelationPath) : Bool := p.segments.isEmpty

/-- The first relations of a path. -/
def take (p : RelationPath) (n : Nat) : RelationPath := ⟨p.segments.take n⟩

/-- The text of a path in a condition. -/
def render (p : RelationPath) : String := Text.join "." p.segments

/-- The text of a path in a name. -/
def lookupName (p : RelationPath) : String := Text.join "__" p.segments

end RelationPath

/-- The names of relations to follow, and of the field to read. -/
structure FieldPath where
  /-- The names, the field last. -/
  segments : List String := []
  deriving DecidableEq, Repr, Inhabited

namespace FieldPath

/-- A field without relations in front. -/
def single (field : String) : FieldPath := ⟨[field]⟩

/-- A field at the end of a path. -/
def under (p : RelationPath) (field : String) : FieldPath := ⟨p.segments ++ [field]⟩

/-- The name of the field. -/
def field (p : FieldPath) : String := p.segments.getLast?.getD ""

/-- The names of the relations in front. -/
def relations (p : FieldPath) : List String := p.segments.dropLast

/-- The text of a path in a condition. -/
def render (p : FieldPath) : String := Text.join "." p.segments

end FieldPath

end EntityFilter
