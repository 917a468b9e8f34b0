import EntityFilter.OrderedMap
import EntityFilter.Projection

/-!
# Sets of projections

A set holds projections in the order in which they were added, one under each name.  A projection
whose name is taken is not added: either the set has the same projection already, or the two are
different and the first one stays.  A key finds its projection only in the first case.
-/

namespace EntityFilter

/-- Projections by name. -/
structure ProjectionSet where
  /-- The projections. -/
  byName : OrderedMap String Projection := .empty

namespace ProjectionSet

/-- The set without projections. -/
def empty : ProjectionSet := {}

/-- The projections, in order. -/
def toList (s : ProjectionSet) : List Projection := s.byName.values

/-- The names, in order. -/
def names (s : ProjectionSet) : List String := s.byName.keys

/-- The number of projections. -/
def size (s : ProjectionSet) : Nat := s.byName.size

/-- Whether there are no projections. -/
def isEmpty (s : ProjectionSet) : Bool := s.byName.isEmpty

/-- Add a projection unless its name is taken. -/
def insert (s : ProjectionSet) (p : Projection) : ProjectionSet :=
  if s.byName.contains p.name then s else ⟨s.byName.insert p.name p⟩

/-- Add a projection unless its name is taken, and answer with the handle of its key.  There is no
handle if the name is that of another key. -/
def register (s : ProjectionSet) (p : Projection) : Option ProjectionHandle × ProjectionSet :=
  match s.byName.get? p.name, s.byName.indexOf? p.name with
  | some q, some index => (if q.key = p.key then some ⟨index, p.name⟩ else none, s)
  | _, _ => (some ⟨s.size, p.name⟩, ⟨s.byName.insert p.name p⟩)

/-- The handle of the projection with a given key. -/
def lookup? (s : ProjectionSet) (key : ProjectionKey) : Option ProjectionHandle :=
  match s.byName.get? key.name, s.byName.indexOf? key.name with
  | some p, some index => if p.key = key then some ⟨index, key.name⟩ else none
  | _, _ => none

/-- The projection of a handle. -/
def get? (s : ProjectionSet) (handle : ProjectionHandle) : Option Projection :=
  s.toList[handle.index]?

/-- The projection of a name. -/
def ofName? (s : ProjectionSet) (name : String) : Option Projection := s.byName.get? name

end ProjectionSet

end EntityFilter
