import EntityFilter.Filter

/-!
# The size of a filter

Filters nest: an entry can hold filters, and each of them is one level deeper than the filter that
the entry stands in.  `Filter.depth` is the deepest level, and `Filter.allEntries` lists the
entries of every level, each one before those of the filters that it holds, so that what can be
said of all entries is a statement about a list.
-/

namespace EntityFilter

mutual

/-- The deepest level of a filter; its own level is zero. -/
def Filter.depth : Filter → Nat
  | .node es => Filter.depthOfEntries es

/-- The deepest level of entries. -/
def Filter.depthOfEntries : List (String × FilterEntry) → Nat
  | [] => 0
  | (_, e) :: es => max e.depth (Filter.depthOfEntries es)

/-- The deepest level of an entry; the filters that it holds are at level one. -/
def FilterEntry.depth : FilterEntry → Nat
  | .all fs | .any fs => Filter.depthBelow fs
  | .negation f | .related _ f | .quantified _ _ f => 1 + f.depth
  | .existence items => Filter.depthOfTests items
  | .aggregate _ (some (f, _)) => 1 + f.depth
  | _ => 0

/-- The deepest level of an entry that holds these filters. -/
def Filter.depthBelow : List Filter → Nat
  | [] => 0
  | f :: fs => max (1 + f.depth) (Filter.depthBelow fs)

/-- The deepest level of an entry with these existence tests. -/
def Filter.depthOfTests : List (ExistenceTest × Option Filter) → Nat
  | [] => 0
  | (_, none) :: items => Filter.depthOfTests items
  | (_, some f) :: items => max (1 + f.depth) (Filter.depthOfTests items)

end

mutual

/-- The entries of a filter at every level. -/
def Filter.allEntries : Filter → List FilterEntry
  | .node es => FilterEntry.allOfEntries es

/-- Entries and those below them. -/
def FilterEntry.allOfEntries : List (String × FilterEntry) → List FilterEntry
  | [] => []
  | (_, e) :: es => e :: e.nested ++ FilterEntry.allOfEntries es

/-- The entries below an entry. -/
def FilterEntry.nested : FilterEntry → List FilterEntry
  | .all fs | .any fs => FilterEntry.allOfFilters fs
  | .negation f | .related _ f | .quantified _ _ f => f.allEntries
  | .existence items => FilterEntry.allOfTests items
  | .aggregate _ (some (f, _)) => f.allEntries
  | _ => []

/-- The entries of filters. -/
def FilterEntry.allOfFilters : List Filter → List FilterEntry
  | [] => []
  | f :: fs => f.allEntries ++ FilterEntry.allOfFilters fs

/-- The entries of the conditions of existence tests. -/
def FilterEntry.allOfTests : List (ExistenceTest × Option Filter) → List FilterEntry
  | [] => []
  | (_, none) :: items => FilterEntry.allOfTests items
  | (_, some f) :: items => f.allEntries ++ FilterEntry.allOfTests items

end

namespace Filter

/-- The number of entries at every level. -/
def clauses (f : Filter) : Nat := f.allEntries.length

/-- The regular expressions of every level, in the order in which they are met. -/
def patterns (f : Filter) : List String := f.allEntries.flatMap FilterEntry.patterns

end Filter

end EntityFilter
