import EntityFilter.OrderedMap

/-!
# Configuration documents

A configuration document is a tree of tables.  A table can be written under a header, be implied by
the header of a table inside it, arise from a dotted key, or stand on one line between braces; a
table remembers which, since that decides what may still be added to it:

* a header opens a table only once, after tables inside it at most;
* a dotted key adds only to tables that dotted keys have made;
* nothing is added to a table between braces.

`withPair?` and `withSection?` put these rules into effect.  Both keep the order of the document; a
table whose header comes after those of tables inside it takes its place where the header stands.
-/

namespace EntityFilter

/-- How a table is written. -/
inductive TableForm where
  /-- Under a header of its own. -/
  | header
  /-- By the header of a table inside it. -/
  | implied
  /-- By a dotted key. -/
  | dotted
  /-- Between braces. -/
  | inline
  deriving DecidableEq

/-- A value of a configuration document. -/
inductive Toml where
  | text (value : String)
  | integer (value : Int)
  | float (value : Float)
  | boolean (value : Bool)
  /-- A date, a time or both, as written. -/
  | moment (value : String)
  | array (items : List Toml)
  /-- Tables under headers that repeat. -/
  | tables (items : List (List (String × Toml)))
  | table (form : TableForm) (members : List (String × Toml))
  deriving Inhabited

namespace Toml

/-- The members of a table. -/
abbrev Members := List (String × Toml)

/-- Replace the last element. -/
def mapLast? (f : α → Option α) : List α → Option (List α)
  | [] => none
  | [x] => (f x).map ([·])
  | x :: xs => (mapLast? f xs).map (x :: ·)

/-- Add a value under a dotted key, given the form of the table that it is added to. -/
def withPair? (key : String) (value : Toml) : List String → TableForm → Members → Option Members
  | [], _, ms => if Entries.contains key ms then none else some (ms ++ [(key, value)])
  | name :: path, _, ms =>
    let below (form : TableForm) (inner : Members) : Option Members :=
      if path.isEmpty && form != .dotted then none else withPair? key value path form inner
    match Entries.get? name ms with
    | none => (below .dotted []).map fun inner => ms ++ [(name, table .dotted inner)]
    | some (table .dotted inner) =>
      (below .dotted inner).map fun inner => Entries.insert name (table .dotted inner) ms
    | some (table .implied inner) =>
      (below .implied inner).map fun inner => Entries.insert name (table .implied inner) ms
    | some (tables items) =>
      (mapLast? (below .header) items).map fun items => Entries.insert name (tables items) ms
    | some _ => none

/-- Add values under dotted keys, one after the other.  A key is never empty. -/
def withPairs? (pairs : List (List String × Toml)) (ms : Members) : Option Members :=
  pairs.foldlM (fun ms (path, value) =>
    match path.getLast? with
    | some key => withPair? key value path.dropLast .header ms
    | none => none) ms

/-- Apply a function to the members of the table at the end of a path; tables on the way that are
missing are implied. -/
def within? (f : Members → Option Members) : List String → Members → Option Members
  | [], ms => f ms
  | name :: path, ms =>
    match Entries.get? name ms with
    | none => (within? f path []).map fun inner => ms ++ [(name, table .implied inner)]
    | some (table .inline _) => none
    | some (table form inner) =>
      (within? f path inner).map fun inner => Entries.insert name (table form inner) ms
    | some (tables items) =>
      (mapLast? (within? f path) items).map fun items => Entries.insert name (tables items) ms
    | some _ => none

/-- A header with the values under it. -/
structure Section where
  /-- Whether the header may repeat, so that it adds to a list of tables. -/
  repeats : Bool
  /-- The key of the table. -/
  path : List String
  /-- The values. -/
  pairs : List (List String × Toml)

/-- Add a section to a document. -/
def withSection? (root : Members) (s : Section) : Option Members :=
  match s.path.getLast? with
  | none => none
  | some key =>
    within? (fun ms =>
      match s.repeats, Entries.get? key ms with
      | false, none => (withPairs? s.pairs []).map fun inner => ms ++ [(key, table .header inner)]
      | false, some (table .implied inner) =>
        (withPairs? s.pairs inner).map fun inner =>
          ms.filter (·.1 ≠ key) ++ [(key, table .header inner)]
      | true, none => (withPairs? s.pairs []).map fun inner => ms ++ [(key, tables [inner])]
      | true, some (tables items) =>
        (withPairs? s.pairs []).map fun inner => Entries.insert key (tables (items ++ [inner])) ms
      | _, _ => none) s.path.dropLast root

end Toml

end EntityFilter
