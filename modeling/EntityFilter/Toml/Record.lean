import EntityFilter.Toml

/-!
# Records in configuration documents

A record is written as a table of its parts.  It can also be written as a list: the items are then
the first of its parts, in the order in which the record declares them, and items beyond its last
part count for nothing.  A moment counts as a table that has none of the parts.
-/

namespace EntityFilter.Toml

/-- The characters of a text. -/
def asText? : Toml → Option String
  | text s => some s
  | _ => none

/-- A truth value. -/
def asFlag? : Toml → Option Bool
  | boolean b => some b
  | _ => none

/-- An integer that is not negative. -/
def asNat? : Toml → Option Nat
  | integer i => if 0 ≤ i then some i.toNat else none
  | _ => none

/-- The items of a list; a repeated header makes a list of tables. -/
def asList? : Toml → Option (List Toml)
  | array items => some items
  | tables items => some (items.map (table .header))
  | _ => none

/-- A list of texts. -/
def asTexts? (t : Toml) : Option (List String) := t.asList?.bind (·.mapM asText?)

/-- The members of a table, with each value read together with its name. -/
def asMap? (f : String → Toml → Option α) : Toml → Option (List α)
  | table _ ms => ms.mapM fun (name, value) => f name value
  | _ => none

/-- The parts of a record by name. -/
def parts? (names : List String) : Toml → Option Members
  | table _ ms => some ms
  | moment _ => some []
  | t => t.asList?.map names.zip

/-- Whether parts have no other names than the given ones. -/
def onlyNames (names : List String) (ms : Members) : Bool := (Entries.keys ms).all (· ∈ names)

/-- The parts of a record that may not have any but the named ones. -/
def closedParts? (names : List String) : Toml → Option Members
  | moment _ => none
  | t => (t.parts? names).filter (onlyNames names)

/-- A part that must be there. -/
def required? (f : Toml → Option α) (name : String) (ms : Members) : Option α :=
  (Entries.get? name ms).bind f

/-- A part that is replaced when it is not there. -/
def optional? (f : Toml → Option α) (fallback : α) (name : String) (ms : Members) : Option α :=
  match Entries.get? name ms with
  | some t => f t
  | none => some fallback

end EntityFilter.Toml
