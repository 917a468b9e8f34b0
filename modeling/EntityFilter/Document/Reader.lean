import EntityFilter.Document.Token

/-!
# Reading documents

The tokens of a document are read by a machine with a stack: one level for each array or object
that is open, holding what it contains so far.  A token that does not fit the state refuses the
text, and so does nesting deeper than `maxNesting`.  A repeated key of an object keeps its first
place and its last value.
-/

namespace EntityFilter

namespace Document

/-- The number of arrays and objects that may be open at a time. -/
def maxNesting : Nat := 127

namespace Reader

/-- An array or object that is open. -/
inductive Level where
  | array (items : List Document)
  | object (members : List (String × Document)) (key : String)

/-- What may come next. -/
inductive State where
  /-- A value must follow. -/
  | value
  /-- The first item of an array, or its end. -/
  | firstItem
  /-- The first key of an object, or its end. -/
  | firstKey
  /-- A key must follow. -/
  | key
  /-- The colon behind a key. -/
  | colon
  /-- A comma, or the end of the open level. -/
  | after
  /-- The document is complete. -/
  | done (result : Document)

/-- The machine: what it waits for, and the open levels, innermost first. -/
structure Machine where
  state : State
  levels : List Level

/-- Put a complete value where it belongs. -/
def Machine.put (value : Document) : List Level → Machine
  | [] => ⟨.done value, []⟩
  | .array items :: levels => ⟨.after, .array (items ++ [value]) :: levels⟩
  | .object members key :: levels =>
    ⟨.after, .object (Entries.insert key value members) key :: levels⟩

/-- Open a level unless too many are open. -/
def Machine.enter? (state : State) (level : Level) (levels : List Level) : Option Machine :=
  if levels.length < maxNesting then some ⟨state, level :: levels⟩ else none

/-- Read one token. -/
def Machine.step (m : Machine) (token : Token) : Option Machine :=
  match m.state, token, m.levels with
  | .value, .scalar d, levels => some (put d levels)
  | .firstItem, .scalar d, levels => some (put d levels)
  | .value, .beginArray, levels => enter? .firstItem (.array []) levels
  | .firstItem, .beginArray, levels => enter? .firstItem (.array []) levels
  | .value, .beginObject, levels => enter? .firstKey (.object [] "") levels
  | .firstItem, .beginObject, levels => enter? .firstKey (.object [] "") levels
  | .firstItem, .endArray, .array items :: levels => some (put (array items) levels)
  | .after, .endArray, .array items :: levels => some (put (array items) levels)
  | .firstKey, .endObject, .object members _ :: levels => some (put (object members) levels)
  | .after, .endObject, .object members _ :: levels => some (put (object members) levels)
  | .firstKey, .scalar (text key), .object members _ :: levels =>
    some ⟨.colon, .object members key :: levels⟩
  | .key, .scalar (text key), .object members _ :: levels =>
    some ⟨.colon, .object members key :: levels⟩
  | .colon, .colon, levels => some ⟨.value, levels⟩
  | .after, .comma, .array items :: levels => some ⟨.value, .array items :: levels⟩
  | .after, .comma, .object members key :: levels => some ⟨.key, .object members key :: levels⟩
  | _, _, _ => none

end Reader

/-- The document that a text writes; `none` when it writes none. -/
def read? (s : String) : Option Document :=
  match Token.scan s.toList with
  | none => none
  | some tokens =>
    match tokens.foldlM Reader.Machine.step ⟨.value, []⟩ with
    | some ⟨.done result, []⟩ => some result
    | _ => none

end Document

end EntityFilter
