import EntityFilter.Filter

/-!
# Records in documents

A structured entry is a record: its fields are the members of an object, or the items of an array
in the order of the fields.  Members that belong to no field are passed over, items beyond the last
field are refused.
-/

namespace EntityFilter

/-- A record as it is written. -/
inductive Record where
  | named (members : List (String × Document))
  | positional (items : List Document)

namespace Record

/-- The record that a document writes, with at most so many fields. -/
def ofDocument? (fields : Nat) : Document → Option Record
  | .object members => some (named members)
  | .array items => if items.length ≤ fields then some (positional items) else none
  | _ => none

/-- The value of a field, given its place and its name. -/
def get? (r : Record) (place : Nat) (name : String) : Option Document :=
  match r with
  | named members => Entries.get? name members
  | positional items => items[place]?

/-- The value of a field that may be missing: `none` when it is there and cannot be read. -/
def getD? (r : Record) (place : Nat) (name : String) (missing : α) (read? : Document → Option α) :
    Option α :=
  match r.get? place name with
  | some d => read? d
  | none => some missing

end Record

namespace Document

/-- One of several words: a text, or an object whose only member has that name and is null. -/
def word? : Document → Option String
  | text s => some s
  | object [(s, null)] => some s
  | _ => none

/-- A truth value. -/
def asBool? : Document → Option Bool
  | bool b => some b
  | _ => none

/-- A list of texts. -/
def asTexts? : Document → Option (List String)
  | array items => items.mapM asText?
  | _ => none

/-- A list of ordering keys. -/
def asOrderKeys? (d : Document) : Option (List OrderKey) := d.asTexts?.bind (·.mapM OrderKey.read?)

/-- A value that may be null. -/
def asOptional? (read? : Document → Option α) : Document → Option (Option α)
  | null => some none
  | d => (read? d).map some

end Document

/-- A window filter. -/
def WindowFilter.ofDocument? (d : Document) : Option WindowFilter := do
  let r ← Record.ofDocument? 4 d
  let function ← ((← r.get? 0 "function").word?).bind WindowFunction.ofName?
  let partitionBy ← r.getD? 1 "partition_by" [] Document.asTexts?
  let orderBy ← r.getD? 2 "order_by" [] Document.asOrderKeys?
  let filter ← r.get? 3 "filter"
  return { function, spec := { partitionBy, orderBy }, filter := .ofDocument filter }

/-- A subquery filter. -/
def SubqueryFilter.ofDocument? (d : Document) : Option SubqueryFilter := do
  let r ← Record.ofDocument? 4 d
  let relation ← (← r.get? 0 "relation").asText?
  let field ← (← r.get? 1 "field").asText?
  let orderBy ← r.getD? 2 "order_by" [] Document.asOrderKeys?
  let filter ← r.get? 3 "filter"
  return { relation, field, orderBy, filter := .ofDocument filter }

/-- A comparison of fields. -/
def FieldComparison.ofDocument? (d : Document) : Option FieldComparison := do
  let r ← Record.ofDocument? 3 d
  let left ← (← r.get? 0 "left").asText?
  let op ← ((← r.get? 1 "op").word?).bind CompareOp.ofName?
  let right ← (← r.get? 2 "right").asText?
  return { left, op, right }

/-- A filter on a truncated date; the field is named by the key. -/
def TruncFilter.ofDocument? (field : String) (d : Document) : Option TruncFilter := do
  let r ← Record.ofDocument? 2 d
  let kind ← ((← r.get? 0 "kind").word?).bind TruncKind.ofName?
  let filter ← r.get? 1 "filter"
  return { field, kind, filter := .ofDocument filter }

/-- A filter on a part of a date; the field is named by the key. -/
def ExtractFilter.ofDocument? (field : String) (d : Document) : Option ExtractFilter := do
  let r ← Record.ofDocument? 2 d
  let part ← ((← r.get? 0 "part").word?).bind DatePart.ofName?
  let filter ← r.get? 1 "filter"
  return { field, part, filter := .ofDocument filter }

/-- A full-text search: the text of a query alone, or an object. -/
def SearchFilter.ofDocument? : Document → Option SearchFilter
  | .text query => some { query }
  | .object members => do
    let r := Record.named members
    let query ← (← r.get? 0 "query").asText?
    let fields ← r.getD? 1 "fields" [] Document.asTexts?
    let mode ← r.getD? 2 "mode" .plain fun d => d.word?.bind SearchMode.ofName?
    let minRank ← r.getD? 3 "min_rank" none (Document.asOptional? Document.asFloat?)
    let config ← r.getD? 4 "config" none (Document.asOptional? Document.asText?)
    return { query, fields, mode, minRank, config }
  | _ => none

/-- The aggregates that the members of an object ask for, at least one. -/
def Aggregation.ofMembers? (relation : String) (members : List (String × Document)) :
    Option Aggregation := do
  let field ← match Entries.get? "field" members with
    | none => some none
    | some d => d.asText?.map some
  let functions := AggregateFunction.all.filterMap fun f =>
    (Entries.get? f.name members).map fun d => (f, Leaf.ofDocument d)
  if functions.isEmpty then none else some { relation, field, functions }

end EntityFilter
