import EntityFilter.Document.Canonical
import EntityFilter.Filter.Key
import EntityFilter.Filter.Record

/-!
# Reading filters

Only an object is a filter.  Its members become entries one by one, and a member whose document
does not have the shape that its key asks for is left out.
-/

namespace EntityFilter

/-- The readable items of an array, or the document itself as the only item; none at all is a
refusal. -/
def Document.oneOrMany? (read? : Document → Option α) (d : Document) : Option (List α) :=
  let items := match d with
    | .array items => items.filterMap read?
    | d => (read? d).toList
  if items.isEmpty then none else some items

mutual

/-- The filter that a document writes. -/
def Filter.ofDocument? : Document → Option Filter
  | .object members => some (.node (FilterEntry.ofMembers members))
  | _ => none

/-- The entries that members write. -/
def FilterEntry.ofMembers : List (String × Document) → List (String × FilterEntry)
  | [] => []
  | (key, d) :: rest =>
    match FilterEntry.ofDocument? (FilterKey.ofName key) d with
    | some e => (key, e) :: FilterEntry.ofMembers rest
    | none => FilterEntry.ofMembers rest

/-- The entry that a document writes under a key. -/
def FilterEntry.ofDocument? (key : FilterKey) (d : Document) : Option FilterEntry :=
  match key with
  | .all => (Filter.listOfDocument? d).map .all
  | .any => (Filter.listOfDocument? d).map .any
  | .negation => (Filter.ofDocument? d).map .negation
  | .id => some (.id (.ofDocument d))
  | .quick => d.asText?.map .quick
  | .included => some (.included (Literal.ofDocument d).toList)
  | .search => (SearchFilter.ofDocument? d).map .search
  | .window => (d.oneOrMany? WindowFilter.ofDocument?).map .window
  | .subquery => (d.oneOrMany? SubqueryFilter.ofDocument?).map .subquery
  | .existence =>
    let items := ExistenceTest.listOfDocument d
    if items.isEmpty then none else some (.existence items)
  | .compare => (d.oneOrMany? FieldComparison.ofDocument?).map .compare
  | .conditionalAggregate relation =>
    match d with
    | .object members =>
      match Aggregation.ofMembers? relation members, Filter.ofMember? "condition" members,
          Entries.get? "condition" members with
      | some a, some (some f), some raw => some (.aggregate a (some (f, raw.fingerprint)))
      | _, _, _ => none
    | _ => none
  | .aggregate relation =>
    match d with
    | .object members => (Aggregation.ofMembers? relation members).map (.aggregate · none)
    | _ => none
  | .related relation => (Filter.ofDocument? d).map (.related relation)
  | .quantified relation quantifier => (Filter.ofDocument? d).map (.quantified relation quantifier)
  | .trunc field => (TruncFilter.ofDocument? field d).map .trunc
  | .extract field => (ExtractFilter.ofDocument? field d).map .extract
  | .count relation => some (.count relation (.ofDocument d))
  | .field name => some (.field name (.ofDocument d))

/-- A list of filters, or one filter alone. -/
def Filter.listOfDocument? : Document → Option (List Filter)
  | .array items => some (Filter.listOfItems items)
  | .object members => some [.node (FilterEntry.ofMembers members)]
  | _ => none

/-- The filters among the items of an array. -/
def Filter.listOfItems : List Document → List Filter
  | [] => []
  | d :: ds =>
    match Filter.ofDocument? d with
    | some f => f :: Filter.listOfItems ds
    | none => Filter.listOfItems ds

/-- A filter or null. -/
def Filter.optionalOfDocument? : Document → Option (Option Filter)
  | .null => some none
  | .object members => some (some (.node (FilterEntry.ofMembers members)))
  | _ => none

/-- The filter that a member writes, if it is there. -/
def Filter.ofMember? (key : String) : List (String × Document) → Option (Option Filter)
  | [] => some none
  | (key', d) :: rest =>
    if key' = key then Filter.optionalOfDocument? d else Filter.ofMember? key rest

/-- The existence tests that a document writes, one or many. -/
def ExistenceTest.listOfDocument : Document → List (ExistenceTest × Option Filter)
  | .array items => ExistenceTest.listOfItems items
  | .object members => (ExistenceTest.ofMembers? members).toList
  | _ => []

/-- The existence tests among the items of an array. -/
def ExistenceTest.listOfItems : List Document → List (ExistenceTest × Option Filter)
  | [] => []
  | .object members :: ds =>
    match ExistenceTest.ofMembers? members with
    | some item => item :: ExistenceTest.listOfItems ds
    | none => ExistenceTest.listOfItems ds
  | .array fields :: ds =>
    match ExistenceTest.ofFields? fields with
    | some item => item :: ExistenceTest.listOfItems ds
    | none => ExistenceTest.listOfItems ds
  | _ :: ds => ExistenceTest.listOfItems ds

/-- An existence test with named fields. -/
def ExistenceTest.ofMembers? (members : List (String × Document)) :
    Option (ExistenceTest × Option Filter) :=
  match (Entries.get? "relation" members).bind Document.asText?,
      Filter.ofMember? "condition" members,
      (Record.named members).getD? 2 "exists" true Document.asBool? with
  | some relation, some condition, some expected => some (⟨relation, expected⟩, condition)
  | _, _, _ => none

/-- An existence test with the fields in order. -/
def ExistenceTest.ofFields? : List Document → Option (ExistenceTest × Option Filter)
  | [.text relation] => some (⟨relation, true⟩, none)
  | [.text relation, d] => (Filter.optionalOfDocument? d).map fun c => (⟨relation, true⟩, c)
  | [.text relation, d, .bool expected] =>
    (Filter.optionalOfDocument? d).map fun c => (⟨relation, expected⟩, c)
  | _ => none

end

end EntityFilter
