import EntityFilter.Compile.Plan

/-!
# The entries that compilation reaches

Both phases of compilation walk a filter in the same way: a negation or a list of filters is walked
where it stands, a filter behind a relation is walked in the scope that the relation leads to, and
what may not be followed is left out.  `Filter.visits` lists the entries that the walk reaches, each
with its scope.

For an entry, `Visit.applied` lists the leaves that the second phase turns into predicates, each
with the kind of the values that it is applied to.  From these the named periods are known that the
predicate of a filter asks for (`Filter.periods`), before any of them is computed.
-/

namespace EntityFilter

/-- An entry that compilation reaches, under its key, and the scope that it is compiled in. -/
structure Visit where
  /-- Where the entry is compiled. -/
  scope : Scope
  /-- The key of the entry. -/
  key : String
  /-- The entry. -/
  entry : FilterEntry

mutual

/-- The entries that compilation reaches in a filter, in the order in which it reaches them. -/
def Filter.visits (c : Compiler) (s : Scope) : Filter → List Visit
  | .node es => FilterEntry.visitsOfAll c s es

/-- The visits of entries. -/
def FilterEntry.visitsOfAll (c : Compiler) (s : Scope) :
    List (String × FilterEntry) → List Visit
  | [] => []
  | (key, e) :: es => ⟨s, key, e⟩ :: (e.visitsBelow c s ++ FilterEntry.visitsOfAll c s es)

/-- The visits of the filters that an entry holds. -/
def FilterEntry.visitsBelow (c : Compiler) (s : Scope) : FilterEntry → List Visit
  | .all fs | .any fs => Filter.visitsOfAll c s fs
  | .negation f => f.visits c s
  | .related relation f =>
    match c.joinedScope? s relation with
    | some inner => f.visits c inner
    | none => []
  | .quantified relation _ f =>
    match c.rowsScope? s relation with
    | some inner => f.visits c inner
    | none => []
  | .existence items => ExistenceTest.visitsOfAll c s items
  | _ => []

/-- The visits of filters. -/
def Filter.visitsOfAll (c : Compiler) (s : Scope) : List Filter → List Visit
  | [] => []
  | f :: fs => f.visits c s ++ Filter.visitsOfAll c s fs

/-- The visits of the conditions of existence tests. -/
def ExistenceTest.visitsOfAll (c : Compiler) (s : Scope) :
    List (ExistenceTest × Option Filter) → List Visit
  | [] => []
  | (_, none) :: items => ExistenceTest.visitsOfAll c s items
  | (t, some f) :: items =>
    match c.existenceTarget? s t.relation true with
    | some target =>
      f.visits c (s.enter t.relation target) ++ ExistenceTest.visitsOfAll c s items
    | none => ExistenceTest.visitsOfAll c s items

end

/-- The plans of an entry, each with the leaf on the planned value. -/
def FilterEntry.planned (c : Compiler) (s : Scope) (key : String) :
    FilterEntry → List (Plan × Leaf)
  | .window items => items.filterMap fun w => (c.planWindow? s w).map fun p => (p, w.filter)
  | .subquery items => items.filterMap fun q => (c.planSubquery? s q).map fun p => (p, q.filter)
  | .aggregate a condition => a.functions.filterMap fun (function, leaf) =>
      (c.planAggregate? s a (condition.map Prod.snd) function).map fun p => (p, leaf)
  | .trunc t => ((c.planTrunc? s t).map fun p => (p, t.filter)).toList
  | .extract e => ((c.planExtract? s e).map fun p => (p, e.filter)).toList
  | .count relation leaf =>
    if s.entity.hasField key then []
    else ((c.planCount? s relation).map fun p => (p, leaf)).toList
  | _ => []

/-- The plans of a visited entry, each with the leaf on the planned value. -/
def Visit.planned (c : Compiler) (v : Visit) : List (Plan × Leaf) :=
  v.entry.planned c v.scope v.key

/-- The field or relation that a visited entry names, with the leaf on it. -/
def Visit.named? (v : Visit) : Option (String × Leaf) :=
  match v.entry with
  | .field name leaf => some (name, leaf)
  | .count _ leaf => if v.scope.entity.hasField v.key then some (v.key, leaf) else none
  | _ => none

/-- The kind of the values that a leaf on a field, or on the identifiers of a relation, is applied
to. -/
def Compiler.namedKind? (c : Compiler) (s : Scope) (name : String) : Option FieldKind :=
  match s.entity.field? name with
  | some f => if f.kind.isArray && !c.settings.features.array then none else some f.kind
  | none =>
    if c.canFollow s then (c.relation? s name).map fun (_, target) => target.primaryKeyKind
    else none

/-- The leaves of a visited entry that are turned into predicates over the projections collected,
each with the kind of the values that it is applied to. -/
def Visit.applied (c : Compiler) (set : ProjectionSet) (v : Visit) : List (Leaf × FieldKind) :=
  match v.entry, v.named? with
  | .id leaf, _ => [(leaf, v.scope.entity.primaryKeyKind)]
  | _, some (name, leaf) => ((c.namedKind? v.scope name).map fun kind => (leaf, kind)).toList
  | _, none => (v.planned c).filterMap fun (plan, leaf) =>
      (set.lookup? plan.key).map fun _ => (leaf, plan.kind)

/-- The condition of an aggregate, in the scope of the rows that it is tested on.  It is compiled if
the entry has any aggregate to collect. -/
def Visit.condition? (c : Compiler) (v : Visit) : Option (Scope × Filter) :=
  match v.entry with
  | .aggregate a (some (f, _)) =>
    if (v.planned c).isEmpty then none
    else (c.toMany? v.scope a.relation).map fun target => (v.scope.enter a.relation target, f)
  | _ => none

/-- The named periods that a filter asks for when it is turned into a predicate. -/
def Filter.periods (c : Compiler) (set : ProjectionSet) (s : Scope) (f : Filter) : List Shortcut :=
  (f.visits c s).flatMap fun v => (v.applied c set).flatMap fun (leaf, kind) => leaf.periods kind

end EntityFilter
