import EntityFilter.Compile.Plan

/-!
# From filters to predicates

The second phase of compilation turns a filter into a predicate over the projections that the first
phase has collected.  Every entry contributes a predicate or nothing; those that contribute are
conjoined.  Identifiers to be included widen what the other entries say, and say nothing alone.
-/

namespace EntityFilter

namespace Compiler

/-- A leaf on the projection of a plan, if it has been collected. -/
def projected? (c : Compiler) (set : ProjectionSet) (p : Plan) (leaf : Leaf) : Option Predicate :=
  (set.lookup? p.key).bind fun handle => leaf.predicate? (.projection handle) p.kind c.now

/-- A leaf on the primary key. -/
def idPredicate? (c : Compiler) (s : Scope) (leaf : Leaf) : Option Predicate :=
  leaf.predicate? (.field (s.fieldPath s.entity.primaryKey)) s.entity.primaryKeyKind c.now

/-- A leaf on the identifiers of the rows that a relation leads to. -/
def relationPredicate? (c : Compiler) (s : Scope) (name : String) (leaf : Leaf) :
    Option Predicate :=
  if c.canFollow s then
    match c.relation? s name with
    | some (r, target) =>
      let path := s.relationPath name
      if r.isToOne then
        leaf.predicate? (.field (.under path target.primaryKey)) target.primaryKeyKind c.now
      else
        (leaf.predicate? (.field (.single target.primaryKey)) target.primaryKeyKind c.now).map
          fun p => .existence path target.name (some p)
    | none => none
  else none

/-- A leaf on a field, or on the identifiers of a relation. -/
def fieldPredicate? (c : Compiler) (s : Scope) (name : String) (leaf : Leaf) : Option Predicate :=
  match s.entity.field? name with
  | some f =>
    if f.kind.isArray && !c.settings.features.array then none
    else leaf.predicate? (.field (s.fieldPath name)) f.kind c.now
  | none => c.relationPredicate? s name leaf

/-- Free text in one of the quick-search fields. -/
def quickPredicate? (s : Scope) (text : String) : Option Predicate :=
  let text := Text.trim text
  if text.isEmpty then none
  else Predicate.or? (s.entity.quickSearchFields.map fun f =>
    .text (.field (s.fieldPath f.name)) .contains text true)

/-- A full-text search, and the constraint on the rank if there is one. -/
def searchPredicate? (c : Compiler) (set : ProjectionSet) (s : Scope) (search : SearchFilter) :
    Option Predicate := do
  let plan ← c.planSearch? s search
  let vector ← set.lookup? plan.vector
  let found := Predicate.search vector search.query search.mode plan.config
  match plan.rank, search.minRank with
  | some key, some least =>
    let handle ← set.lookup? key
    Predicate.and? [found, .compare (.projection handle) .gte (.float least)]
  | _, _ => some found

/-- A comparison of two fields of comparable families. -/
def comparisonPredicate? (s : Scope) (cmp : FieldComparison) : Option Predicate :=
  match s.entity.field? cmp.left, s.entity.field? cmp.right with
  | some left, some right =>
    if left.kind.family.isComparableWith right.kind.family then
      some (.compareOperands (.field (s.fieldPath cmp.left)) cmp.op (.field (s.fieldPath cmp.right)))
    else none
  | _, _ => none

end Compiler

/-- The rows of a relation as a quantifier asks for them, given the predicate on a row. -/
def Quantifier.predicate (q : Quantifier) (path : RelationPath) (entity : String)
    (p : Option Predicate) : Predicate :=
  match q, p with
  | some, p => .existence path entity p
  | none, p => (Predicate.existence path entity p).not
  | every, .none => .existence path entity .none
  | every, .some p =>
    (Predicate.existence path entity .none).andThen
      (Predicate.existence path entity (.some p.not)).not

/-- The predicate of an existence test, given the predicate on a row. -/
def ExistenceTest.predicate (t : ExistenceTest) (path : RelationPath) (entity : String)
    (p : Option Predicate) : Predicate :=
  let found := Predicate.existence path entity p
  if t.expected then found else found.not

/-- The identifiers that an entry includes, if it is about that. -/
def FilterEntry.included? : FilterEntry → Option (List Literal)
  | .included values => some values
  | _ => none

/-- The identifiers that entries include.  The last entry that is about them decides. -/
def FilterEntry.includedValues (es : List (String × FilterEntry)) : List Literal :=
  es.foldl (fun values e => e.2.included?.getD values) []

/-- Widen a predicate by identifiers that are included in any case. -/
def Scope.widen? (s : Scope) (values : List Literal) (p : Option Predicate) : Option Predicate :=
  match p with
  | none => none
  | some p =>
    if values.isEmpty then some p
    else Predicate.or? [p, .member (.field (s.fieldPath s.entity.primaryKey)) values false]

mutual

/-- The predicate of a filter. -/
def Filter.predicate? (c : Compiler) (set : ProjectionSet) (s : Scope) :
    Filter → Option Predicate
  | .node es =>
    s.widen? (FilterEntry.includedValues es) (Predicate.and? (FilterEntry.predicates c set s es))

/-- The predicates of entries. -/
def FilterEntry.predicates (c : Compiler) (set : ProjectionSet) (s : Scope) :
    List (String × FilterEntry) → List Predicate
  | [] => []
  | (key, e) :: es => (e.predicate? c set s key).toList ++ FilterEntry.predicates c set s es

/-- The predicate of an entry. -/
def FilterEntry.predicate? (c : Compiler) (set : ProjectionSet) (s : Scope) (key : String) :
    FilterEntry → Option Predicate
  | .all fs => Predicate.and? (Filter.predicates c set s fs)
  | .any fs => Predicate.or? (Filter.predicates c set s fs)
  | .negation f => (f.predicate? c set s).map Predicate.not
  | .id leaf => c.idPredicate? s leaf
  | .quick text => Compiler.quickPredicate? s text
  | .included _ => none
  | .search search => c.searchPredicate? set s search
  | .window items => Predicate.and? (items.filterMap fun w =>
      (c.planWindow? s w).bind fun p => c.projected? set p w.filter)
  | .subquery items => Predicate.and? (items.filterMap fun q =>
      (c.planSubquery? s q).bind fun p => c.projected? set p q.filter)
  | .existence items => Predicate.and? (ExistenceTest.predicates c set s items)
  | .compare items => Predicate.and? (items.filterMap (Compiler.comparisonPredicate? s))
  | .related relation f =>
    match c.joinedScope? s relation with
    | some inner => f.predicate? c set inner
    | none => none
  | .quantified relation quantifier f =>
    match c.rowsScope? s relation with
    | some inner =>
      some (quantifier.predicate (s.relationPath relation) inner.entity.name
        (f.predicate? c set inner))
    | none => none
  | .aggregate a condition => Predicate.and? (a.functions.filterMap fun (function, leaf) =>
      (c.planAggregate? s a (condition.map Prod.snd) function).bind fun p => c.projected? set p leaf)
  | .trunc t => (c.planTrunc? s t).bind fun p => c.projected? set p t.filter
  | .extract e => (c.planExtract? s e).bind fun p => c.projected? set p e.filter
  | .count relation leaf =>
    if s.entity.hasField key then c.fieldPredicate? s key leaf
    else (c.planCount? s relation).bind fun p => c.projected? set p leaf
  | .field name leaf => c.fieldPredicate? s name leaf

/-- The predicates of filters. -/
def Filter.predicates (c : Compiler) (set : ProjectionSet) (s : Scope) :
    List Filter → List Predicate
  | [] => []
  | f :: fs => (f.predicate? c set s).toList ++ Filter.predicates c set s fs

/-- The predicates of existence tests. -/
def ExistenceTest.predicates (c : Compiler) (set : ProjectionSet) (s : Scope) :
    List (ExistenceTest × Option Filter) → List Predicate
  | [] => []
  | (t, none) :: items =>
    ((c.existenceTarget? s t.relation false).map fun target =>
      t.predicate (s.relationPath t.relation) target.name none).toList ++
    ExistenceTest.predicates c set s items
  | (t, some f) :: items =>
    ((c.existenceTarget? s t.relation true).map fun target =>
      t.predicate (s.relationPath t.relation) target.name
        (f.predicate? c set (s.enter t.relation target))).toList ++
    ExistenceTest.predicates c set s items

end

end EntityFilter
