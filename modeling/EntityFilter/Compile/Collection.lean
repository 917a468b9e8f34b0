import EntityFilter.Compile.Constraint

/-!
# From filters to projections

The first phase of compilation collects the projections that a filter asks for, wherever in the
filter they are asked for.  A conditional aggregate tests rows by a predicate of its own; that
predicate has no projections to refer to.
-/

namespace EntityFilter

namespace Compiler

/-- Add the projection of a plan, to be computed for the rows of the scope. -/
def add (set : ProjectionSet) (s : Scope) (key : ProjectionKey) (expr : ProjectionExpr) :
    ProjectionSet :=
  set.insert { key, expr, scope := s.rows }

/-- The predicate that picks the rows of a conditional aggregate. -/
def conditionPredicate? (c : Compiler) (s : Scope) (relation : String) (condition : Filter) :
    Option Predicate :=
  (c.toMany? s relation).bind fun target => condition.predicate? c .empty (s.enter relation target)

/-- Collect the aggregates of an entry. -/
def collectAggregates (c : Compiler) (s : Scope) (a : Aggregation)
    (condition : Option (Filter × UInt32)) (set : ProjectionSet) : ProjectionSet :=
  a.functions.foldl (fun set (function, _) =>
    match c.planAggregate? s a (condition.map Prod.snd) function with
    | some p =>
      add set s p.key (.aggregate function (s.relationPath a.relation) a.field
        (condition.bind fun (f, _) => c.conditionPredicate? s a.relation f))
    | none => set) set

/-- Collect the document of a search, and its rank if that is constrained. -/
def collectSearch (c : Compiler) (s : Scope) (search : SearchFilter) (set : ProjectionSet) :
    ProjectionSet :=
  match c.planSearch? s search with
  | none => set
  | some plan =>
    let set := add set s plan.vector (.searchVector (plan.fields.map s.fieldPath) plan.config)
    match set.lookup? plan.vector, plan.rank with
    | some vector, some rank =>
      add set s rank (.searchRank vector search.query search.mode plan.config)
    | _, _ => set

/-- Collect the projections that an entry asks for itself. -/
def collectOwn (c : Compiler) (s : Scope) (key : String) (e : FilterEntry) (set : ProjectionSet) :
    ProjectionSet :=
  match e with
  | .aggregate a condition => c.collectAggregates s a condition set
  | .count relation _ =>
    if s.entity.hasField key then set
    else
      match c.planCount? s relation with
      | some p => add set s p.key (.count (s.relationPath relation))
      | none => set
  | .window items => items.foldl (fun set w =>
      match c.planWindow? s w with
      | some p => add set s p.key (.window w.function w.spec)
      | none => set) set
  | .subquery items => items.foldl (fun set q =>
      match c.planSubquery? s q with
      | some p => add set s p.key (.subquery (s.relationPath q.relation) q.field q.orderBy)
      | none => set) set
  | .trunc t =>
    match c.planTrunc? s t with
    | some p => add set s p.key (.dateTrunc (s.fieldPath t.field) t.kind)
    | none => set
  | .extract e =>
    match c.planExtract? s e with
    | some p => add set s p.key (.dateExtract (s.fieldPath e.field) e.part)
    | none => set
  | .search search => c.collectSearch s search set
  | _ => set

end Compiler

mutual

/-- Collect the projections of a filter. -/
def Filter.collect (c : Compiler) (s : Scope) (set : ProjectionSet) : Filter → ProjectionSet
  | .node es => FilterEntry.collectAll c s set es

/-- Collect the projections of entries. -/
def FilterEntry.collectAll (c : Compiler) (s : Scope) (set : ProjectionSet) :
    List (String × FilterEntry) → ProjectionSet
  | [] => set
  | (key, e) :: es => FilterEntry.collectAll c s (e.collect c s key set) es

/-- Collect the projections of an entry. -/
def FilterEntry.collect (c : Compiler) (s : Scope) (key : String) (set : ProjectionSet) :
    FilterEntry → ProjectionSet
  | .all fs | .any fs => Filter.collectAll c s set fs
  | .negation f => f.collect c s set
  | .related relation f =>
    match c.joinedScope? s relation with
    | some inner => f.collect c inner set
    | none => set
  | .quantified relation _ f =>
    match c.rowsScope? s relation with
    | some inner => f.collect c inner set
    | none => set
  | .existence items => ExistenceTest.collectAll c s set items
  | e => c.collectOwn s key e set

/-- Collect the projections of filters. -/
def Filter.collectAll (c : Compiler) (s : Scope) (set : ProjectionSet) :
    List Filter → ProjectionSet
  | [] => set
  | f :: fs => Filter.collectAll c s (f.collect c s set) fs

/-- Collect the projections of the conditions of existence tests. -/
def ExistenceTest.collectAll (c : Compiler) (s : Scope) (set : ProjectionSet) :
    List (ExistenceTest × Option Filter) → ProjectionSet
  | [] => set
  | (_, none) :: items => ExistenceTest.collectAll c s set items
  | (t, some f) :: items =>
    match c.existenceTarget? s t.relation true with
    | some target =>
      ExistenceTest.collectAll c s (f.collect c (s.enter t.relation target) set) items
    | none => ExistenceTest.collectAll c s set items

end

end EntityFilter
