import EntityFilter.Compile.Collection
import EntityFilter.Compile.Visit

/-!
# Compiled filters

A filter is compiled against an entity of a catalog.  `Compiler.compile` first makes sure that the
filter keeps the limits and then runs both phases; what can go wrong is that the entity is unknown
or that a limit is exceeded.

The named periods of a filter are taken at the present, and the calendar may end within one.  Then
there is neither a compiled filter nor an error (`Compiler.compile?`).
-/

namespace EntityFilter

/-- What a filter is compiled to. -/
structure CompiledFilter where
  /-- The projections, in the order in which they were asked for. -/
  projections : ProjectionSet
  /-- The condition on a row; without one, every row is kept. -/
  predicate : Option Predicate

namespace CompiledFilter

/-- Whether there is nothing to compute and nothing to test. -/
def isEmpty (f : CompiledFilter) : Bool := f.projections.isEmpty && f.predicate.isNone

/-- The text of a compiled filter: a line for each projection, then the condition. -/
def render (f : CompiledFilter) : String :=
  String.join (f.projections.toList.map fun p => p.render ++ "\n") ++
    "WHERE " ++ ((f.predicate.map Predicate.render).getD "TRUE")

end CompiledFilter

namespace Compiler

/-- The projections that a filter on an entity asks for. -/
def projections (c : Compiler) (f : Filter) (e : Entity) : ProjectionSet :=
  f.collect c { entity := e } .empty

/-- The predicate of a filter on an entity, over given projections. -/
def predicate? (c : Compiler) (f : Filter) (e : Entity) (set : ProjectionSet) :
    Option Predicate :=
  f.predicate? c set { entity := e }

/-- Compile a filter on the entity of a given name. -/
def compile (c : Compiler) (f : Filter) (entity : String) : Except FilterError CompiledFilter :=
  match c.catalog.entity? entity with
  | none => .error (.ofCause (.unknownEntity entity))
  | some e =>
    match c.settings.limits.error? f with
    | some l => .error ((FilterError.ofCause (.limit l)).withEntity entity)
    | none =>
      let set := c.projections f e
      .ok { projections := set, predicate := c.predicate? f e set }

/-- The named periods that collecting the projections of a filter asks for: those in the conditions
of aggregates. -/
def conditionPeriods (c : Compiler) (f : Filter) (e : Entity) : List Shortcut :=
  ((f.visits c { entity := e }).filterMap (·.condition? c)).flatMap fun (s, condition) =>
    condition.periods c .empty s

/-- The named periods that compiling a filter on an entity asks for. -/
def periods (c : Compiler) (f : Filter) (e : Entity) : List Shortcut :=
  c.conditionPeriods f e ++ f.periods c (c.projections f e) { entity := e }

/-- Whether the calendar has the periods of some names. -/
def fitsCalendar (c : Compiler) (names : List Shortcut) : Bool :=
  names.all fun s => (s.period? c.now).isSome

/-- Compile a filter on the entity of a given name, unless the calendar ends within a named period
that this asks for. -/
def compile? (c : Compiler) (f : Filter) (entity : String) :
    Option (Except FilterError CompiledFilter) :=
  match c.compile f entity, c.catalog.entity? entity with
  | .ok compiled, some e =>
    if c.fitsCalendar (c.periods f e) then some (.ok compiled) else none
  | r, _ => some r

end Compiler

end EntityFilter
