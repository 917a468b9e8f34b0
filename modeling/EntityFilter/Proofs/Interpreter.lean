import EntityFilter.Compile.Constraint
import EntityFilter.Row.Truth

/-!
# What a filter says

A filter can be read without being compiled.  `Filter.meaning?` reads the tree as it stands: a leaf
is tested against the value that it constrains, a filter behind a relation to one row is read for
the row there, and a quantifier looks at every related row.  No predicate is built and no path is
followed across a relation.

What the catalog, the features and the depth do not allow says nothing, by the same rules as in
compilation, and neither does a leaf without conditions.  So a meaning may be absent, and whether it
is does not depend on any row.  A meaning that is there is a test of a row and of the row that holds
the projections: a relation to one row moves the former and keeps the latter, and a relation to rows
of their own moves both.
-/

namespace EntityFilter

/-! ## Tests that may be absent -/

section

variable {α : Type}

/-- All tests are passed; none of them is no test. -/
def allOf? : List (α → Bool) → Option (α → Bool)
  | [] => none
  | tests => some fun a => tests.all (· a)

/-- One of the tests is passed; none of them is no test. -/
def anyOf? : List (α → Bool) → Option (α → Bool)
  | [] => none
  | tests => some fun a => tests.any (· a)

end

/-- A test of a value that may be missing. -/
abbrev ValueTest := Option Document → Bool

/-- A test of a row and of the row that holds the projections. -/
abbrev Meaning := RowContext → Bool

namespace Document

/-- The value of a member; null is no value. -/
def member? (row : Document) (name : String) : Option Document :=
  match row.get? name with
  | some .null => none
  | d => d

/-- The rows that a member holds. -/
def rowsAt (row : Document) (name : String) : List Document := ((row.get? name).map rows).getD []

end Document

/-! ## Leaves -/

/-- Whether a value is there and compares with the literal as asked. -/
def Literal.admits (op : CompareOp) (v : Literal) : ValueTest :=
  fun value => (value.bind fun d => orderOf? d v).any op.holds

/-- Whether a value compares with the literal as asked; to equal null is to be missing. -/
def Literal.compares (op : CompareOp) (v : Literal) : ValueTest :=
  match op, v with
  | .eq, .null => Option.isNone
  | .neq, .null => Option.isSome
  | op, v => v.admits op

/-- Whether a value lies in a period. -/
def Period.admits (p : Period) (hasTime : Bool) : ValueTest :=
  fun value => (p.bounds hasTime).1.admits .gte value &&
    (p.bounds hasTime).2.admits (if p.closed then .lte else .lt) value

namespace Condition

/-- What a condition says about a value, except for the two operators that constrain a number read
off the value. -/
def simpleTest? (c : Condition) (kind : FieldKind) (now : Instant) : Option ValueTest :=
  match c.info.operator with
  | .compare op => some ((c.coerced kind).compares op)
  | .member negated => some fun value =>
    value.any fun d => (c.coerced kind).toList.any (Literal.equals d) != negated
  | .between =>
    match c.coerced kind with
    | .list [low, high] => some fun value => low.admits .gte value && high.admits .lte value
    | _ => none
  | .isNull => (c.coerced kind).asBool?.map fun missing value => value.isNone == missing
  | .text how ignoreCase => (c.coerced kind).asText?.map fun s value =>
    (value.bind Document.asText?).any (Predicate.textHolds how s ignoreCase)
  | .regex ignoreCase => (c.coerced kind).asText?.map fun s value =>
    (value.bind Document.asText?).any (Pattern.holds s ignoreCase)
  | .period s => (c.coerced kind).asBool?.map fun inside value =>
    (s.period now).admits kind.hasTime value == inside
  | .keys mode => ((c.coerced kind).toList.mapM Literal.asText?).map fun names value =>
    match value with
    | some (.object members) => mode.holds members names
    | _ => false
  | .array how => some fun value =>
    match value with
    | some (.array items) => how.holds items (c.coerced kind).toList
    | _ => false
  | .part _ | .length => none

/-- How the number that an operator constrains is read off a value. -/
def reading? (c : Condition) (kind : FieldKind) : Option (Document → Option Document) :=
  match c.info.operator with
  | .part p =>
    if p.needsTime && !kind.hasTime then none
    else some fun d => (Moment.ofDocument? d).map fun m => .int (m.part p)
  | .length => some fun d => d.asArray?.map fun items => .int items.length
  | _ => none

end Condition

/-- What a leaf says about a number. -/
def Leaf.numericTest? (l : Leaf) (now : Instant) : Option ValueTest :=
  allOf? ((l.conditions .numeric).filterMap fun c => c.simpleTest? .int now)

namespace Condition

/-- What the operand of an operator says about the number that is read off a value. -/
def integerTest? (now : Instant) : Literal → Option ValueTest
  | .int i => some ((Literal.int i).admits .eq)
  | .document d => (Leaf.ofDocument d).numericTest? now
  | _ => none

/-- What a condition says about a value.  A number is read off values that are stored in fields,
and off no others. -/
def test? (c : Condition) (stored : Bool) (kind : FieldKind) (now : Instant) :
    Option ValueTest :=
  match c.info.operator with
  | .part _ | .length =>
    if stored then
      (c.reading? kind).bind fun read =>
        (integerTest? now c.operand).map fun test value => test (value.bind read)
    else none
  | _ => c.simpleTest? kind now

end Condition

/-- What a leaf says about a value. -/
def Leaf.test? (l : Leaf) (stored : Bool) (kind : FieldKind) (now : Instant) : Option ValueTest :=
  allOf? ((l.conditions kind.family).filterMap fun c => c.test? stored kind now)

/-! ## Entries without filters -/

namespace Compiler

/-- A leaf on a projection: its value is stored under its name. -/
def projectedMeaning? (c : Compiler) (set : ProjectionSet) (p : Plan) (leaf : Leaf) :
    Option Meaning :=
  if (set.lookup? p.key).isSome then
    (leaf.test? false p.kind c.now).map fun test ctx => test (ctx.base.member? p.key.name)
  else none

/-- A leaf on the primary key. -/
def idMeaning? (c : Compiler) (s : Scope) (leaf : Leaf) : Option Meaning :=
  (leaf.test? true s.entity.primaryKeyKind c.now).map fun test ctx =>
    test (ctx.row.member? s.entity.primaryKey)

/-- A leaf on the identifiers of the rows that a relation leads to: on the one row there is, or on
any of many. -/
def relationMeaning? (c : Compiler) (s : Scope) (name : String) (leaf : Leaf) : Option Meaning :=
  if c.canFollow s then
    match c.relation? s name with
    | some (r, target) =>
      (leaf.test? true target.primaryKeyKind c.now).map fun test ctx =>
        if r.isToOne then test ((ctx.row.valueAt name).member? target.primaryKey)
        else (ctx.row.rowsAt name).any fun row => test (row.member? target.primaryKey)
    | none => none
  else none

/-- A leaf on a field, or on the identifiers of a relation. -/
def fieldMeaning? (c : Compiler) (s : Scope) (name : String) (leaf : Leaf) : Option Meaning :=
  match s.entity.field? name with
  | some f =>
    if f.kind.isArray && !c.settings.features.array then none
    else (leaf.test? true f.kind c.now).map fun test ctx => test (ctx.row.member? name)
  | none => c.relationMeaning? s name leaf

/-- Free text in one of the quick-search fields. -/
def quickMeaning? (s : Scope) (text : String) : Option Meaning :=
  if (Text.trim text).isEmpty then none
  else anyOf? (s.entity.quickSearchFields.map fun f ctx =>
    ((ctx.row.member? f.name).bind Document.asText?).any
      (Predicate.textHolds .contains (Text.trim text) true))

/-- The words of a search in the document that is stored for it, and a rank that is high enough. -/
def searchMeaning? (c : Compiler) (set : ProjectionSet) (s : Scope) (search : SearchFilter) :
    Option Meaning :=
  match c.planSearch? s search with
  | none => none
  | some plan =>
    if (set.lookup? plan.vector).isSome then
      let found : Meaning := fun ctx =>
        ((ctx.base.get? plan.vector.name).bind Document.asText?).any fun document =>
          search.mode.finds document search.query
      match plan.rank, search.minRank with
      | some key, some least =>
        if (set.lookup? key).isSome then
          some fun ctx =>
            found ctx && (Literal.float least).admits .gte (ctx.base.member? key.name)
        else none
      | _, _ => some found
    else none

/-- A comparison of two fields of comparable families. -/
def comparisonMeaning? (s : Scope) (cmp : FieldComparison) : Option Meaning :=
  match s.entity.field? cmp.left, s.entity.field? cmp.right with
  | some left, some right =>
    if left.kind.family.isComparableWith right.kind.family then
      some fun ctx =>
        match ctx.row.member? cmp.left, ctx.row.member? cmp.right with
        | some a, some b => (a.compare? b).any cmp.op.holds
        | _, _ => false
    else none
  | _, _ => none

end Compiler

/-! ## Filters -/

/-- Whether a row that holds its own projections satisfies a filter; one that says nothing is
satisfied by every row. -/
def Meaning.satisfied (m : Option Meaning) (row : Document) : Bool := m.all (· (.ofRow row))

/-- What a quantifier says about the rows of a relation. -/
def Quantifier.holds (q : Quantifier) (m : Option Meaning) (rows : List Document) : Bool :=
  match q with
  | some => rows.any (Meaning.satisfied m)
  | every => !rows.isEmpty && rows.all (Meaning.satisfied m)
  | none => !rows.any (Meaning.satisfied m)

/-- What an existence test says about the rows of a relation. -/
def ExistenceTest.holds (t : ExistenceTest) (m : Option Meaning) (rows : List Document) : Bool :=
  rows.any (Meaning.satisfied m) == t.expected

/-- Identifiers that are included are let in besides what the entries say. -/
def Scope.includeMeaning (s : Scope) (values : List Literal) (m : Meaning) : Meaning :=
  fun ctx => m ctx ||
    (ctx.row.member? s.entity.primaryKey).any fun d => values.any (Literal.equals d)

mutual

/-- What a filter says. -/
def Filter.meaning? (c : Compiler) (set : ProjectionSet) (s : Scope) : Filter → Option Meaning
  | .node es =>
    (allOf? (FilterEntry.meanings c set s es)).map
      (s.includeMeaning (FilterEntry.includedValues es))

/-- What entries say, those that say something. -/
def FilterEntry.meanings (c : Compiler) (set : ProjectionSet) (s : Scope) :
    List (String × FilterEntry) → List Meaning
  | [] => []
  | (key, e) :: es => (e.meaning? c set s key).toList ++ FilterEntry.meanings c set s es

/-- What an entry says. -/
def FilterEntry.meaning? (c : Compiler) (set : ProjectionSet) (s : Scope) (key : String) :
    FilterEntry → Option Meaning
  | .all fs => allOf? (Filter.meanings c set s fs)
  | .any fs => anyOf? (Filter.meanings c set s fs)
  | .negation f => (f.meaning? c set s).map fun m ctx => !m ctx
  | .id leaf => c.idMeaning? s leaf
  | .quick text => Compiler.quickMeaning? s text
  | .included _ => none
  | .search search => c.searchMeaning? set s search
  | .window items => allOf? (items.filterMap fun w =>
      (c.planWindow? s w).bind fun p => c.projectedMeaning? set p w.filter)
  | .subquery items => allOf? (items.filterMap fun q =>
      (c.planSubquery? s q).bind fun p => c.projectedMeaning? set p q.filter)
  | .existence items => allOf? (ExistenceTest.meanings c set s items)
  | .compare items => allOf? (items.filterMap (Compiler.comparisonMeaning? s))
  | .related relation f =>
    match c.joinedScope? s relation with
    | some inner => (f.meaning? c set inner).map fun m ctx => m ⟨ctx.row.valueAt relation, ctx.base⟩
    | none => none
  | .quantified relation quantifier f =>
    match c.rowsScope? s relation with
    | some inner => some fun ctx =>
      quantifier.holds (f.meaning? c set inner) (ctx.row.rowsAt relation)
    | none => none
  | .aggregate a condition => allOf? (a.functions.filterMap fun (function, leaf) =>
      (c.planAggregate? s a (condition.map Prod.snd) function).bind fun p =>
        c.projectedMeaning? set p leaf)
  | .trunc t => (c.planTrunc? s t).bind fun p => c.projectedMeaning? set p t.filter
  | .extract e => (c.planExtract? s e).bind fun p => c.projectedMeaning? set p e.filter
  | .count relation leaf =>
    if s.entity.hasField key then c.fieldMeaning? s key leaf
    else (c.planCount? s relation).bind fun p => c.projectedMeaning? set p leaf
  | .field name leaf => c.fieldMeaning? s name leaf

/-- What filters say, those that say something. -/
def Filter.meanings (c : Compiler) (set : ProjectionSet) (s : Scope) :
    List Filter → List Meaning
  | [] => []
  | f :: fs => (f.meaning? c set s).toList ++ Filter.meanings c set s fs

/-- What existence tests say, those that are allowed. -/
def ExistenceTest.meanings (c : Compiler) (set : ProjectionSet) (s : Scope) :
    List (ExistenceTest × Option Filter) → List Meaning
  | [] => []
  | (t, none) :: items =>
    ((c.existenceTarget? s t.relation false).map fun _ (ctx : RowContext) =>
      t.holds none (ctx.row.rowsAt t.relation)).toList ++
    ExistenceTest.meanings c set s items
  | (t, some f) :: items =>
    ((c.existenceTarget? s t.relation true).map fun target (ctx : RowContext) =>
      t.holds (f.meaning? c set (s.enter t.relation target))
        (ctx.row.rowsAt t.relation)).toList ++
    ExistenceTest.meanings c set s items

end

end EntityFilter
