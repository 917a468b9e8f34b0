import EntityFilter.Filter
import EntityFilter.Operator

/-!
# Conditions

A condition is an operator together with an operand of the right shape.  An operator that the
family of a field lacks makes no condition, and neither does an operand of the wrong shape: both
are passed over.  `Leaf.predicate?` turns all conditions of a leaf into one predicate on a value.
-/

namespace EntityFilter

namespace OperatorFamily

/-- Whether a literal is a single value of the family. -/
def fits (family : OperatorFamily) (v : Literal) : Bool :=
  match family, v with
  | text, .text _ => true
  | numeric, .int _ | numeric, .float _ => true
  | boolean, .bool _ => true
  | temporal, .text _ | temporal, .date _ | temporal, .instant _ => true
  | identifier, .int _ | identifier, .text _ => true
  | json, .list _ => false
  | json, _ => true
  | array, .list _ | array, .document _ => false
  | array, _ => true
  | _, _ => false

/-- An operand as an operator of a given shape takes it. -/
def shaped? (family : OperatorFamily) (shape : OperandShape) (v : Literal) : Option Literal :=
  match shape with
  | .value =>
    match v with
    | .null => some .null
    | .list items =>
      if family = json then some (.document (Literal.list items).toDocument) else none
    | v => if family.fits v then some v else none
  | .ordered => if family.fits v then some v else none
  | .list => if v.toList.all family.fits then some (.list v.toList) else none
  | .range =>
    match v with
    | .list [low, high] => if family.fits low && family.fits high then some v else none
    | _ => none
  | .flag => v.asBool?.map .bool
  | .pattern | .key => v.asText?.map .text
  | .integer =>
    match v with
    | .document (.object _) => some v
    | v => v.asInt?.map .int
  | .keys => if v.toList.all (·.asText?.isSome) then some (.list v.toList) else none

end OperatorFamily

/-- An operator with an operand of its shape. -/
structure Condition where
  /-- The operator. -/
  info : OperatorInfo
  /-- The operand. -/
  operand : Literal

namespace Condition

/-- The condition that an operator and an operand make in a family. -/
def ofOperator? (family : OperatorFamily) (name : String) (operand : Literal) :
    Option Condition := do
  let info ← family.operator? name
  return ⟨info, ← family.shaped? info.shape operand⟩

/-- The operand, with what writes a date or an instant turned into one for a field of these. -/
def coerced (c : Condition) (kind : FieldKind) : Literal :=
  match kind with
  | .dateTime => c.operand.coerceInstant
  | .date => c.operand.coerceDate
  | _ => c.operand

end Condition

namespace Predicate

/-- Compare a value with a literal; to equal null is to be missing. -/
def comparison (target : Operand) (op : CompareOp) (v : Literal) : Predicate :=
  match op, v with
  | .eq, .null => isNull target false
  | .neq, .null => isNull target true
  | op, v => compare target op v

/-- A value lies in a period. -/
def inPeriod (target : Operand) (p : Period) (hasTime : Bool) : Predicate :=
  let (start, stop) := p.bounds hasTime
  all [compare target .gte start, compare target (if p.closed then .lte else .lt) stop]

end Predicate

namespace Condition

/-- The predicate of a condition, except for the two operators that constrain a number read off the
value. -/
def simplePredicate? (c : Condition) (target : Operand) (kind : FieldKind) (now : Instant) :
    Option Predicate :=
  let v := c.coerced kind
  match c.info.operator with
  | .compare op => some (.comparison target op v)
  | .member negated => some (.member target v.toList negated)
  | .between =>
    match v with
    | .list [low, high] => some (.all [.compare target .gte low, .compare target .lte high])
    | _ => none
  | .isNull => v.asBool?.map fun b => .isNull target (!b)
  | .text kind ignoreCase => v.asText?.map fun s => .text target kind s ignoreCase
  | .regex ignoreCase => v.asText?.map fun s => .regex target s ignoreCase
  | .period s => v.asBool?.map fun inside =>
    let p := Predicate.inPeriod target (s.period now) kind.hasTime
    if inside then p else p.not
  | .keys mode => (v.toList.mapM Literal.asText?).map fun names => .keys target names mode
  | .array kind => some (.array target kind v.toList)
  | .part _ | .length => none

/-- The number that an operator constrains: a part of a date, or a number of elements.  It can only
be read off a field. -/
def number? (c : Condition) (target : Operand) (kind : FieldKind) : Option Operand :=
  match c.info.operator, target with
  | .part p, .field path =>
    if p.needsTime && !kind.hasTime then none else some (.datePart path p)
  | .length, .field path => some (.arrayLength path)
  | _, _ => none

end Condition

namespace Leaf

/-- The conditions of a leaf on a value of a family. -/
def conditions (family : OperatorFamily) (l : Leaf) : List Condition :=
  l.operators.entries.filterMap fun (name, operand) => Condition.ofOperator? family name operand

/-- The predicate of a leaf on a number. -/
def numericPredicate? (l : Leaf) (target : Operand) (now : Instant) : Option Predicate :=
  Predicate.and? ((l.conditions .numeric).filterMap fun c => c.simplePredicate? target .int now)

end Leaf

namespace Condition

/-- A constraint on a number: an integer that it equals, or operators. -/
def integerPredicate? (target : Operand) (now : Instant) : Literal → Option Predicate
  | .int i => some (.compare target .eq (.int i))
  | .document d => (Leaf.ofDocument d).numericPredicate? target now
  | _ => none

/-- The predicate of a condition on a value of a given kind.  Named periods are taken at the given
present. -/
def predicate? (c : Condition) (target : Operand) (kind : FieldKind) (now : Instant) :
    Option Predicate :=
  match c.info.operator with
  | .part _ | .length => (c.number? target kind).bind fun n => integerPredicate? n now c.operand
  | _ => c.simplePredicate? target kind now

end Condition

namespace Leaf

/-- The predicate of a leaf on a value of a given kind: all conditions hold. -/
def predicate? (l : Leaf) (target : Operand) (kind : FieldKind) (now : Instant) :
    Option Predicate :=
  Predicate.and? ((l.conditions kind.family).filterMap fun c => c.predicate? target kind now)

/-- The named periods that a leaf on a value of a given kind asks for. -/
def periods (l : Leaf) (kind : FieldKind) : List Shortcut :=
  (l.conditions kind.family).filterMap fun c => c.info.operator.shortcut?

end Leaf

end EntityFilter
