import EntityFilter.Pattern.Matcher
import EntityFilter.Pattern.Size
import EntityFilter.Row

/-!
# Whether a predicate holds

Tests are two-valued: a value that is missing fails every test but the one for null.  A literal
that is a date or an instant is compared with what the value writes, and a literal that is a
document is equal to the value or less than it, never greater.
-/

namespace EntityFilter

namespace Literal

/-- Order two literals of the same sort.  Two numbers always have an order, since no literal that
has been read holds a double without one (NaN). -/
def compareSame? : Literal → Literal → Option Ordering
  | text a, text b => some (Document.compareText a b)
  | bool a, bool b => some (compare a.toNat b.toNat)
  | date a, date b => some (compare a b)
  | instant a, instant b => some (compare a b)
  | a, b =>
    match a.numberKey?, b.numberKey? with
    | some x, some y => some (compare x y)
    | _, _ => none

/-- Order a value against the literal that it is compared with. -/
def orderOf? (value : Document) (v : Literal) : Option Ordering :=
  match v with
  | date _ => (ofDocument value).coerceDate.compareSame? v
  | instant _ => (ofDocument value).coerceInstant.compareSame? v
  | document d => some (if value.same d then .eq else .lt)
  | v => (ofDocument value).compareSame? v

/-- Whether a value equals a literal. -/
def equals (value : Document) (v : Literal) : Bool := orderOf? value v == some .eq

end Literal

/-- Whether a text matches another. -/
def TextMatch.holds (kind : TextMatch) (text value : String) : Bool :=
  match kind with
  | contains => Text.contains text value
  | startsWith => Text.startsWith text value
  | endsWith => Text.endsWith text value

/-- Whether an object has keys. -/
def KeyMatch.holds (mode : KeyMatch) (members : List (String × Document)) (keys : List String) :
    Bool :=
  match mode with
  | all => keys.all fun k => Entries.contains k members
  | any => keys.any fun k => Entries.contains k members

/-- Whether an array matches a list of literals. -/
def ArrayMatch.holds (kind : ArrayMatch) (items : List Document) (values : List Literal) : Bool :=
  match kind with
  | contains => values.all fun v => items.any (Literal.equals · v)
  | containedBy => items.all fun d => values.any (Literal.equals d)
  | overlaps => items.any fun d => values.any (Literal.equals d)

/-- Whether a regular expression matches in a text; one that cannot be compiled never does. -/
def Pattern.holds (pattern : String) (ignoreCase : Bool) (text : String) : Bool :=
  match Pattern.compile? (if ignoreCase then "(?i)" ++ pattern else pattern) with
  | some p => p.matchesIn text
  | none => false

namespace Predicate

/-- Whether a text matches another, in lower case if case does not count. -/
def textHolds (kind : TextMatch) (value : String) (ignoreCase : Bool) (text : String) : Bool :=
  if ignoreCase then kind.holds (Text.lowercase text) (Text.lowercase value)
  else kind.holds text value

mutual

/-- Whether a predicate holds of a row. -/
def holds (ctx : RowContext) : Predicate → Bool
  | compare left op v =>
    ((left.value? ctx).bind fun d => Literal.orderOf? d v).any op.holds
  | compareOperands left op right =>
    match left.value? ctx, right.value? ctx with
    | some a, some b => (a.compare? b).any op.holds
    | _, _ => false
  | member operand values negated =>
    (operand.value? ctx).any fun d => values.any (Literal.equals d) != negated
  | isNull operand negated => (operand.value? ctx).isNone != negated
  | text operand kind value ignoreCase =>
    ((operand.value? ctx).bind Document.asText?).any (textHolds kind value ignoreCase)
  | regex operand pattern ignoreCase =>
    ((operand.value? ctx).bind Document.asText?).any (Pattern.holds pattern ignoreCase)
  | keys operand names mode =>
    match operand.value? ctx with
    | some (.object members) => mode.holds members names
    | _ => false
  | array operand kind values =>
    match operand.value? ctx with
    | some (.array items) => kind.holds items values
    | _ => false
  | existence relation _ none => !(ctx.row.related relation.segments).isEmpty
  | existence relation _ (some p) =>
    (ctx.row.related relation.segments).any fun row => holds (.ofRow row) p
  | search vector query mode _ =>
    ((ctx.base.get? vector.name).bind Document.asText?).any fun document => mode.finds document query
  | all parts => allHold ctx parts
  | any parts => anyHolds ctx parts
  | negation p => !holds ctx p

/-- Whether all predicates hold of a row. -/
def allHold (ctx : RowContext) : List Predicate → Bool
  | [] => true
  | p :: ps => holds ctx p && allHold ctx ps

/-- Whether some predicate holds of a row. -/
def anyHolds (ctx : RowContext) : List Predicate → Bool
  | [] => false
  | p :: ps => holds ctx p || anyHolds ctx ps

end

/-- Whether a predicate holds of a row that holds its projections. -/
def holdsOf (p : Predicate) (row : Document) : Bool := p.holds (.ofRow row)

end Predicate

end EntityFilter
