import EntityFilter.OrderedMap
import EntityFilter.Number.Binary64

/-!
# Documents

A document is a JSON value: filters arrive as documents, rows are documents, and projections are
stored in them.  Members of an object keep their order.  An integer and a double are different
numbers even when they have the same value, and an integer lies between `-2 ^ 63` and `2 ^ 64 - 1`;
what does not fit is a double.

A tree of pairs cannot say that no key of an object occurs twice, so this is the predicate
`WellFormed`; every document that is read or annotated has it.  `same` is equality of documents:
the order of members does not count, the order of items does.
-/

namespace EntityFilter

/-- A JSON value with the members of objects in order. -/
inductive Document where
  | null
  | bool (value : Bool)
  | int (value : Int)
  | float (value : Float)
  | text (value : String)
  | array (items : List Document)
  | object (members : List (String × Document))
  deriving Inhabited

namespace Document

/-- The value of a member of an object; nothing else has members. -/
def get? (key : String) : Document → Option Document
  | object members => Entries.get? key members
  | _ => none

/-- Follow member names from object to object. -/
def follow? : List String → Document → Option Document
  | [], d => some d
  | key :: path, d =>
    match d.get? key with
    | some inner => follow? path inner
    | none => none

/-- Store a member in an object; anything else stays as it is. -/
def insert (d : Document) (key : String) (value : Document) : Document :=
  match d with
  | object members => object (Entries.insert key value members)
  | d => d

/-- Whether a document is null. -/
def isNull : Document → Bool
  | null => true
  | _ => false

/-- Whether a document is an object. -/
def isObject : Document → Bool
  | object _ => true
  | _ => false

/-- The characters of a text document. -/
def asText? : Document → Option String
  | text s => some s
  | _ => none

/-- The items of an array. -/
def asArray? : Document → Option (List Document)
  | array items => some items
  | _ => none

/-- A text, or null. -/
def ofText? : Option String → Document
  | some s => text s
  | none => null

/-- A list of texts. -/
def ofTexts (ss : List String) : Document := array (ss.map text)

/-- A number as the double nearest to it. -/
def asFloat? : Document → Option Float
  | int i => some (Binary64.ofInt i)
  | float x => some x
  | _ => none

/-- Whether a document is an integer that fits into 64 signed bits. -/
def isInt64 : Document → Bool
  | int i => Binary64.minInt64 ≤ i && i ≤ Binary64.maxInt64
  | _ => false

/-- A double as a document.  Only finite doubles have one; the others become null. -/
def ofFloat (x : Float) : Document := if Binary64.isFinite x then float x else null

/-- The place of a number among the doubles.  A double that is no number (NaN) is given a place as
well; texts cannot write one, so documents that have been read hold none. -/
def numberKey? : Document → Option Int
  | int i => some (Binary64.keyOfInt i)
  | float x => some (Binary64.orderKey x)
  | _ => none

/-- Compare two texts by their characters, in the order of code points. -/
def compareText (a b : String) : Ordering :=
  if a < b then .lt else if a = b then .eq else .gt

/-- Order two numbers, two texts or two truth values; nothing else is ordered. -/
def compare? : Document → Document → Option Ordering
  | text a, text b => some (compareText a b)
  | bool a, bool b => some (compare a.toNat b.toNat)
  | a, b =>
    match a.numberKey?, b.numberKey? with
    | some x, some y => some (compare x y)
    | _, _ => none

mutual

/-- Whether two documents are equal, the order of members aside. -/
def same : Document → Document → Bool
  | null, null => true
  | bool a, bool b => a == b
  | int a, int b => a == b
  | float a, float b => Binary64.orderKey a == Binary64.orderKey b
  | text a, text b => a == b
  | array as, array bs => sameItems as bs
  | object as, object bs => as.length == bs.length && sameMembers as bs
  | _, _ => false

/-- Whether two lists hold equal documents in the same order. -/
def sameItems : List Document → List Document → Bool
  | [], [] => true
  | a :: as, b :: bs => same a b && sameItems as bs
  | _, _ => false

/-- Whether each member of the first list has an equal one of the same name in the second. -/
def sameMembers : List (String × Document) → List (String × Document) → Bool
  | [], _ => true
  | (key, a) :: as, bs =>
    (match Entries.get? key bs with
      | some b => same a b
      | none => false) && sameMembers as bs

end

mutual

/-- No object inside has a key twice. -/
def WellFormed : Document → Prop
  | array items => ItemsWellFormed items
  | object members => (Entries.keys members).Nodup ∧ MembersWellFormed members
  | _ => True

/-- Every item is well formed. -/
def ItemsWellFormed : List Document → Prop
  | [] => True
  | d :: ds => d.WellFormed ∧ ItemsWellFormed ds

/-- Every value of a member is well formed. -/
def MembersWellFormed : List (String × Document) → Prop
  | [] => True
  | (_, d) :: ms => d.WellFormed ∧ MembersWellFormed ms

end

end Document

end EntityFilter
