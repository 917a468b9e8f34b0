import EntityFilter.Proofs.Counting
import EntityFilter.Proofs.LeafAnswers

/-!
# Comparisons of integers

A row keeps an integer of 64 bits as it is, and so does a literal, but the two are compared through
the doubles nearest to them.  The answer to any question about the integer is therefore the answer
to the same question about its place among the doubles (`Leaf.answer?_integer`), and this is the
answer to the question that was asked as long as rounding keeps the integers apart.

Nothing else goes wrong.  A field answers every question about its integer exactly if no operand has
the same double without being the same integer, and two fields are compared exactly under the same
condition (`Compiler.integers_exact_iff`).  Up to `2 ^ 53` it always holds
(`Compiler.integers_exact_of_le`); the next integer already equals its predecessor
(`Compiler.integers_not_always_exact`).
-/

namespace EntityFilter

/-! ## Questions about integers -/

/-- The relation of integers that an operator asks for. -/
def CompareOp.relates (op : CompareOp) (m n : Int) : Bool :=
  match op with
  | eq => m = n
  | neq => m ≠ n
  | gt => n < m
  | gte => n ≤ m
  | lt => m < n
  | lte => m ≤ n

/-- What can be asked of an integer: how it compares with another, whether it is among others, and
whether it lies in a range. -/
inductive IntegerQuestion where
  | compare (op : CompareOp) (n : Int)
  | member (negated : Bool) (ns : List Int)
  | between (low high : Int)

namespace IntegerQuestion

/-- The name of the operator that asks. -/
def operator : IntegerQuestion → String
  | compare op _ => op.name
  | member negated _ => OperatorFamily.memberName negated
  | between _ _ => "between"

/-- The integers that a question mentions. -/
def operands : IntegerQuestion → List Int
  | compare _ n => [n]
  | member _ ns => ns
  | between low high => [low, high]

/-- The operand of the operator. -/
def operand : IntegerQuestion → Literal
  | compare _ n => .int n
  | member _ ns => .list (ns.map .int)
  | between low high => .list [.int low, .int high]

/-- The leaf that asks. -/
def leaf (q : IntegerQuestion) : Leaf := .single q.operator q.operand

/-- The answer for an integer. -/
def holds (m : Int) : IntegerQuestion → Bool
  | compare op n => op.relates m n
  | member negated ns => decide (m ∈ ns) != negated
  | between low high => low ≤ m ∧ m ≤ high

/-- The question about other integers instead. -/
def map (f : Int → Int) : IntegerQuestion → IntegerQuestion
  | compare op n => compare op (f n)
  | member negated ns => member negated (ns.map f)
  | between low high => between (f low) (f high)

end IntegerQuestion

/-! ## Questions about places -/

section

open Binary64

variable {m n : Int} {q : IntegerQuestion}

lemma CompareOp.holds_compare (op : CompareOp) (m n : Int) :
    op.holds (compare m n) = op.relates m n := by
  rcases lt_trichotomy m n with h | rfl | h
  · rw [compare_lt_iff_lt.mpr h]
    cases op <;> simp [holds, relates, h, h.le, h.ne, h.not_gt]
  · rw [compare_eq_iff_eq.mpr rfl]
    cases op <;> simp [holds, relates]
  · rw [compare_gt_iff_gt.mpr h]
    cases op <;> simp [holds, relates, h, h.le, h.ne', h.not_gt]

lemma CompareOp.relates_keyOfInt (op : CompareOp) (h : keyOfInt m = keyOfInt n → m = n) :
    op.relates (keyOfInt m) (keyOfInt n) = op.relates m n := by
  rw [← holds_compare, ← holds_compare, compare_keyOfInt h]

/-- **The same question about places** has the same answer, if no operand is another integer with the
same place. -/
lemma IntegerQuestion.holds_map_keyOfInt (h : ∀ n ∈ q.operands, keyOfInt m = keyOfInt n → m = n) :
    (q.map keyOfInt).holds (keyOfInt m) = q.holds m := by
  cases q with
  | compare op n => exact op.relates_keyOfInt (h n (List.mem_singleton.mpr rfl))
  | member negated ns =>
    have hmem : keyOfInt m ∈ ns.map keyOfInt ↔ m ∈ ns := by
      constructor
      · intro hkey
        obtain ⟨n, hn, hsame⟩ := List.mem_map.mp hkey
        rwa [h n hn hsame.symm]
      · exact List.mem_map_of_mem
    simp only [map, holds, hmem]
  | between low high =>
    have hlow : CompareOp.gte.relates (keyOfInt m) (keyOfInt low) = CompareOp.gte.relates m low :=
      CompareOp.gte.relates_keyOfInt (h low (by simp [operands]))
    have hhigh : CompareOp.lte.relates (keyOfInt m) (keyOfInt high) =
        CompareOp.lte.relates m high := CompareOp.lte.relates_keyOfInt (h high (by simp [operands]))
    simp only [CompareOp.relates, decide_eq_decide] at hlow hhigh
    simp only [map, holds, hlow, hhigh]

end

/-! ## What is answered -/

/-- The kinds whose values may be integers. -/
def FieldKind.holdsIntegers (kind : FieldKind) : Bool := kind.isNumeric || kind.isIdentifier

namespace FieldKind

variable {kind : FieldKind}

lemma family_of_holdsIntegers (h : kind.holdsIntegers) :
    kind.family = .numeric ∨ kind.family = .identifier := by
  cases kind <;> simp [holdsIntegers, isNumeric, isIdentifier, family] at h ⊢

lemma hasMembership_of_holdsIntegers (h : kind.holdsIntegers) : kind.family.hasMembership := by
  rcases family_of_holdsIntegers h with hfamily | hfamily <;> rw [hfamily] <;> rfl

lemma fits_int_of_holdsIntegers (h : kind.holdsIntegers) (n : Int) : kind.family.fits (.int n) := by
  rcases family_of_holdsIntegers h with hfamily | hfamily <;> rw [hfamily] <;> rfl

lemma isSome_eq_of_holdsIntegers (h : kind.holdsIntegers) : (kind.family.operator? "eq").isSome := by
  rcases family_of_holdsIntegers h with hfamily | hfamily <;> rw [hfamily] <;> rfl

lemma not_isArray_of_holdsIntegers (h : kind.holdsIntegers) : kind.isArray = false := by
  cases kind <;> simp [holdsIntegers, isNumeric, isIdentifier, isArray] at h ⊢

end FieldKind

open Binary64

namespace Literal

variable {m : Int} (hm : (Document.int m).isInt64)
include hm

lemma admits_int (op : CompareOp) (n : Int) :
    (int n).admits op (some (.int m)) = op.relates (keyOfInt m) (keyOfInt n) := by
  rw [admits, Option.bind_some, orderOf?_int hm, Option.any_some, CompareOp.holds_compare]

lemma equals_int (n : Int) : equals (.int m) (int n) = decide (keyOfInt m = keyOfInt n) := by
  rw [equals, orderOf?_int hm, Bool.eq_iff_iff, beq_iff_eq, Option.some_inj, compare_eq_iff_eq,
    decide_eq_true_iff]

end Literal

namespace Leaf

variable {kind : FieldKind} {now : Instant} {path : FieldPath} {row : Document} {m : Int}
  {q : IntegerQuestion}

/-- **What is asked about an integer** is answered for its place among the doubles. -/
theorem answer?_integer (hkind : kind.holdsIntegers)
    (hq : (kind.family.operator? q.operator).isSome) (hm : (Document.int m).isInt64)
    (hvalue : row.fieldValue? path = some (.int m)) :
    q.leaf.answer? kind now path row = some ((q.map keyOfInt).holds (keyOfInt m)) := by
  have hfits := FieldKind.fits_int_of_holdsIntegers hkind
  have hmember := FieldKind.hasMembership_of_holdsIntegers hkind
  have hcoerce : ∀ n, kind.coerce (.int n) = .int n := fun n =>
    FieldKind.coerce_of_not_isTemporal (FieldKind.not_isTemporal_of_hasMembership hmember) _
  cases q with
  | compare op n =>
    have hanswer := @answer?_compare kind now path row _ op hq (hfits n) rfl
    rw [hvalue, hcoerce, Literal.admits_int hm] at hanswer
    exact hanswer
  | member negated ns =>
    have hall : (ns.map Literal.int).all kind.family.fits := by simpa using fun n _ => hfits n
    have hanswer := @answer?_member kind now path row _ hmember hall negated
    have hsearch : (ns.map Literal.int).any (Literal.equals (.int m)) =
        decide (keyOfInt m ∈ ns.map keyOfInt) := by
      rw [Bool.eq_iff_iff, List.any_map]
      simp only [List.any_eq_true, Function.comp_apply, Literal.equals_int hm, decide_eq_true_iff,
        List.mem_map]
      exact exists_congr fun n => and_congr_right fun _ => eq_comm
    rw [hvalue, Option.any_some, hsearch] at hanswer
    exact hanswer
  | between low high =>
    have hordered : kind.family.isOrdered :=
      OperatorFamily.isOrdered_of_operator? (by simp [IntegerQuestion.operator]) hq
    have hanswer := @answer?_between kind now path row _ _ hordered (hfits low) (hfits high)
    rw [hvalue, hcoerce, hcoerce, Literal.admits_int hm, Literal.admits_int hm] at hanswer
    simp only [CompareOp.relates, ← Bool.decide_and] at hanswer
    exact hanswer

end Leaf

namespace Compiler

variable {c : Compiler} {s : Scope} {a b : String} {f g : Field} {row : Document} {m n : Int}
  {q : IntegerQuestion}

section

variable (hf : s.entity.field? a = some f)
  (hvalue : row.fieldValue? (s.fieldPath a) = some (.int m))
include hf hvalue

lemma fieldAnswer?_integer (hkind : f.kind.holdsIntegers) (hm : (Document.int m).isInt64)
    (hq : (f.kind.family.operator? q.operator).isSome) :
    c.fieldAnswer? s a q.leaf row = some ((q.map keyOfInt).holds (keyOfInt m)) := by
  rw [fieldAnswer?_eq hf (FieldKind.not_isArray_of_holdsIntegers hkind)]
  exact Leaf.answer?_integer hkind hq hm hvalue

lemma comparisonAnswer?_integer (hg : s.entity.field? b = some g)
    (hfamily : f.kind.family.isComparableWith g.kind.family)
    (hother : row.fieldValue? (s.fieldPath b) = some (.int n)) (op : CompareOp) :
    comparisonAnswer? s ⟨a, op, b⟩ row = some (op.relates (keyOfInt m) (keyOfInt n)) := by
  have horder : (Document.int m).compare? (.int n) = some (compare (keyOfInt m) (keyOfInt n)) := by
    simp [Document.compare?, Document.numberKey?]
  rw [comparisonAnswer?_eq op hf hg hfamily hvalue hother, horder, Option.any_some,
    CompareOp.holds_compare]

/-- **Integers up to `2 ^ 53` are compared exactly.** -/
theorem integers_exact_of_le (hkind : f.kind.holdsIntegers) (hm : m.natAbs ≤ 2 ^ 53)
    (hoperands : ∀ n ∈ q.operands, n.natAbs ≤ 2 ^ 53)
    (hq : (f.kind.family.operator? q.operator).isSome) :
    c.fieldAnswer? s a q.leaf row = some (q.holds m) := by
  have hint : (Document.int m).isInt64 := by
    simp only [Document.isInt64, Bool.and_eq_true, decide_eq_true_eq]
    simp only [minInt64, maxInt64]
    omega
  rw [fieldAnswer?_integer hf hvalue hkind hint hq,
    IntegerQuestion.holds_map_keyOfInt fun n hn => keyOfInt_inj hm (hoperands n hn)]

/-- **When integers are compared exactly.**  Every question about an integer in a field is answered
for its place among the doubles.  All answers are right exactly if no operand in question is another
integer with the same place, and two fields are compared rightly under the same condition. -/
theorem integers_exact_iff (hkind : f.kind.holdsIntegers) (hm : (Document.int m).isInt64)
    (ns : List Int) :
    (∀ q : IntegerQuestion, (f.kind.family.operator? q.operator).isSome →
      c.fieldAnswer? s a q.leaf row = some ((q.map keyOfInt).holds (keyOfInt m))) ∧
    ((∀ q : IntegerQuestion, (f.kind.family.operator? q.operator).isSome → q.operands ⊆ ns →
        c.fieldAnswer? s a q.leaf row = some (q.holds m)) ↔
      ∀ n ∈ ns, keyOfInt m = keyOfInt n → m = n) ∧
    ∀ (b : String) (g : Field) (n : Int), s.entity.field? b = some g →
      f.kind.family.isComparableWith g.kind.family →
      row.fieldValue? (s.fieldPath b) = some (.int n) →
      ((∀ op, comparisonAnswer? s ⟨a, op, b⟩ row = some (op.relates m n)) ↔
        (keyOfInt m = keyOfInt n → m = n)) := by
  have hanswer : ∀ q : IntegerQuestion, (f.kind.family.operator? q.operator).isSome →
      c.fieldAnswer? s a q.leaf row = some ((q.map keyOfInt).holds (keyOfInt m)) := fun q hq =>
    fieldAnswer?_integer hf hvalue hkind hm hq
  refine ⟨hanswer, ⟨fun hexact n hn hsame => ?_, fun hplaces q hq hoperands => ?_⟩,
    fun b g n hg hfamily hother => ⟨fun hexact hsame => ?_, fun hplaces op => ?_⟩⟩
  · have heq : (f.kind.family.operator? (IntegerQuestion.compare .eq n).operator).isSome :=
      FieldKind.isSome_eq_of_holdsIntegers hkind
    have hright := hexact (.compare .eq n) heq (by simpa [IntegerQuestion.operands] using hn)
    rw [hanswer _ heq] at hright
    simpa [IntegerQuestion.map, IntegerQuestion.holds, CompareOp.relates, hsame] using hright
  · rw [hanswer q hq, IntegerQuestion.holds_map_keyOfInt fun n hn => hplaces n (hoperands hn)]
  · have hright := hexact .eq
    rw [comparisonAnswer?_integer hf hvalue hg hfamily hother] at hright
    simpa [CompareOp.relates, hsame] using hright
  · rw [comparisonAnswer?_integer hf hvalue hg hfamily hother, op.relates_keyOfInt hplaces]

end

end Compiler

namespace Ledger

/-- An entry of a ledger has a number, and the number of the entry that it refers to. -/
def entry : Entity :=
  (Entity.withField { name := "Entry" } { name := "serial", kind := .bigInt }).withField
    { name := "refers", kind := .bigInt }

def scope : Scope := { entity := entry }

def compiler : Compiler :=
  { catalog := Catalog.withEntity {} entry
    settings := {}
    now := ⟨0, 0⟩ }

/-- The first entry whose number has no double of its own, which refers to the one before. -/
def late : Document := .object [("serial", .int 9007199254740993), ("refers", .int 9007199254740992)]

end Ledger

namespace Compiler

/-- The late entry is told from the second one before it, and not from the one that it refers to. -/
theorem integers_exact_iff_late :
    (∀ q : IntegerQuestion, (FieldKind.bigInt.family.operator? q.operator).isSome →
      q.operands ⊆ [9007199254740991] →
      Ledger.compiler.fieldAnswer? Ledger.scope "serial" q.leaf Ledger.late =
        some (q.holds 9007199254740993)) ∧
    ¬∀ op, comparisonAnswer? Ledger.scope ⟨"serial", op, "refers"⟩ Ledger.late =
      some (op.relates 9007199254740993 9007199254740992) := by
  have hf : Ledger.scope.entity.field? "serial" = some { name := "serial", kind := .bigInt } := rfl
  obtain ⟨-, hleaf, hfields⟩ := @integers_exact_iff Ledger.compiler Ledger.scope "serial" _
    Ledger.late 9007199254740993 hf rfl rfl rfl [9007199254740991]
  refine ⟨hleaf.mpr (by decide), fun hexact => ?_⟩
  have hsame := (hfields "refers" _ 9007199254740992 rfl rfl rfl).mp hexact (by decide)
  exact absurd hsame (by decide)

/-- Two numbers that have the same double are taken for equal. -/
theorem integers_not_always_exact :
    ¬∀ (c : Compiler) (s : Scope) (a : String) (f : Field) (row : Document) (m : Int)
      (q : IntegerQuestion), s.entity.field? a = some f →
      (f.kind.isIntegral ∨ f.kind.isIdentifier) → (Document.int m).isInt64 →
      (∀ n ∈ q.operands, (Document.int n).isInt64) →
      row.fieldValue? (s.fieldPath a) = some (.int m) →
      (f.kind.family.operator? q.operator).isSome →
      c.fieldAnswer? s a q.leaf row = some (q.holds m) := by
  intro h
  have hequal := h Ledger.compiler Ledger.scope "serial" _ Ledger.late 9007199254740993
    (.compare .eq 9007199254740992) rfl (.inl rfl) rfl (by decide) rfl rfl
  exact absurd hequal (by decide)

end Compiler

end EntityFilter
