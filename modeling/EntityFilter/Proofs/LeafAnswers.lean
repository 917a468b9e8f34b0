import EntityFilter.Proofs.UnequalValues

/-!
# What leaves answer

A leaf on a field has an answer for each row, yes or no, or it has none at all: then no operator of
it makes a condition that applies to the field, and the leaf constrains nothing.  Whether there is
an answer does not depend on the row.

The answer of a leaf is the conjunction of the answers that its operators give one by one
(`Leaf.answer?_eq`), so it is enough to know the latter.  The lemmas here compute them, family by
family no more than the table of operators needs: for comparisons (`Leaf.answer?_compare`), for the
search among several values (`Leaf.answer?_member`) and for ranges (`Leaf.answer?_between`).  What is
compared with the value is the operand, turned into a date or an instant if the field holds these
(`FieldKind.coerce`).  Two fields are compared as the documents that they are
(`Compiler.comparisonAnswer?_eq`).
-/

namespace EntityFilter

/-! ## Operands as a kind takes them -/

namespace FieldKind

/-- A literal with what writes a date or an instant turned into one, for a field of these. -/
def coerce (kind : FieldKind) (v : Literal) : Literal :=
  match kind with
  | .dateTime => v.coerceInstant
  | .date => v.coerceDate
  | _ => v

variable {kind : FieldKind}

lemma isNull_coerce (kind : FieldKind) (v : Literal) : (kind.coerce v).isNull = v.isNull := by
  unfold coerce
  split
  · exact v.coerceInstant_keeps.1
  · exact v.coerceDate_keeps.1
  · rfl

lemma coerce_pair (kind : FieldKind) (low high : Literal) :
    kind.coerce (.list [low, high]) = .list [kind.coerce low, kind.coerce high] := by
  cases kind with
  | dateTime => simp [coerce, Literal.coerceInstant, Literal.coerceInstants]
  | date => simp [coerce, Literal.coerceDate, Literal.coerceDates]
  | _ => rfl

lemma coerce_of_not_isTemporal (h : kind.isTemporal = false) (v : Literal) : kind.coerce v = v := by
  cases kind with
  | date | dateTime => simp [isTemporal] at h
  | _ => rfl

lemma family_of_isTemporal (h : kind.isTemporal) : kind.family = .temporal := by
  cases kind with
  | date | dateTime => rfl
  | _ => simp [isTemporal] at h

lemma not_isTemporal_of_hasMembership (h : kind.family.hasMembership) : kind.isTemporal = false := by
  cases kind with
  | date | dateTime => simp [family, OperatorFamily.hasMembership] at h
  | _ => rfl

end FieldKind

lemma Condition.coerced_eq (cond : Condition) (kind : FieldKind) :
    cond.coerced kind = kind.coerce cond.operand := by
  cases kind <;> rfl

/-! ## Operators in the table -/

namespace OperatorFamily

variable {family : OperatorFamily} {v low high : Literal} {vs : List Literal}

/-- A comparison stands in the table under its own name, and takes one value. -/
lemma compare_of_operator? {op : CompareOp} (h : (family.operator? op.name).isSome) :
    ∃ info, family.operator? op.name = some info ∧ info.operator = .compare op ∧
      (info.shape = .value ∨ info.shape = .ordered) := by
  have hall : ∀ (family : OperatorFamily) (op : CompareOp),
      (family.operator? op.name).all fun info => info.operator = .compare op ∧
        (info.shape = .value ∨ info.shape = .ordered) := by
    intro family op
    cases family <;> cases op <;> decide
  obtain ⟨info, hinfo⟩ := Option.isSome_iff_exists.mp h
  have hrow := hall family op
  rw [hinfo, Option.all_some, decide_eq_true_eq] at hrow
  exact ⟨info, hinfo, hrow⟩

/-- The name of the search among several values, or of its negation. -/
def memberName (negated : Bool) : String := if negated then "not_in" else "in"

lemma member_of_hasMembership (h : family.hasMembership) (negated : Bool) :
    ∃ info, family.operator? (memberName negated) = some info ∧
      info.operator = .member negated ∧ info.shape = .list := by
  cases family with
  | text | numeric | identifier => cases negated <;> exact ⟨_, rfl, rfl, rfl⟩
  | _ => simp [hasMembership] at h

/-- The families whose values are ordered, and can be asked to lie between two others. -/
def isOrdered : OperatorFamily → Bool
  | numeric | temporal => true
  | _ => false

lemma between_of_isOrdered (h : family.isOrdered) :
    ∃ info, family.operator? "between" = some info ∧ info.operator = .between ∧
      info.shape = .range := by
  cases family with
  | numeric | temporal => exact ⟨_, rfl, rfl, rfl⟩
  | _ => simp [isOrdered] at h

lemma isOrdered_of_operator? {name : String} (hname : name ∈ ["gt", "gte", "lt", "lte", "between"])
    (h : (family.operator? name).isSome) : family.isOrdered := by
  have hall : ∀ family : OperatorFamily, ∀ name ∈ ["gt", "gte", "lt", "lte", "between"],
      (family.operator? name).isSome → family.isOrdered := by
    intro family
    cases family <;> decide
  exact hall family name hname h

lemma shaped?_of_fits {shape : OperandShape} (hv : family.fits v) (hnull : v.isNull = false)
    (hshape : shape = .value ∨ shape = .ordered) : family.shaped? shape v = some v := by
  rcases hshape with rfl | rfl
  · cases v with
    | null => simp [Literal.isNull] at hnull
    | list items => cases family <;> simp [fits] at hv
    | _ => simp [shaped?, hv]
  · simp [shaped?, hv]

lemma isNull_of_fits (hfamily : family.isOrdered ∨ family.hasMembership) (hv : family.fits v) :
    v.isNull = false := by
  cases v with
  | null => cases family <;> simp [isOrdered, hasMembership, fits] at hfamily hv
  | _ => rfl

end OperatorFamily

/-! ## Answers -/

/-- The value of a field; null is no value. -/
def Document.fieldValue? (row : Document) (path : FieldPath) : Option Document :=
  (Operand.field path).value? (.ofRow row)

lemma Document.fieldValue?_eq_none_iff {row : Document} {path : FieldPath} :
    row.fieldValue? path = none ↔ row.Lacks path :=
  Operand.value?_eq_none_iff

lemma Document.fieldValue?_of_readField? {row d : Document} {path : FieldPath}
    (h : row.readField? path = some d) (hd : d.isNull = false) : row.fieldValue? path = some d := by
  have hfind : (Operand.field path).find? (.ofRow row) = some d := h
  rw [fieldValue?, Operand.value?, hfind]
  cases d <;> simp [isNull] at hd ⊢

/-- Any document can stand in a field. -/
lemma Document.exists_readField? (path : FieldPath) (d : Document) :
    ∃ row : Document, row.readField? path = some d := by
  have hfollow : ∀ segments : List String, ∃ row, Document.follow? segments row = some d := by
    intro segments
    induction segments with
    | nil => exact ⟨d, rfl⟩
    | cons name segments ih =>
      obtain ⟨inner, hinner⟩ := ih
      exact ⟨.object [(name, inner)], by simpa [follow?, get?, Entries.get?] using hinner⟩
  exact hfollow path.segments

namespace Leaf

/-- What a leaf on a field answers for a row; without a condition that applies there is none. -/
def answer? (l : Leaf) (kind : FieldKind) (now : Instant) (path : FieldPath) (row : Document) :
    Option Bool :=
  (l.predicate? (.field path) kind now).map (·.holdsOf row)

variable {l : Leaf} {kind : FieldKind} {now : Instant} {path : FieldPath} {row : Document}
  {name : String} {operand shaped v low high : Literal} {vs : List Literal} {info : OperatorInfo}

lemma answer?_eq_map_test? (l : Leaf) (kind : FieldKind) (now : Instant) (path : FieldPath)
    (row : Document) :
    l.answer? kind now path row = (l.test? true kind now).map (· (row.fieldValue? path)) :=
  l.map_holds_predicate?_field path

/-- The answer of one operator is that of its condition. -/
lemma answer?_single (name : String) (operand : Literal) :
    (single name operand).answer? kind now path row =
      ((Condition.ofOperator? kind.family name operand).bind (·.test? true kind now)).map
        (· (row.fieldValue? path)) := by
  have hentries : (single name operand).operators.entries = [(name, operand)] := rfl
  rw [answer?_eq_map_test?, test?, conditions, hentries, map_allOf?]
  cases hof : Condition.ofOperator? kind.family name operand with
  | none => simp [hof, conjoined?]
  | some cond => cases htest : cond.test? true kind now <;> simp [hof, htest, conjoined?]

/-- **A leaf answers what its operators answer one by one.** -/
theorem answer?_eq (l : Leaf) (kind : FieldKind) (now : Instant) (path : FieldPath)
    (row : Document) :
    l.answer? kind now path row =
      conjoined? (l.operators.entries.filterMap fun x =>
        (single x.1 x.2).answer? kind now path row) := by
  rw [answer?_eq_map_test?, test?, conditions, map_allOf?, List.filterMap_filterMap,
    List.map_filterMap]
  simp only [answer?_single]

/-- The answer of an operator that constrains the value itself. -/
lemma answer?_of_simpleTest? {test : ValueTest} (hinfo : kind.family.operator? name = some info)
    (hshaped : kind.family.shaped? info.shape operand = some shaped)
    (hop : info.operator.readsNumber = false)
    (htest : (Condition.mk info shaped).simpleTest? kind now = some test) :
    (single name operand).answer? kind now path row = some (test (row.fieldValue? path)) := by
  have hof : Condition.ofOperator? kind.family name operand = some ⟨info, shaped⟩ := by
    simp [Condition.ofOperator?, hinfo, hshaped]
  have hsame : (Condition.mk info shaped).test? true kind now = some test := by
    rw [← htest]
    unfold Condition.test?
    split <;> simp_all [Operator.readsNumber]
  rw [answer?_single, hof, Option.bind_some, hsame, Option.map_some]

/-- **What a comparison answers**: the value has an order against the operand, and the right one. -/
lemma answer?_compare (op : CompareOp) (hop : (kind.family.operator? op.name).isSome)
    (hv : kind.family.fits v) (hnull : v.isNull = false) :
    (single op.name v).answer? kind now path row =
      some ((kind.coerce v).admits op (row.fieldValue? path)) := by
  obtain ⟨info, hinfo, hcompare, hshape⟩ := OperatorFamily.compare_of_operator? hop
  refine answer?_of_simpleTest? hinfo (OperatorFamily.shaped?_of_fits hv hnull hshape)
    (by rw [hcompare]; rfl) ?_
  have hcoerced : (kind.coerce v).isNull = false := (kind.isNull_coerce v).trans hnull
  have hcompares : (kind.coerce v).compares op = (kind.coerce v).admits op := by
    cases hcoerce : kind.coerce v with
    | null => simp [hcoerce, Literal.isNull] at hcoerced
    | _ => cases op <;> rfl
  simp only [Condition.simpleTest?, hcompare, Condition.coerced_eq, hcompares]

/-- **What the search among several values answers**, or its negation. -/
lemma answer?_member (hfamily : kind.family.hasMembership) (hvs : vs.all kind.family.fits)
    (negated : Bool) :
    (single (OperatorFamily.memberName negated) (.list vs)).answer? kind now path row =
      some ((row.fieldValue? path).any fun d => vs.any (Literal.equals d) != negated) := by
  obtain ⟨info, hinfo, hmember, hshape⟩ := OperatorFamily.member_of_hasMembership hfamily negated
  have hshaped : kind.family.shaped? info.shape (.list vs) = some (.list vs) := by
    rw [hshape]
    simp [OperatorFamily.shaped?, Literal.toList, hvs]
  refine answer?_of_simpleTest? hinfo hshaped (by rw [hmember]; rfl) ?_
  simp only [Condition.simpleTest?, hmember, Condition.coerced_eq,
    FieldKind.coerce_of_not_isTemporal (FieldKind.not_isTemporal_of_hasMembership hfamily),
    Literal.toList]

/-- **What a range answers**: both of its ends are kept. -/
lemma answer?_between (hfamily : kind.family.isOrdered) (hlow : kind.family.fits low)
    (hhigh : kind.family.fits high) :
    (single "between" (.list [low, high])).answer? kind now path row =
      some ((kind.coerce low).admits .gte (row.fieldValue? path) &&
        (kind.coerce high).admits .lte (row.fieldValue? path)) := by
  obtain ⟨info, hinfo, hbetween, hshape⟩ := OperatorFamily.between_of_isOrdered hfamily
  have hshaped : kind.family.shaped? info.shape (.list [low, high]) = some (.list [low, high]) := by
    rw [hshape]
    simp [OperatorFamily.shaped?, hlow, hhigh]
  have htest : (Condition.mk info (.list [low, high])).simpleTest? kind now =
      some fun value => (kind.coerce low).admits .gte value &&
        (kind.coerce high).admits .lte value := by
    simp only [Condition.simpleTest?, hbetween, Condition.coerced_eq, FieldKind.coerce_pair]
  exact answer?_of_simpleTest? hinfo hshaped (by rw [hbetween]; rfl) htest

end Leaf

/-! ## Fields of an entity -/

namespace Compiler

/-- What a leaf on a field of an entity answers for a row. -/
def fieldAnswer? (c : Compiler) (s : Scope) (name : String) (l : Leaf) (row : Document) :
    Option Bool :=
  (c.fieldPredicate? s name l).map (·.holdsOf row)

/-- What a comparison of two fields of an entity answers for a row. -/
def comparisonAnswer? (s : Scope) (cmp : FieldComparison) (row : Document) : Option Bool :=
  (comparisonPredicate? s cmp).map (·.holdsOf row)

variable {c : Compiler} {s : Scope} {a b : String} {f g : Field} {l : Leaf} {row x y : Document}

lemma fieldAnswer?_eq (hf : s.entity.field? a = some f) (hkind : f.kind.isArray = false) :
    c.fieldAnswer? s a l row = l.answer? f.kind c.now (s.fieldPath a) row := by
  simp only [fieldAnswer?, fieldPredicate?, hf, hkind, Bool.false_and, Bool.false_eq_true, if_false]
  rfl

/-- **What a comparison of fields answers**: the documents have an order, and the right one. -/
lemma comparisonAnswer?_eq (op : CompareOp) (hf : s.entity.field? a = some f)
    (hg : s.entity.field? b = some g) (hfamily : f.kind.family.isComparableWith g.kind.family)
    (hx : row.fieldValue? (s.fieldPath a) = some x)
    (hy : row.fieldValue? (s.fieldPath b) = some y) :
    comparisonAnswer? s ⟨a, op, b⟩ row = some ((x.compare? y).any op.holds) := by
  simp only [Document.fieldValue?] at hx hy
  simp only [comparisonAnswer?, comparisonPredicate?, hf, hg, hfamily, if_true, Option.map_some,
    Predicate.holdsOf, Predicate.holds, hx, hy]

end Compiler

end EntityFilter
