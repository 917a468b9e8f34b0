import EntityFilter.Proofs.LeafReads
import EntityFilter.Proofs.LeafTruth

/-!
# Values that are missing

A test of a value that is missing, or null, fails; the tests for null are the exceptions that are
meant.  There is one more.  A named period with the operand `false` is compiled to the negation of
the test that the value lies in the period, and where there is no value that test fails, so its
negation is passed: a row without a date is outside of every period.  The other operators that say
no, `neq` and `not_in`, ask for a value that is there.

A condition either admits a missing value or fails on it (`Condition.admitsMissing`), and a leaf
holds of a row without the value exactly if all of its conditions that say something admit it
(`Leaf.holdsOf_lacking`).  If nothing in the leaf asks for null, they do exactly if each of them asks
for a value outside of some period (`Leaf.holdsOf_lacking_iff`).
-/

namespace EntityFilter

/-- Whether the field is missing in a row, or null. -/
def Document.Lacks (row : Document) (path : FieldPath) : Prop :=
  row.readField? path = none ∨ row.readField? path = some .null

/-- A row has no value for a field exactly if it lacks the field. -/
lemma Operand.value?_eq_none_iff {row : Document} {path : FieldPath} :
    (Operand.field path).value? (.ofRow row) = none ↔ row.Lacks path := by
  simp only [Operand.value?, Operand.find?, RowContext.ofRow, Document.Lacks]
  split <;> simp_all

lemma Operand.readField?_of_value? {row d : Document} {path : FieldPath}
    (h : (Operand.field path).value? (.ofRow row) = some d) : row.readField? path = some d := by
  simp only [Operand.value?, Operand.find?, RowContext.ofRow] at h
  split at h
  · simp at h
  · exact h

/-! ## What conditions say of a missing value -/

/-- Whether an operator asks for a value in a named period, or outside of it. -/
def Operator.isPeriod : Operator → Bool
  | period _ => true
  | _ => false

namespace Condition

/-- Whether a condition asks whether the value is null. -/
def asksNull (c : Condition) : Bool :=
  match c.info.operator with
  | .isNull => true
  | .compare .eq | .compare .neq => c.operand.isNull
  | _ => false

/-- Whether a condition asks for a value outside of a named period. -/
def isOutside (c : Condition) : Bool :=
  c.info.operator.isPeriod && c.operand.asBool? == some false

/-- Whether a condition asks for null. -/
def wantsNull (c : Condition) : Bool :=
  match c.info.operator with
  | .isNull => c.operand.asBool? == some true
  | .compare .eq => c.operand.isNull
  | _ => false

/-- The conditions on a number that is read off the value. -/
def inner (c : Condition) : List Condition :=
  match c.info.operator, c.operand with
  | .part _, .document d | .length, .document d => (Leaf.ofDocument d).conditions .numeric
  | _, _ => []

/-- Whether a missing value passes a condition.  A number that would be read off it is missing. -/
def admitsMissing (c : Condition) : Bool :=
  match c.inner with
  | [] => c.wantsNull || c.isOutside
  | conds => conds.all wantsNull

end Condition

/-- Whether a leaf asks somewhere whether a value is null. -/
def Leaf.asksNull (family : OperatorFamily) (l : Leaf) : Bool :=
  (l.conditions family).any fun c => c.asksNull || c.inner.any Condition.asksNull

/-! ## Tests of a missing value -/

namespace Literal

/-- What is null, true or false stays so when it is coerced, and nothing else becomes so. -/
lemma coerceDate_keeps (v : Literal) :
    v.coerceDate.isNull = v.isNull ∧ v.coerceDate.asBool? = v.asBool? := by
  cases v with
  | text s =>
    rw [coerceDate]
    split <;> exact ⟨rfl, rfl⟩
  | list items =>
    rw [coerceDate]
    exact ⟨rfl, rfl⟩
  | _ => exact ⟨rfl, rfl⟩

lemma coerceInstant_keeps (v : Literal) :
    v.coerceInstant.isNull = v.isNull ∧ v.coerceInstant.asBool? = v.asBool? := by
  cases v with
  | text s =>
    rw [coerceInstant]
    split <;> exact ⟨rfl, rfl⟩
  | list items =>
    rw [coerceInstant]
    exact ⟨rfl, rfl⟩
  | _ => exact ⟨rfl, rfl⟩

lemma admits_none (op : CompareOp) (v : Literal) : v.admits op none = false := rfl

lemma compares_none (op : CompareOp) (v : Literal) :
    v.compares op none = (v.isNull && op == .eq) := by
  cases op <;> cases v <;> rfl

end Literal

lemma Period.admits_none (p : Period) (hasTime : Bool) : p.admits hasTime none = false := rfl

namespace Condition

variable {cond : Condition} {kind : FieldKind} {now : Instant} {test : ValueTest} {l : Leaf}

lemma coerced_keeps (cond : Condition) (kind : FieldKind) :
    (cond.coerced kind).isNull = cond.operand.isNull ∧
      (cond.coerced kind).asBool? = cond.operand.asBool? := by
  unfold coerced
  split
  · exact Literal.coerceInstant_keeps _
  · exact Literal.coerceDate_keeps _
  · exact ⟨rfl, rfl⟩

/-- **A missing value passes a test of the value itself** if null is asked for, or a value outside
of a period, and no other. -/
lemma simpleTest?_none (h : cond.simpleTest? kind now = some test) :
    test none = (cond.wantsNull || cond.isOutside) := by
  cases hop : cond.info.operator with
  | compare op =>
    simp only [simpleTest?, hop, Option.some.injEq] at h
    subst h
    rw [Literal.compares_none, (coerced_keeps cond kind).1]
    cases op <;> simp [wantsNull, isOutside, Operator.isPeriod, hop]
  | member negated =>
    simp only [simpleTest?, hop, Option.some.injEq] at h
    subst h
    simp [wantsNull, isOutside, Operator.isPeriod, hop]
  | between =>
    simp only [simpleTest?, hop] at h
    split at h
    · obtain rfl := Option.some.inj h
      simp [wantsNull, isOutside, Operator.isPeriod, hop, Literal.admits_none]
    · simp at h
  | isNull =>
    simp only [simpleTest?, hop, (coerced_keeps cond kind).2] at h
    obtain ⟨missing, hmissing, rfl⟩ := Option.map_eq_some_iff.mp h
    cases missing <;> simp [wantsNull, isOutside, Operator.isPeriod, hop, hmissing]
  | period s =>
    simp only [simpleTest?, hop, (coerced_keeps cond kind).2] at h
    obtain ⟨inside, hinside, rfl⟩ := Option.map_eq_some_iff.mp h
    cases inside <;>
      simp [wantsNull, isOutside, Operator.isPeriod, hop, hinside, Period.admits_none]
  | text | regex | keys =>
    simp only [simpleTest?, hop] at h
    obtain ⟨_, -, rfl⟩ := Option.map_eq_some_iff.mp h
    simp [wantsNull, isOutside, Operator.isPeriod, hop]
  | array how =>
    simp only [simpleTest?, hop, Option.some.injEq] at h
    subst h
    simp [wantsNull, isOutside, Operator.isPeriod, hop]
  | part | length => simp [simpleTest?, hop] at h

/-- Conditions on a number ask for no period, and all of them say something. -/
lemma of_mem_conditions_numeric (h : cond ∈ l.conditions .numeric) :
    cond.isOutside = false ∧ (cond.simpleTest? .int now).isSome := by
  have hall : ∀ info ∈ OperatorFamily.numeric.operators,
      info.operator.isPeriod = false ∧ info.operator.readsNumber = false := by decide
  obtain ⟨⟨name, operand⟩, -, hof⟩ := List.mem_filterMap.mp h
  obtain ⟨hm, -, -⟩ := ofOperator?_eq_some hof
  obtain ⟨hperiod, hnumber⟩ := hall cond.info hm
  constructor
  · simp [isOutside, hperiod]
  · have hsome : (cond.simplePredicate? (.field (.single "")) .int now).isSome :=
      isSome_simplePredicate? hof hnumber
    have hmap := @map_holds_simplePredicate? (.ofRow .null) (.field (.single "")) .int now cond
    rw [← Option.isSome_map, hmap, Option.isSome_map] at hsome
    exact hsome

end Condition

/-- All tests that items make are passed by the same value, item by item. -/
lemma allOf?_filterMap_iff {α ι : Type} {items : List ι} {f : ι → Option (α → Bool)}
    {g : ι → Bool} {test : α → Bool} {a : α} (h : allOf? (items.filterMap f) = some test)
    (hg : ∀ i t, f i = some t → t a = g i) :
    items ≠ [] ∧ (test a = true ↔ ∀ i ∈ items, (f i).isSome → g i = true) := by
  constructor
  · rintro rfl
    simp [allOf?] at h
  · have htest : test a = (items.filterMap f).all (· a) := by
      cases hf : items.filterMap f with
      | nil => simp [hf, allOf?] at h
      | cons first rest =>
        rw [hf] at h
        obtain rfl := Option.some.inj h
        rfl
    rw [htest, List.all_eq_true]
    constructor
    · intro hall i hi hsome
      obtain ⟨t, ht⟩ := Option.isSome_iff_exists.mp hsome
      rw [← hg i t ht]
      exact hall t (List.mem_filterMap.mpr ⟨i, hi, ht⟩)
    · intro hall t ht
      obtain ⟨i, hi, ht⟩ := List.mem_filterMap.mp ht
      rw [hg i t ht]
      exact hall i hi (by rw [ht]; rfl)

/-- A missing number passes a leaf whose conditions all ask for null. -/
lemma Leaf.numericTest?_none {l : Leaf} {now : Instant} {test : ValueTest}
    (h : l.numericTest? now = some test) :
    l.conditions .numeric ≠ [] ∧
      test none = (l.conditions .numeric).all Condition.wantsNull := by
  obtain ⟨hne, hiff⟩ := allOf?_filterMap_iff h fun _ _ => Condition.simpleTest?_none
  refine ⟨hne, Bool.eq_iff_iff.mpr (hiff.trans ?_)⟩
  rw [List.all_eq_true]
  refine forall₂_congr fun cond hcond => ?_
  obtain ⟨houtside, hsome⟩ : cond.isOutside = false ∧ (cond.simpleTest? .int now).isSome :=
    Condition.of_mem_conditions_numeric hcond
  simp [houtside, hsome]

namespace Condition

variable {cond : Condition} {kind : FieldKind} {now : Instant} {test : ValueTest}

lemma inner_of_readsNumber (hop : cond.info.operator.readsNumber) {d : Document}
    (hd : cond.operand = .document d) : cond.inner = (Leaf.ofDocument d).conditions .numeric := by
  cases hkind : cond.info.operator with
  | part | length => simp [inner, hkind, hd]
  | _ => simp [hkind, Operator.readsNumber] at hop

lemma inner_eq_nil
    (h : cond.info.operator.readsNumber = false ∨ ∀ d, cond.operand ≠ .document d) :
    cond.inner = [] := by
  unfold inner
  split
  iterate 2
    · next hkind hd => simp_all [Operator.readsNumber]
  · rfl

lemma of_readsNumber (hop : cond.info.operator.readsNumber) :
    cond.wantsNull = false ∧ cond.isOutside = false := by
  cases hkind : cond.info.operator with
  | part | length => simp [wantsNull, isOutside, Operator.isPeriod, hkind]
  | _ => simp [hkind, Operator.readsNumber] at hop

lemma admitsMissing_of_inner (h : cond.inner = []) :
    cond.admitsMissing = (cond.wantsNull || cond.isOutside) := by
  simp only [admitsMissing, h]

/-- Off a missing value a missing number is read. -/
lemma integerTest?_none (hop : cond.info.operator.readsNumber)
    (h : integerTest? now cond.operand = some test) : test none = cond.admitsMissing := by
  cases hv : cond.operand with
  | int i =>
    rw [hv, integerTest?, Option.some.injEq] at h
    subst h
    rw [admitsMissing_of_inner (inner_eq_nil (.inr (by simp [hv]))), Literal.admits_none,
      (of_readsNumber hop).1, (of_readsNumber hop).2]
    rfl
  | document d =>
    rw [hv, integerTest?] at h
    obtain ⟨hne, htest⟩ := Leaf.numericTest?_none h
    rw [htest, admitsMissing, inner_of_readsNumber hop hv]
    split
    · contradiction
    · rfl
  | _ => simp [hv, integerTest?] at h

/-- **Which conditions a missing value passes.** -/
lemma test?_none (h : cond.test? true kind now = some test) : test none = cond.admitsMissing := by
  unfold test? at h
  split at h
  iterate 2
    · next hop =>
      rw [if_pos rfl] at h
      obtain ⟨read, -, h⟩ := Option.bind_eq_some_iff.mp h
      obtain ⟨t, ht, rfl⟩ := Option.map_eq_some_iff.mp h
      exact integerTest?_none (by rw [hop]; rfl) ht
  · next hpart hlength =>
    have hop := Operator.readsNumber_eq_false hpart hlength
    rw [simpleTest?_none h, admitsMissing_of_inner (inner_eq_nil (.inl hop))]

lemma wantsNull_of_not_asksNull (h : cond.asksNull = false) : cond.wantsNull = false := by
  unfold asksNull at h
  unfold wantsNull
  split at h <;> simp_all

/-- Unless it asks for null, a condition that a missing value passes asks for a value outside of a
period. -/
lemma admitsMissing_eq_isOutside (h : cond.asksNull = false)
    (hinner : cond.inner.any asksNull = false) : cond.admitsMissing = cond.isOutside := by
  cases hconds : cond.inner with
  | nil => rw [admitsMissing_of_inner hconds, wantsNull_of_not_asksNull h, Bool.false_or]
  | cons c cs =>
    -- a condition that reads a number is none on a period, and the first one on the number fails
    have hnumber : cond.info.operator.readsNumber = true := by
      by_contra hno
      rw [inner_eq_nil (.inl (by simpa using hno))] at hconds
      contradiction
    rw [hconds, List.any_cons, Bool.or_eq_false_iff] at hinner
    simp [admitsMissing, hconds, wantsNull_of_not_asksNull hinner.1, (of_readsNumber hnumber).2]

end Condition

/-! ## Leaves on rows without the value -/

namespace Leaf

variable {l : Leaf} {path : FieldPath} {kind : FieldKind} {now : Instant} {p : Predicate}
  {row : Document}

/-- **A leaf holds of a row without the value** exactly if all that it says admits a missing one. -/
theorem holdsOf_lacking (hlacks : row.Lacks path)
    (hp : l.predicate? (.field path) kind now = some p) :
    p.holdsOf row = true ↔ ∀ cond ∈ l.conditions kind.family,
      (cond.predicate? (.field path) kind now).isSome → cond.admitsMissing = true := by
  have hleaf : (l.predicate? (.field path) kind now).map (·.holds (.ofRow row)) =
      (l.test? true kind now).map (· ((Operand.field path).value? (.ofRow row))) :=
    l.map_holds_predicate?_field path
  rw [hp, Operand.value?_eq_none_iff.mpr hlacks, Option.map_some, eq_comm,
    Option.map_eq_some_iff] at hleaf
  obtain ⟨test, htest, hholds⟩ := hleaf
  obtain ⟨-, hiff⟩ := allOf?_filterMap_iff htest fun _ _ => Condition.test?_none
  have hsome : ∀ cond : Condition, (cond.test? true kind now).isSome =
      (cond.predicate? (.field path) kind now).isSome := by
    intro cond
    have hmap : (cond.predicate? (.field path) kind now).map (·.holds (.ofRow row)) =
        (cond.test? true kind now).map (· ((Operand.field path).value? (.ofRow row))) :=
      cond.map_holds_predicate?_field path
    rw [← Option.isSome_map, ← hmap, Option.isSome_map]
  show p.holds (.ofRow row) = true ↔ _
  rw [← hholds, hiff]
  simp only [hsome]

/-- **Without a value and without tests for null**, a leaf holds exactly if all that it says is that
the value lies outside of some periods. -/
theorem holdsOf_lacking_iff (hnull : l.asksNull kind.family = false) (hlacks : row.Lacks path)
    (hp : l.predicate? (.field path) kind now = some p) :
    p.holdsOf row = true ↔ ∀ cond ∈ l.conditions kind.family,
      (cond.predicate? (.field path) kind now).isSome → cond.isOutside = true := by
  rw [holdsOf_lacking hlacks hp]
  refine forall₂_congr fun cond hcond => ?_
  have hasks : (cond.asksNull || cond.inner.any Condition.asksNull) = false :=
    Bool.eq_false_iff.mpr (List.any_eq_false.mp hnull cond hcond)
  rw [Bool.or_eq_false_iff] at hasks
  rw [Condition.admitsMissing_eq_isOutside hasks.1 hasks.2]

/-- A year is asked for besides, so the leaf does not hold of a row without a date. -/
theorem holdsOf_lacking_iff_recent :
    let recent : Leaf := ⟨.ofList [("this_week", .bool false),
      ("year", .document (.object [("gte", .int 2020)]))]⟩
    let row : Document := .object [("id", .int 1)]
    ∃ p, recent.predicate? (.field (.single "released")) .date ⟨0, 0⟩ = some p ∧
      p.holdsOf row = false ∧
      (p.holdsOf row = true ↔ ∀ cond ∈ recent.conditions FieldKind.date.family,
        (cond.predicate? (.field (.single "released")) .date ⟨0, 0⟩).isSome →
          cond.isOutside = true) :=
  ⟨_, rfl, by decide, holdsOf_lacking_iff (by decide) (.inl rfl) rfl⟩

/-- A row without a date is not released this year, and it passes the test for what is not. -/
theorem passes_outside_lacking :
    ¬∀ (l : Leaf) (path : FieldPath) (kind : FieldKind) (now : Instant) (p : Predicate)
      (row : Document), l.operators.entries ≠ [] →
      (∀ x ∈ l.operators.entries, (Condition.ofOperator? kind.family x.1 x.2).isSome) →
      l.asksNull kind.family = false → row.Lacks path →
      l.predicate? (.field path) kind now = some p → p.holdsOf row = false := by
  intro h
  have hfalse := h ⟨.ofList [("this_year", .bool false)]⟩ (.single "released") .date ⟨0, 0⟩ _
    (.object [("id", .int 1)]) (by decide) (by decide) (by decide) (.inl rfl) rfl
  exact absurd hfalse (by decide)

end Leaf

end EntityFilter
