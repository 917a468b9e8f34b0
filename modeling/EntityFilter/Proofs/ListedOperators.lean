import EntityFilter.Proofs.DescribedKeys
import EntityFilter.Proofs.MissingValues

/-!
# Operators that a kind lists

An operator and its operand are looked at twice.  First the operand is brought into the shape that
the operator takes, and what does not fit makes no condition; then the condition is turned into a
predicate, and the operand, coerced by now, is taken apart once more.  Nothing gets lost in between:
what has the shape has all that the second step asks for.

Two things are still decided in the second step.  A kind lists the operators of its family that its
values have enough for, and one that is not listed says nothing; and an object that stands for an
integer says something only if it has an operator of numbers.  `FieldKind.operators_exact` says that
there is nothing else, and that a leaf says what its listed operators say.
-/

namespace EntityFilter

/-! ## Conditions on numbers -/

namespace Leaf

variable {l : Leaf} {family : OperatorFamily} {o : Operand} {now : Instant}

/-- Whether an operator of the leaf and its operand make a condition. -/
def HasCondition (family : OperatorFamily) (l : Leaf) : Prop :=
  ∃ x ∈ l.operators.entries, (Condition.ofOperator? family x.1 x.2).isSome

lemma hasCondition_iff : l.HasCondition family ↔ l.conditions family ≠ [] := by
  simp only [HasCondition, conditions, ne_eq, List.filterMap_eq_nil_iff, not_forall,
    Option.isSome_iff_ne_none, exists_prop]

/-- A leaf on a number says something as soon as it has a condition. -/
lemma isSome_numericPredicate?_iff :
    (l.numericPredicate? o now).isSome ↔ l.HasCondition .numeric := by
  have htruth : (l.numericPredicate? o now).map (·.holds (.ofRow .null)) =
      (l.numericTest? now).map (· (o.value? (.ofRow .null))) := l.map_holds_numericPredicate?
  rw [hasCondition_iff, ← Option.isSome_map, htruth, Option.isSome_map, numericTest?]
  cases hconds : l.conditions .numeric with
  | nil => simp [allOf?]
  | cons cond conds =>
    have hm : cond ∈ l.conditions .numeric := by
      rw [hconds]
      exact List.mem_cons_self
    obtain ⟨test, htest⟩ : ∃ test, cond.simpleTest? .int now = some test :=
      Option.isSome_iff_exists.mp (Condition.of_mem_conditions_numeric hm).2
    simp [htest, allOf?]

end Leaf

/-! ## What the second step decides -/

/-- An object that is given to an operator in place of an integer has an operator of numbers. -/
def OperatorInfo.Understands (info : OperatorInfo) (operand : Literal) : Prop :=
  info.shape = .integer → ∀ members, operand = .document (.object members) →
    (Leaf.ofDocument (.object members)).HasCondition .numeric

/-- The operators that take an integer are those that constrain a number read off the value. -/
lemma OperatorFamily.shape_eq_integer_iff {family : OperatorFamily} {info : OperatorInfo}
    (hm : info ∈ family.operators) : info.shape = .integer ↔ info.operator.readsNumber := by
  have hall : ∀ family : OperatorFamily, ∀ info ∈ family.operators,
      info.shape = .integer ↔ info.operator.readsNumber := by
    intro family
    cases family <;> decide
  exact hall family info hm

/-- An operator is listed if the values have enough for it. -/
lemma FieldKind.mem_operators_iff {kind : FieldKind} {info : OperatorInfo}
    (hm : info ∈ kind.family.operators) :
    info.name ∈ kind.operators.map OperatorInfo.name ↔
      (kind.hasTime || !info.operator.needsTime) = true := by
  constructor
  · intro h
    obtain ⟨info', hinfo', hname⟩ := List.mem_map.mp h
    obtain ⟨hm', hkept⟩ := List.mem_filter.mp hinfo'
    obtain rfl : info' = info :=
      List.inj_on_of_nodup_map kind.family.nodup_operators hm' hm hname
    exact hkept
  · intro h
    exact List.mem_map.mpr ⟨info, List.mem_filter.mpr ⟨hm, h⟩, rfl⟩

namespace Condition

variable {cond : Condition} {family : OperatorFamily} {kind : FieldKind} {name : String}
  {operand : Literal} {o : Operand} {path : FieldPath} {now : Instant}

/-- Off a field a number is read unless the kind has not enough for it. -/
lemma isSome_number?_field (hop : cond.info.operator.readsNumber) :
    (cond.number? (.field path) kind).isSome = (kind.hasTime || !cond.info.operator.needsTime) := by
  cases hkind : cond.info.operator with
  | part p => cases hneeds : p.needsTime <;> cases htime : kind.hasTime <;>
      simp [number?, hkind, Operator.needsTime, hneeds, htime]
  | length => simp [number?, hkind, Operator.needsTime]
  | _ => simp [hkind, Operator.readsNumber] at hop

/-- An integer, or an object with an operator of numbers, constrains a number. -/
lemma isSome_integerPredicate?_iff (hof : ofOperator? family name operand = some cond)
    (hop : cond.info.operator.readsNumber) :
    (integerPredicate? o now cond.operand).isSome ↔ cond.info.Understands operand := by
  obtain ⟨hm, -, hshaped⟩ := ofOperator?_eq_some hof
  have hshape := (OperatorFamily.shape_eq_integer_iff hm).mpr hop
  simp only [OperatorInfo.Understands, hshape, true_implies]
  simp only [hshape, OperatorFamily.shaped?] at hshaped
  split at hshaped
  · simp only [← Option.some.inj hshaped, Literal.document.injEq, Document.object.injEq, forall_eq']
    exact Leaf.isSome_numericPredicate?_iff
  · next hobject =>
    obtain ⟨i, -, hi⟩ := Option.map_eq_some_iff.mp hshaped
    simp only [← hi, integerPredicate?, Option.isSome_some, true_iff]
    exact fun members h => absurd h (hobject members)

/-- Only an operator that reads a number can lack anything. -/
lemma understands_of_not_readsNumber (hm : cond.info ∈ family.operators)
    (hop : cond.info.operator.readsNumber = false) :
    cond.info.operator.needsTime = false ∧ cond.info.Understands operand := by
  constructor
  · cases hkind : cond.info.operator with
    | part p => simp [hkind, Operator.readsNumber] at hop
    | _ => rfl
  · intro hshape
    rw [OperatorFamily.shape_eq_integer_iff hm, hop] at hshape
    contradiction

/-- **On a field, a condition says something exactly if its operator is listed** and an object in
place of an integer is understood. -/
theorem isSome_predicate?_field_iff (hof : ofOperator? kind.family name operand = some cond) :
    (cond.predicate? (.field path) kind now).isSome ↔
      name ∈ kind.operators.map OperatorInfo.name ∧ cond.info.Understands operand := by
  obtain ⟨hm, hname, -⟩ := ofOperator?_eq_some hof
  rw [← hname, FieldKind.mem_operators_iff hm]
  cases hop : cond.info.operator.readsNumber with
  | true =>
    have hpredicate : cond.predicate? (.field path) kind now =
        (cond.number? (.field path) kind).bind fun n => integerPredicate? n now cond.operand := by
      cases hkind : cond.info.operator with
      | part | length => simp only [predicate?, hkind]
      | _ => simp [hkind, Operator.readsNumber] at hop
    have hnumber : (cond.number? (.field path) kind).isSome =
        (kind.hasTime || !cond.info.operator.needsTime) := isSome_number?_field hop
    rw [hpredicate, ← hnumber]
    cases cond.number? (.field path) kind with
    | none => simp
    | some n => simp [isSome_integerPredicate?_iff hof hop]
  | false =>
    obtain ⟨htime, hunderstands⟩ : cond.info.operator.needsTime = false ∧
        cond.info.Understands operand := understands_of_not_readsNumber hm hop
    have hsimple : (cond.simplePredicate? (.field path) kind now).isSome :=
      isSome_simplePredicate? hof hop
    have hpredicate : cond.predicate? (.field path) kind now =
        cond.simplePredicate? (.field path) kind now := by
      cases hkind : cond.info.operator with
      | part | length => simp [hkind, Operator.readsNumber] at hop
      | _ => simp only [predicate?, hkind]
    simp [hpredicate, hsimple, htime, hunderstands]

end Condition

/-! ## Leaves -/

namespace Leaf

/-- The operators of a leaf that a kind lists. -/
def listed (kind : FieldKind) (l : Leaf) : Leaf :=
  ⟨l.operators.without (l.operators.keys.filter (· ∉ kind.operators.map OperatorInfo.name))⟩

lemma entries_listed (kind : FieldKind) (l : Leaf) :
    (l.listed kind).operators.entries =
      l.operators.entries.filter (·.1 ∈ kind.operators.map OperatorInfo.name) := by
  refine List.filter_congr fun x hx => ?_
  have hkey : x.1 ∈ l.operators.keys := List.mem_map.mpr ⟨x, hx, rfl⟩
  simp [hkey]

/-- **A leaf says what its listed operators say.** -/
theorem predicate?_listed (kind : FieldKind) (l : Leaf) (path : FieldPath) (now : Instant) :
    (l.listed kind).predicate? (.field path) kind now = l.predicate? (.field path) kind now := by
  unfold predicate? conditions
  rw [entries_listed, List.filterMap_filterMap, List.filterMap_filterMap, List.filterMap_filter]
  congr 1
  refine List.filterMap_congr fun ⟨name, operand⟩ _ => ?_
  split
  · rfl
  · next hname =>
    -- an operator that is not listed makes no predicate
    cases hof : Condition.ofOperator? kind.family name operand with
    | none => simp [hof]
    | some cond =>
      have hnone : cond.predicate? (.field path) kind now = none := by
        rw [← Option.not_isSome_iff_eq_none, Condition.isSome_predicate?_field_iff hof]
        exact fun h => hname (by simpa using h.1)
      simp [hof, hnone]

end Leaf

/-- **The list of operators is exact.**  A condition on a field says something if and only if its
operator is listed, an object without operators of numbers in place of an integer excepted; so a
leaf says what its listed operators say. -/
theorem FieldKind.operators_exact (kind : FieldKind) (path : FieldPath) (now : Instant) :
    (∀ name operand cond, Condition.ofOperator? kind.family name operand = some cond →
      ((cond.predicate? (.field path) kind now).isSome ↔
        name ∈ kind.operators.map OperatorInfo.name ∧ cond.info.Understands operand)) ∧
    ∀ l : Leaf, l.predicate? (.field path) kind now =
      (l.listed kind).predicate? (.field path) kind now :=
  ⟨fun _ _ _ hof => Condition.isSome_predicate?_field_iff hof,
    fun l => (l.predicate?_listed kind path now).symm⟩

/-- A year is constrained by an object with an operator of numbers, whatever else stands in it. -/
theorem FieldKind.operators_exact_released :
    let operand := Literal.document (.object [("near", .text "2020"), ("gte", .int 2020)])
    ∃ cond, Condition.ofOperator? FieldKind.date.family "year" operand = some cond ∧
      (cond.predicate? (.field (.single "released")) .date ⟨0, 0⟩).isSome := by
  intro operand
  refine ⟨_, rfl, ((operators_exact .date (.single "released") ⟨0, 0⟩).1 "year" operand _ rfl).mpr
    ⟨by decide, ?_⟩⟩
  rintro - members hmembers
  obtain rfl := Document.object.inj (Literal.document.inj hmembers)
  exact ⟨("gte", .int 2020), List.mem_cons_of_mem _ List.mem_cons_self, rfl⟩

end EntityFilter
