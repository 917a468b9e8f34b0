import EntityFilter.Proofs.KeptTests

/-!
# The tests of a leaf

A leaf makes the tests of its conditions (`Leaf.mem_tests_iff`).  A condition makes at least one
test if it says anything, and all its tests read the same value: the one that the leaf is applied
to, or a number read off it.  They match arrays if the operator does
(`Condition.reads_of_predicate?`).

Which conditions say something depends on the value.  On a projection these are all but the ones on
a part of a date and on the number of elements, which can only be read off a field
(`Condition.isSome_predicate?_projection`).
-/

namespace EntityFilter

open Predicate

/-! ## What tests read -/

/-- Whether an operator matches arrays. -/
def Operator.isArray : Operator → Bool
  | array _ => true
  | _ => false

/-- Whether an operator constrains a number that is read off the value. -/
def Operator.readsNumber : Operator → Bool
  | part _ | length => true
  | _ => false

lemma Operator.readsNumber_eq_false {op : Operator} (hpart : ∀ p, op ≠ part p)
    (hlength : op ≠ length) : op.readsNumber = false := by
  cases op with
  | part p => exact absurd rfl (hpart p)
  | length => exact absurd rfl hlength
  | _ => rfl

namespace Predicate

/-- The values that a single test reads, the document of a search apart. -/
def operands : Predicate → List Operand
  | compare left _ _ => [left]
  | compareOperands left _ right => [left, right]
  | member operand _ _ | isNull operand _ | text operand _ _ _ | regex operand _ _
  | keys operand _ _ | array operand _ _ => [operand]
  | search _ _ _ _ | existence _ _ _ | all _ | any _ | negation _ => []

/-- Whether a single test matches an array. -/
def isArray : Predicate → Bool
  | array _ _ _ => true
  | _ => false

/-- A predicate makes tests, and each of them reads one value and matches arrays, or none does. -/
structure Reads (path : RelationPath) (o : Operand) (ofArrays : Bool) (p : Predicate) : Prop where
  nonempty : p.tests path ≠ []
  operands : ∀ t ∈ p.tests path, t.2.operands = [o] ∧ t.2.isArray = ofArrays

namespace Reads

variable {path : RelationPath} {o : Operand} {ofArrays : Bool} {p q : Predicate}

lemma single (h : p.operands = [o]) (hp : p.isArray = ofArrays) : p.Reads path o ofArrays := by
  have htests : p.tests path = [(path, p)] := by
    cases p with
    | existence | all | any | negation => simp [Predicate.operands] at h
    | _ => rfl
  constructor
  · rw [htests]
    exact List.cons_ne_nil _ _
  · intro t ht
    rw [htests, List.mem_singleton] at ht
    subst ht
    exact ⟨h, hp⟩

lemma testsOfAll {ps : List Predicate} (hps : ps ≠ []) (h : ∀ q ∈ ps, q.Reads path o ofArrays) :
    Predicate.testsOfAll path ps ≠ [] ∧
      ∀ t ∈ Predicate.testsOfAll path ps, t.2.operands = [o] ∧ t.2.isArray = ofArrays := by
  constructor
  · obtain ⟨q, hq⟩ := List.exists_mem_of_ne_nil ps hps
    obtain ⟨t, ht⟩ := List.exists_mem_of_ne_nil _ (h q hq).nonempty
    exact List.ne_nil_of_mem (mem_testsOfAll.mpr ⟨q, hq, ht⟩)
  · intro t ht
    obtain ⟨q, hq, ht⟩ := mem_testsOfAll.mp ht
    exact (h q hq).operands t ht

lemma all {ps : List Predicate} (hps : ps ≠ []) (h : ∀ q ∈ ps, q.Reads path o ofArrays) :
    (Predicate.all ps).Reads path o ofArrays := by
  obtain ⟨hne, hall⟩ := testsOfAll hps h
  exact ⟨by rwa [tests], by rwa [tests]⟩

lemma not (h : p.Reads path o ofArrays) : p.not.Reads path o ofArrays :=
  ⟨by rw [tests_not]; exact h.nonempty, by rw [tests_not]; exact h.operands⟩

lemma and? {ps : List Predicate} (h : ∀ q ∈ ps, q.Reads path o ofArrays)
    (hp : Predicate.and? ps = some p) : p.Reads path o ofArrays := by
  have hps : ps ≠ [] := by
    rintro rfl
    simp [Predicate.and?] at hp
  have htests : p.tests path = Predicate.testsOfAll path ps := by
    rw [← testsOfAll_and?, hp, Option.toList_some, testsOfAll_singleton]
  obtain ⟨hne, hall⟩ := testsOfAll hps h
  exact ⟨by rwa [htests], by rwa [htests]⟩

end Reads

end Predicate

/-! ## Conditions -/

/-- Which operators are about arrays: those of the family of arrays, except for the one that asks
for null. -/
lemma OperatorFamily.isArray_or_length_iff {family : OperatorFamily} {info : OperatorInfo}
    (hm : info ∈ family.operators) :
    (info.operator.isArray ∨ info.operator = .length) ↔
      family = .array ∧ info.name ≠ "is_null" := by
  have hall : ∀ family : OperatorFamily, ∀ info ∈ family.operators,
      (info.operator.isArray ∨ info.operator = .length) ↔
        family = .array ∧ info.name ≠ "is_null" := by
    intro family
    cases family <;> decide
  exact hall family info hm

/-- How an operator of a family takes its operand, where this decides whether it says anything. -/
def OperatorInfo.isShapedIn (family : OperatorFamily) (info : OperatorInfo) : Bool :=
  match info.operator with
  | .between => info.shape = .range
  | .isNull | .period _ => info.shape = .flag
  | .text _ _ | .regex _ => info.shape = .pattern && family = .text
  | .keys _ => (info.shape = .key || info.shape = .keys) && family = .json
  | _ => true

lemma OperatorFamily.isShapedIn_of_mem_operators {family : OperatorFamily} {info : OperatorInfo}
    (hm : info ∈ family.operators) : info.isShapedIn family := by
  have hall : ∀ family : OperatorFamily, ∀ info ∈ family.operators, info.isShapedIn family := by
    intro family
    cases family <;> decide
  exact hall family info hm

namespace Condition

variable {cond : Condition} {family : OperatorFamily} {name : String} {operand : Literal}
  {o n : Operand} {kind : FieldKind} {now : Instant} {p : Predicate} {path : RelationPath}

lemma reads_bounds (low high : CompareOp) (v w : Literal) :
    (Predicate.all [.compare o low v, .compare o high w]).Reads path o false := by
  refine .all (List.cons_ne_nil _ _) fun q hq => ?_
  simp only [List.mem_cons, List.not_mem_nil, or_false] at hq
  rcases hq with rfl | rfl <;> exact .single rfl rfl

lemma reads_of_simplePredicate? (h : cond.simplePredicate? o kind now = some p) :
    p.Reads path o cond.info.operator.isArray := by
  cases hop : cond.info.operator with
  | compare op =>
    simp only [simplePredicate?, hop] at h
    obtain rfl := Option.some.inj h
    unfold Predicate.comparison
    split <;> exact .single rfl rfl
  | member | array =>
    simp only [simplePredicate?, hop] at h
    obtain rfl := Option.some.inj h
    exact .single rfl rfl
  | between =>
    simp only [simplePredicate?, hop] at h
    split at h
    · obtain rfl := Option.some.inj h
      exact reads_bounds _ _ _ _
    · simp at h
  | isNull | text | regex | keys =>
    simp only [simplePredicate?, hop] at h
    obtain ⟨_, -, rfl⟩ := Option.map_eq_some_iff.mp h
    exact .single rfl rfl
  | period shortcut =>
    simp only [simplePredicate?, hop] at h
    obtain ⟨inside, -, rfl⟩ := Option.map_eq_some_iff.mp h
    cases inside
    · exact (reads_bounds _ _ _ _).not
    · exact reads_bounds _ _ _ _
  | part | length => simp [simplePredicate?, hop] at h

/-- A constraint on a number matches no arrays. -/
lemma reads_of_integerPredicate? {v : Literal} (h : integerPredicate? n now v = some p) :
    p.Reads path n false := by
  unfold integerPredicate? at h
  split at h
  · obtain rfl := Option.some.inj h
    exact .single rfl rfl
  · refine .and? (fun q hq => ?_) h
    obtain ⟨inner, hinner, hq⟩ := List.mem_filterMap.mp hq
    obtain ⟨⟨name, operand⟩, -, hof⟩ := List.mem_filterMap.mp hinner
    obtain ⟨hm, -, -⟩ := ofOperator?_eq_some hof
    have hnone : inner.info.operator.isArray = false := by
      have hiff := OperatorFamily.isArray_or_length_iff hm
      simp only [reduceCtorEq, false_and, iff_false, not_or] at hiff
      simpa using hiff.1
    rw [← hnone]
    exact reads_of_simplePredicate? hq
  · simp at h

/-- What a condition says, it says by tests of one value. -/
lemma reads_of_predicate? (h : cond.predicate? o kind now = some p) :
    ∃ n, p.Reads path n cond.info.operator.isArray ∧
      (if cond.info.operator.readsNumber then cond.number? o kind = some n else n = o) := by
  unfold predicate? at h
  split at h
  iterate 2
    · next hop =>
      obtain ⟨n, hn, h⟩ := Option.bind_eq_some_iff.mp h
      rw [hop]
      exact ⟨n, reads_of_integerPredicate? h, hn⟩
  · next hpart hlength =>
    refine ⟨o, reads_of_simplePredicate? h, ?_⟩
    simp [Operator.readsNumber_eq_false hpart hlength]

lemma tests_ne_nil (h : cond.predicate? o kind now = some p) : p.tests path ≠ [] := by
  obtain ⟨n, hreads, -⟩ := reads_of_predicate? h
  exact hreads.nonempty

/-! ### Conditions that say something -/

lemma coerced_bool {b : Bool} (h : cond.operand = .bool b) : cond.coerced kind = .bool b := by
  unfold coerced
  split <;> simp [h, Literal.coerceInstant, Literal.coerceDate]

lemma coerced_pair {low high : Literal} (h : cond.operand = .list [low, high]) :
    ∃ low' high', cond.coerced kind = .list [low', high'] := by
  unfold coerced
  split
  · exact ⟨low.coerceInstant, high.coerceInstant, by
      simp [h, Literal.coerceInstant, Literal.coerceInstants]⟩
  · exact ⟨low.coerceDate, high.coerceDate, by simp [h, Literal.coerceDate, Literal.coerceDates]⟩
  · exact ⟨low, high, h⟩

/-- Only dates and instants are coerced. -/
lemma coerced_of_family (h : kind.family = .text ∨ kind.family = .json) :
    cond.coerced kind = cond.operand := by
  cases kind <;> simp_all [coerced, FieldKind.family]

lemma isSome_mapM_asText? {items : List Literal} (h : items.all (·.asText?.isSome)) :
    (items.mapM Literal.asText?).isSome := by
  induction items with
  | nil => rfl
  | cons v vs ih =>
    simp only [List.all_cons, Bool.and_eq_true] at h
    obtain ⟨text, htext⟩ := Option.isSome_iff_exists.mp h.1
    obtain ⟨texts, htexts⟩ := Option.isSome_iff_exists.mp (ih h.2)
    simp [List.mapM_cons, htext, htexts]

/-- A condition that constrains the value itself always says something. -/
lemma isSome_simplePredicate? (hof : ofOperator? kind.family name operand = some cond)
    (hop : cond.info.operator.readsNumber = false) :
    (cond.simplePredicate? o kind now).isSome := by
  obtain ⟨hm, -, hshaped⟩ := ofOperator?_eq_some hof
  have hshape := OperatorFamily.isShapedIn_of_mem_operators hm
  unfold OperatorInfo.isShapedIn at hshape
  cases hkind : cond.info.operator with
  | compare | member | array => simp [simplePredicate?, hkind]
  | between =>
    simp only [hkind, decide_eq_true_eq] at hshape
    simp only [hshape, OperatorFamily.shaped?] at hshaped
    split at hshaped
    · split at hshaped
      · obtain ⟨low, high, hcoerced⟩ : ∃ low high, cond.coerced kind = .list [low, high] :=
          coerced_pair (Option.some.inj hshaped).symm
        simp [simplePredicate?, hkind, hcoerced]
      · simp at hshaped
    · simp at hshaped
  | isNull | period =>
    simp only [hkind, decide_eq_true_eq] at hshape
    simp only [hshape, OperatorFamily.shaped?] at hshaped
    obtain ⟨b, -, hb⟩ := Option.map_eq_some_iff.mp hshaped
    simp [simplePredicate?, hkind, coerced_bool hb.symm, Literal.asBool?]
  | text | regex =>
    simp only [hkind, Bool.and_eq_true, decide_eq_true_eq] at hshape
    simp only [hshape.1, OperatorFamily.shaped?] at hshaped
    obtain ⟨text, -, htext⟩ := Option.map_eq_some_iff.mp hshaped
    simp [simplePredicate?, hkind, coerced_of_family (.inl hshape.2), ← htext, Literal.asText?]
  | keys mode =>
    simp only [hkind, Bool.and_eq_true, Bool.or_eq_true, decide_eq_true_eq] at hshape
    simp only [simplePredicate?, hkind, coerced_of_family (.inr hshape.2), Option.isSome_map]
    rcases hshape.1 with hshape | hshape
    · simp only [hshape, OperatorFamily.shaped?] at hshaped
      obtain ⟨text, -, htext⟩ := Option.map_eq_some_iff.mp hshaped
      rw [← htext]
      rfl
    · simp only [hshape, OperatorFamily.shaped?] at hshaped
      split at hshaped
      · next hall =>
        rw [← Option.some.inj hshaped]
        exact isSome_mapM_asText? hall
      · simp at hshaped
  | part | length => simp [hkind, Operator.readsNumber] at hop

/-- **On a projection, a condition says something unless it constrains a number read off the
value.** -/
lemma isSome_predicate?_projection {handle : ProjectionHandle}
    (hof : ofOperator? kind.family name operand = some cond) :
    (cond.predicate? (.projection handle) kind now).isSome ↔
      cond.info.operator.readsNumber = false := by
  cases hop : cond.info.operator with
  | part | length => simp [predicate?, hop, number?, Operator.readsNumber]
  | _ =>
    have hsimple : cond.info.operator.readsNumber = false := by rw [hop]; rfl
    have hsome : (cond.simplePredicate? (.projection handle) kind now).isSome :=
      isSome_simplePredicate? hof hsimple
    simpa [predicate?, hop, Operator.readsNumber] using hsome

end Condition

/-! ## Leaves -/

/-- **The tests of a leaf are those of its conditions.** -/
theorem Leaf.mem_tests_iff {l : Leaf} {o : Operand} {kind : FieldKind} {now : Instant}
    {path : RelationPath} {t : RelationPath × Predicate} :
    (∃ p, l.predicate? o kind now = some p ∧ t ∈ p.tests path) ↔
      ∃ cond ∈ l.conditions kind.family, ∃ q, cond.predicate? o kind now = some q ∧
        t ∈ q.tests path := by
  rw [← mem_testsOfAll_toList, Leaf.predicate?, testsOfAll_and?, mem_testsOfAll]
  constructor
  · rintro ⟨q, hq, ht⟩
    obtain ⟨cond, hcond, hq⟩ := List.mem_filterMap.mp hq
    exact ⟨cond, hcond, q, hq, ht⟩
  · rintro ⟨cond, hcond, q, hq, ht⟩
    exact ⟨q, List.mem_filterMap.mpr ⟨cond, hcond, hq⟩, ht⟩

end EntityFilter
