import EntityFilter.Proofs.Tests
import EntityFilter.Row.Truth

/-!
# Connectives

The constructors of predicates tidy up as they go: parts of a conjunction that are conjunctions
themselves are taken apart, one part stands for itself, and two negations cancel.
`Predicate.IsNormal` is the form that results, and every predicate that compilation makes has it
(`Filter.isNormal_of_predicate?`).

Tidying does not change what is said.  A conjunction of predicates holds if all of them do, and
there is no conjunction exactly if there are no predicates (`Predicate.map_holds_and?`).  This needs
the normal form: a conjunction without parts, which holds of every row, would vanish when it is
taken apart.
-/

namespace EntityFilter

namespace Predicate

variable {ps : List Predicate} {p : Predicate}

-- The equations are made here once, since many proofs below ask for them at the same time.
section
attribute [local simp] holds allHold anyHolds
end

/-! ## The normal form -/

/-- Whether a predicate is a conjunction. -/
def isConjunction : Predicate → Bool
  | all _ => true
  | _ => false

/-- Whether a predicate is a disjunction. -/
def isDisjunction : Predicate → Bool
  | any _ => true
  | _ => false

/-- Whether a predicate is a negation. -/
def isNegation : Predicate → Bool
  | negation _ => true
  | _ => false

mutual

/-- At every level, conjunctions and disjunctions have two parts or more and are not nested in
themselves, and what is negated is no negation. -/
def IsNormal : Predicate → Prop
  | all ps => 2 ≤ ps.length ∧ (∀ p ∈ ps, ¬p.isConjunction) ∧ AreNormal ps
  | any ps => 2 ≤ ps.length ∧ (∀ p ∈ ps, ¬p.isDisjunction) ∧ AreNormal ps
  | negation p => ¬p.isNegation ∧ p.IsNormal
  | existence _ _ (some p) => p.IsNormal
  | _ => True

/-- Predicates in normal form. -/
def AreNormal : List Predicate → Prop
  | [] => True
  | p :: ps => p.IsNormal ∧ AreNormal ps

end

lemma areNormal_iff : AreNormal ps ↔ ∀ p ∈ ps, p.IsNormal := by
  induction ps with
  | nil => simp [AreNormal]
  | cons p ps ih => simp [AreNormal, ih]

namespace IsNormal

lemma of_mem_conjuncts (hp : p.IsNormal) : ∀ q ∈ p.conjuncts, q.IsNormal ∧ ¬q.isConjunction := by
  intro q hq
  cases p with
  | all parts => exact ⟨areNormal_iff.mp hp.2.2 q hq, hp.2.1 q hq⟩
  | _ =>
    simp only [conjuncts, List.mem_singleton] at hq
    subst hq
    exact ⟨hp, by simp [isConjunction]⟩

lemma of_mem_disjuncts (hp : p.IsNormal) : ∀ q ∈ p.disjuncts, q.IsNormal ∧ ¬q.isDisjunction := by
  intro q hq
  cases p with
  | any parts => exact ⟨areNormal_iff.mp hp.2.2 q hq, hp.2.1 q hq⟩
  | _ =>
    simp only [disjuncts, List.mem_singleton] at hq
    subst hq
    exact ⟨hp, by simp [isDisjunction]⟩

lemma conjuncts_ne_nil (hp : p.IsNormal) : p.conjuncts ≠ [] := by
  cases p with
  | all parts =>
    intro hnil
    have hlength := hp.1
    simp only [conjuncts] at hnil
    simp [hnil] at hlength
  | _ => simp [conjuncts]

lemma disjuncts_ne_nil (hp : p.IsNormal) : p.disjuncts ≠ [] := by
  cases p with
  | any parts =>
    intro hnil
    have hlength := hp.1
    simp only [disjuncts] at hnil
    simp [hnil] at hlength
  | _ => simp [disjuncts]

lemma and? (hps : ∀ q ∈ ps, q.IsNormal) (hp : Predicate.and? ps = some p) : p.IsNormal := by
  have hparts : ∀ q ∈ ps.flatMap conjuncts, q.IsNormal ∧ ¬q.isConjunction := by
    intro q hq
    obtain ⟨r, hr, hqr⟩ := List.mem_flatMap.mp hq
    exact (hps r hr).of_mem_conjuncts q hqr
  rcases and?_eq_some hp with hone | ⟨rfl, hlength⟩
  · exact (hparts p (by simp [hone])).1
  · exact ⟨hlength, fun q hq => (hparts q hq).2, areNormal_iff.mpr fun q hq => (hparts q hq).1⟩

lemma or? (hps : ∀ q ∈ ps, q.IsNormal) (hp : Predicate.or? ps = some p) : p.IsNormal := by
  have hparts : ∀ q ∈ ps.flatMap disjuncts, q.IsNormal ∧ ¬q.isDisjunction := by
    intro q hq
    obtain ⟨r, hr, hqr⟩ := List.mem_flatMap.mp hq
    exact (hps r hr).of_mem_disjuncts q hqr
  rcases or?_eq_some hp with hone | ⟨rfl, hlength⟩
  · exact (hparts p (by simp [hone])).1
  · exact ⟨hlength, fun q hq => (hparts q hq).2, areNormal_iff.mpr fun q hq => (hparts q hq).1⟩

lemma not (hp : p.IsNormal) : p.not.IsNormal := by
  cases p with
  | negation q => exact hp.2
  | _ => exact ⟨by simp [isNegation], hp⟩

end IsNormal

/-! ## Truth -/

variable {ctx : RowContext}

lemma allHold_eq : allHold ctx ps = ps.all (holds ctx) := by
  induction ps with
  | nil => rfl
  | cons p ps ih => rw [allHold, ih, List.all_cons]

lemma anyHolds_eq : anyHolds ctx ps = ps.any (holds ctx) := by
  induction ps with
  | nil => rfl
  | cons p ps ih => rw [anyHolds, ih, List.any_cons]

lemma all_holds_conjuncts (p : Predicate) : p.conjuncts.all (holds ctx) = p.holds ctx := by
  cases p with
  | all parts => rw [conjuncts, holds, allHold_eq]
  | _ => simp only [conjuncts, List.all_cons, List.all_nil, Bool.and_true]

lemma any_holds_disjuncts (p : Predicate) : p.disjuncts.any (holds ctx) = p.holds ctx := by
  cases p with
  | any parts => rw [disjuncts, holds, anyHolds_eq]
  | _ => simp only [disjuncts, List.any_cons, List.any_nil, Bool.or_false]

lemma holds_not (p : Predicate) : p.not.holds ctx = !p.holds ctx := by
  cases p with
  | negation q => simp only [not, holds, Bool.not_not]
  | _ => rfl

lemma holds_andThen (p q : Predicate) : (p.andThen q).holds ctx = (p.holds ctx && q.holds ctx) := by
  rw [andThen, holds, allHold_eq, List.all_append, all_holds_conjuncts, all_holds_conjuncts]

end Predicate

/-! ## Constraints that may be absent -/

/-- Verdicts on one row, taken together by conjunction; none of them is no constraint. -/
def conjoined? : List Bool → Option Bool
  | [] => none
  | verdicts => some (verdicts.all id)

/-- Verdicts on one row, taken together by disjunction; none of them is no constraint. -/
def disjoined? : List Bool → Option Bool
  | [] => none
  | verdicts => some (verdicts.any id)

namespace Predicate

variable {ps : List Predicate} {p : Predicate} {ctx : RowContext}

lemma holds_of_and? (hp : and? ps = some p) : p.holds ctx = ps.all (holds ctx) := by
  have htruth : (ps.flatMap conjuncts).all (holds ctx) = ps.all (holds ctx) := by
    rw [List.all_flatMap]
    exact congrArg (ps.all ·) (funext all_holds_conjuncts)
  rw [← htruth]
  rcases and?_eq_some hp with hone | ⟨rfl, -⟩
  · simp [hone]
  · rw [holds, allHold_eq]

lemma holds_of_or? (hp : or? ps = some p) : p.holds ctx = ps.any (holds ctx) := by
  have htruth : (ps.flatMap disjuncts).any (holds ctx) = ps.any (holds ctx) := by
    rw [List.any_flatMap]
    exact congrArg (ps.any ·) (funext any_holds_disjuncts)
  rw [← htruth]
  rcases or?_eq_some hp with hone | ⟨rfl, -⟩
  · simp [hone]
  · rw [holds, anyHolds_eq]

/-- **A conjunction holds if all of its parts do**, however it has been tidied up. -/
theorem map_holds_and? (hps : ∀ p ∈ ps, p.IsNormal) :
    (and? ps).map (holds ctx) = conjoined? (ps.map (holds ctx)) := by
  cases ps with
  | nil => rfl
  | cons p ps =>
    cases hp : and? (p :: ps) with
    | none =>
      -- the first part has conjuncts of its own
      have hfirst := (hps p List.mem_cons_self).conjuncts_ne_nil
      exact absurd (List.flatMap_eq_nil_iff.mp (and?_eq_none hp) p List.mem_cons_self) hfirst
    | some r =>
      rw [Option.map_some, holds_of_and? hp]
      simp [conjoined?, List.all_map]

/-- **A disjunction holds if one of its parts does**, however it has been tidied up. -/
theorem map_holds_or? (hps : ∀ p ∈ ps, p.IsNormal) :
    (or? ps).map (holds ctx) = disjoined? (ps.map (holds ctx)) := by
  cases ps with
  | nil => rfl
  | cons p ps =>
    cases hp : or? (p :: ps) with
    | none =>
      have hfirst := (hps p List.mem_cons_self).disjuncts_ne_nil
      exact absurd (List.flatMap_eq_nil_iff.mp (or?_eq_none hp) p List.mem_cons_self) hfirst
    | some r =>
      rw [Option.map_some, holds_of_or? hp]
      simp [disjoined?, List.any_map]

end Predicate

/-! ## What compilation makes is in normal form -/

namespace Condition

variable {cond : Condition} {o : Operand} {kind : FieldKind} {now : Instant} {p : Predicate}

lemma isNormal_of_simplePredicate? (h : cond.simplePredicate? o kind now = some p) :
    p.IsNormal := by
  have hbounds : ∀ {low high : CompareOp} {v w : Literal},
      (Predicate.all [.compare o low v, .compare o high w]).IsNormal := by
    simp [Predicate.IsNormal, Predicate.AreNormal, Predicate.isConjunction]
  simp only [simplePredicate?] at h
  split at h
  · obtain rfl := Option.some.inj h
    unfold Predicate.comparison
    split <;> exact trivial
  · obtain rfl := Option.some.inj h
    exact trivial
  · split at h
    · obtain rfl := Option.some.inj h
      exact hbounds
    · simp at h
  · obtain ⟨b, -, rfl⟩ := Option.map_eq_some_iff.mp h
    exact trivial
  · obtain ⟨text, -, rfl⟩ := Option.map_eq_some_iff.mp h
    exact trivial
  · obtain ⟨text, -, rfl⟩ := Option.map_eq_some_iff.mp h
    exact trivial
  · obtain ⟨inside, -, rfl⟩ := Option.map_eq_some_iff.mp h
    cases inside
    · exact Predicate.IsNormal.not hbounds
    · exact hbounds
  · obtain ⟨names, -, rfl⟩ := Option.map_eq_some_iff.mp h
    exact trivial
  · obtain rfl := Option.some.inj h
    exact trivial
  · simp at h
  · simp at h

lemma isNormal_of_predicate? (h : cond.predicate? o kind now = some p) : p.IsNormal := by
  have hinteger : ∀ {n v}, integerPredicate? n now v = some p → p.IsNormal := by
    intro n v h
    unfold integerPredicate? at h
    split at h
    · obtain rfl := Option.some.inj h
      exact trivial
    · refine Predicate.IsNormal.and? (fun q hq => ?_) h
      obtain ⟨inner, -, hq⟩ := List.mem_filterMap.mp hq
      exact isNormal_of_simplePredicate? hq
    · simp at h
  unfold predicate? at h
  split at h
  iterate 2
    · obtain ⟨n, -, h⟩ := Option.bind_eq_some_iff.mp h
      exact hinteger h
  · exact isNormal_of_simplePredicate? h

end Condition

lemma Leaf.isNormal_of_predicate? {l : Leaf} {o : Operand} {kind : FieldKind} {now : Instant}
    {p : Predicate} (h : l.predicate? o kind now = some p) : p.IsNormal :=
  Leaf.predicate?_of_conditions Predicate.IsNormal.and?
    (fun _ _ _ _ _ _ hq => Condition.isNormal_of_predicate? hq) h

lemma Compiler.carries_isNormal (c : Compiler) : c.Carries fun _ p => p.IsNormal where
  and? := Predicate.IsNormal.and?
  or? := Predicate.IsNormal.or?
  not := Predicate.IsNormal.not
  included _ _ := trivial
  join _ _ _ _ h := h
  someRow _ _ _ := trivial
  someRowWith _ _ _ h := h

lemma Visit.builds_isNormal (c : Compiler) (set : ProjectionSet) (v : Visit) :
    v.Builds c set Predicate.IsNormal where
  and? := Predicate.IsNormal.and?
  or? := Predicate.IsNormal.or?
  leaf _ _ h := Leaf.isNormal_of_predicate? h
  rows _ _ _ _ h := by
    have hp := Leaf.isNormal_of_predicate? h
    exact hp
  quick _ _ := trivial
  comparison _ _ _ := trivial
  search _ _ _ := trivial
  rank _ _ _ _ _ _ := trivial

lemma Visit.isNormal_of_predicate? {c : Compiler} {set : ProjectionSet} {v : Visit} {p : Predicate}
    (h : v.predicate? c set = some p) : p.IsNormal :=
  Visit.predicate?_of_builds (v.builds_isNormal c set) h

lemma Visit.carries_isNormal {c : Compiler} {set : ProjectionSet} (v : Visit) :
    v.Carries c set (fun _ p => p.IsNormal) fun _ _ => True where
  admits _ _ := trivial
  predicate _ hp := Visit.isNormal_of_predicate? hp

/-- **Every predicate that compilation makes is in normal form.** -/
theorem Filter.isNormal_of_predicate? {c : Compiler} {set : ProjectionSet} {s : Scope} {f : Filter}
    {p : Predicate} (h : f.predicate? c set s = some p) : p.IsNormal :=
  Filter.predicate?_of_carries c.carries_isNormal f
    (fun v _ => v.carries_isNormal) p h

section

variable {c : Compiler} {set : ProjectionSet}

lemma FilterEntry.isNormal_of_mem_predicates {s : Scope} {es : List (String × FilterEntry)} :
    ∀ p ∈ FilterEntry.predicates c set s es, p.IsNormal :=
  FilterEntry.predicates_of_carries c.carries_isNormal es
    fun v _ => v.carries_isNormal

lemma Filter.isNormal_of_mem_predicates {s : Scope} {fs : List Filter} :
    ∀ p ∈ Filter.predicates c set s fs, p.IsNormal :=
  Filter.predicates_of_carries c.carries_isNormal fs
    fun v _ => v.carries_isNormal

lemma ExistenceTest.isNormal_of_mem_predicates {s : Scope}
    {items : List (ExistenceTest × Option Filter)} :
    ∀ p ∈ ExistenceTest.predicates c set s items, p.IsNormal :=
  ExistenceTest.predicates_of_carries c.carries_isNormal items (fun _ _ => trivial)
    fun v _ => v.carries_isNormal

end

@[simp]
lemma Scope.widen?_nil {s : Scope} {p : Option Predicate} : s.widen? [] p = p := by
  cases p <;> rfl

/-- Identifiers that are included let rows in besides those that satisfy the predicate. -/
lemma Scope.map_holds_widen? {s : Scope} {values : List Literal} {p : Option Predicate}
    {ctx : RowContext} (hp : ∀ q, p = some q → q.IsNormal) :
    (s.widen? values p).map (·.holds ctx) =
      (p.map (·.holds ctx)).map (· ||
        ((Operand.field (s.fieldPath s.entity.primaryKey)).value? ctx).any fun d =>
          values.any (Literal.equals d)) := by
  cases p with
  | none => rfl
  | some p =>
    cases values with
    | nil => simp
    | cons v vs =>
      simp only [widen?, List.isEmpty_cons, Bool.false_eq_true, if_false, Option.map_some]
      rw [Predicate.map_holds_or?]
      · simp only [List.map_cons, List.map_nil, disjoined?, List.any_cons, List.any_nil, id_eq,
          Bool.or_false, Predicate.holds, Bool.bne_false]
      · intro q hq
        simp only [List.mem_cons, List.not_mem_nil, or_false] at hq
        rcases hq with rfl | rfl
        · exact hp q rfl
        · exact trivial

end EntityFilter
