import EntityFilter.Proofs.Connectives
import EntityFilter.Proofs.RowPaths

/-!
# What a leaf says

The predicate of a leaf holds exactly if the value that the leaf is applied to passes the test that
the leaf stands for: for fields (`Leaf.map_holds_predicate?_field`) and for projections
(`Leaf.map_holds_predicate?_projection`).  Nothing but this value is read.

Two operators constrain a number that is read off the value, a part of a date or a length.  In the
predicate the number is an operand of its own, while the test reads the value first; the two agree
since nothing is read off null (`Condition.value?_of_find?`).  Off a projection no number is read,
and there the operators say nothing.
-/

namespace EntityFilter

/-! ## Tests and predicates side by side -/

section

variable {α : Type} {a : α}

lemma map_allOf? (tests : List (α → Bool)) :
    (allOf? tests).map (· a) = conjoined? (tests.map (· a)) := by
  cases tests with
  | nil => rfl
  | cons test tests => simp [allOf?, conjoined?, List.all_map]

lemma map_anyOf? (tests : List (α → Bool)) :
    (anyOf? tests).map (· a) = disjoined? (tests.map (· a)) := by
  cases tests with
  | nil => rfl
  | cons test tests => simp [anyOf?, disjoined?, List.any_map]

lemma any_eq_of_mem {xs : List α} {f g : α → Bool} (h : ∀ x ∈ xs, f x = g x) :
    xs.any f = xs.any g := by
  induction xs with
  | nil => rfl
  | cons x xs ih =>
    rw [List.any_cons, List.any_cons, h x List.mem_cons_self,
      ih fun y hy => h y (List.mem_cons_of_mem _ hy)]

/-- Predicates and tests that are made from the same items, and agree item by item. -/
lemma map_filterMap_congr {ι β : Type} {items : List ι} {f : ι → Option α} {g : ι → Option β}
    {p : α → Bool} {q : β → Bool} (h : ∀ i, (f i).map p = (g i).map q) :
    (items.filterMap f).map p = (items.filterMap g).map q := by
  rw [List.map_filterMap, List.map_filterMap]
  exact congrArg (List.filterMap · items) (funext h)

end

/-! ## Conditions -/

namespace Condition

variable {ctx : RowContext} {o n : Operand} {kind : FieldKind} {now : Instant}

lemma holds_comparison (op : CompareOp) (v : Literal) :
    (Predicate.comparison o op v).holds ctx = v.compares op (o.value? ctx) := by
  cases v with
  | null => cases op <;> simp [Predicate.comparison, Predicate.holds, Literal.compares, Literal.admits]
  | _ => cases op <;> rfl

lemma holds_inPeriod (p : Period) (hasTime : Bool) :
    (Predicate.inPeriod o p hasTime).holds ctx = p.admits hasTime (o.value? ctx) := by
  simp only [Predicate.inPeriod, Predicate.holds, Predicate.allHold, Bool.and_true]
  rfl

lemma map_holds_simplePredicate? (cond : Condition) :
    (cond.simplePredicate? o kind now).map (·.holds ctx) =
      (cond.simpleTest? kind now).map (· (o.value? ctx)) := by
  cases hop : cond.info.operator with
  | compare op =>
    simp only [simplePredicate?, simpleTest?, hop]
    exact congrArg some (holds_comparison op _)
  | member negated =>
    simp only [simplePredicate?, simpleTest?, hop]
    rfl
  | between =>
    simp only [simplePredicate?, simpleTest?, hop]
    cases cond.coerced kind with
    | list bounds =>
      rcases bounds with _ | ⟨low, _ | ⟨high, _ | ⟨more, bounds⟩⟩⟩
      · rfl
      · rfl
      · exact congrArg some (congrArg (_ && ·) (Bool.and_true _))
      · rfl
    | _ => rfl
  | isNull =>
    simp only [simplePredicate?, simpleTest?, hop]
    rw [Option.map_map, Option.map_map]
    refine congrArg (Option.map · _) (funext fun missing => ?_)
    simp only [Function.comp_apply, Predicate.holds]
    cases missing <;> cases (o.value? ctx).isNone <;> rfl
  | text how ignoreCase | regex ignoreCase =>
    simp only [simplePredicate?, simpleTest?, hop]
    rw [Option.map_map, Option.map_map]
    rfl
  | period p =>
    simp only [simplePredicate?, simpleTest?, hop]
    rw [Option.map_map, Option.map_map]
    refine congrArg (Option.map · _) (funext fun inside => ?_)
    cases inside
    · simp only [Function.comp_apply, Bool.false_eq_true, if_false]
      rw [Predicate.holds_not, holds_inPeriod]
      simp
    · simp only [Function.comp_apply, if_true]
      rw [holds_inPeriod]
      simp
  | keys mode =>
    simp only [simplePredicate?, simpleTest?, hop]
    rw [Option.map_map, Option.map_map]
    refine congrArg (Option.map · _) (funext fun names => ?_)
    rfl
  | array how =>
    simp only [simplePredicate?, simpleTest?, hop]
    rfl
  | part p | length =>
    simp only [simplePredicate?, simpleTest?, hop]
    rfl

/-- What is read off the value of a field, given that nothing is read off null. -/
lemma value?_of_find? {path : FieldPath} {read : Document → Option Document}
    (hn : n.find? ctx = (ctx.row.readField? path).bind read)
    (hread : ∀ d, read d ≠ some .null) (hnull : read .null = none) :
    n.value? ctx = ((Operand.field path).value? ctx).bind read := by
  have hvalue : n.value? ctx = n.find? ctx := by
    rw [Operand.value?, hn]
    split
    · next h =>
      obtain ⟨d, -, hd⟩ := Option.bind_eq_some_iff.mp h
      exact absurd hd (hread d)
    · rfl
  rw [hvalue, hn]
  cases hd : ctx.row.readField? path with
  | none => simp [Operand.value?, Operand.find?, hd]
  | some d => cases d <;> simp [Operand.value?, Operand.find?, hd, hnull]

/-- The number that is read off a field is read off its value. -/
lemma map_value?_number? (cond : Condition) (path : FieldPath) :
    (cond.number? (.field path) kind).map (·.value? ctx) =
      (cond.reading? kind).map ((Operand.field path).value? ctx).bind := by
  cases hop : cond.info.operator with
  | part p =>
    simp only [number?, reading?, hop]
    split
    · rfl
    · refine congrArg some (value?_of_find? ?_ ?_ rfl)
      · simp only [Operand.find?, Option.map_bind]
        rfl
      · simp
  | length =>
    simp only [number?, reading?, hop]
    refine congrArg some (value?_of_find? ?_ ?_ rfl)
    · simp only [Operand.find?, Option.map_bind]
      rfl
    · simp
  | _ => simp [number?, reading?, hop]

/-- Off a projection no number is read. -/
lemma number?_projection (cond : Condition) (handle : ProjectionHandle) :
    cond.number? (.projection handle) kind = none := by
  unfold number?
  split <;> simp_all

end Condition

namespace Leaf

variable {ctx : RowContext} {o : Operand} {kind : FieldKind} {now : Instant}

lemma map_holds_numericPredicate? (l : Leaf) :
    (l.numericPredicate? o now).map (·.holds ctx) =
      (l.numericTest? now).map (· (o.value? ctx)) := by
  unfold numericPredicate? numericTest?
  rw [Predicate.map_holds_and?, map_allOf?]
  · exact congrArg conjoined? (map_filterMap_congr fun c => c.map_holds_simplePredicate?)
  · intro p hp
    obtain ⟨c, -, hc⟩ := List.mem_filterMap.mp hp
    exact Condition.isNormal_of_simplePredicate? hc

end Leaf

namespace Condition

variable {ctx : RowContext} {o : Operand} {kind : FieldKind} {now : Instant}

lemma map_holds_integerPredicate? (v : Literal) :
    (integerPredicate? o now v).map (·.holds ctx) =
      (integerTest? now v).map (· (o.value? ctx)) := by
  cases v with
  | int i => rfl
  | document d => exact Leaf.map_holds_numericPredicate? _
  | _ => rfl

lemma map_holds_predicate?_field (cond : Condition) (path : FieldPath) :
    (cond.predicate? (.field path) kind now).map (·.holds ctx) =
      (cond.test? true kind now).map (· ((Operand.field path).value? ctx)) := by
  have hnumber : ((cond.number? (.field path) kind).bind fun n =>
      integerPredicate? n now cond.operand).map (·.holds ctx) =
      ((cond.reading? kind).bind fun read =>
        (integerTest? now cond.operand).map fun test value => test (value.bind read)).map
          (· ((Operand.field path).value? ctx)) := by
    rw [Option.map_bind, Option.map_bind]
    calc (cond.number? (.field path) kind).bind
          (fun n => (integerPredicate? n now cond.operand).map (·.holds ctx))
        = (cond.number? (.field path) kind).bind
          (fun n => (integerTest? now cond.operand).map (· (n.value? ctx))) :=
          congrArg _ (funext fun n => map_holds_integerPredicate? cond.operand)
      _ = ((cond.number? (.field path) kind).map (·.value? ctx)).bind
          (fun value => (integerTest? now cond.operand).map (· value)) := by
          rw [Option.bind_map]
          rfl
      _ = _ := by
          rw [map_value?_number?, Option.bind_map]
          refine congrArg _ (funext fun read => ?_)
          rw [Function.comp_apply, Function.comp_apply, Option.map_map]
          rfl
  cases hop : cond.info.operator with
  | part p =>
    simp only [predicate?, test?, hop, if_true]
    exact hnumber
  | length =>
    simp only [predicate?, test?, hop, if_true]
    exact hnumber
  | _ =>
    simp only [predicate?, test?, hop]
    exact map_holds_simplePredicate? cond

lemma map_holds_predicate?_projection (cond : Condition) (handle : ProjectionHandle) :
    (cond.predicate? (.projection handle) kind now).map (·.holds ctx) =
      (cond.test? false kind now).map (· ((Operand.projection handle).value? ctx)) := by
  cases hop : cond.info.operator with
  | part p | length =>
    simp only [predicate?, test?, hop, number?_projection]
    rfl
  | _ =>
    simp only [predicate?, test?, hop]
    exact map_holds_simplePredicate? cond

end Condition

namespace Leaf

variable {ctx : RowContext} {kind : FieldKind} {now : Instant}

lemma map_holds_predicate?_field (l : Leaf) (path : FieldPath) :
    (l.predicate? (.field path) kind now).map (·.holds ctx) =
      (l.test? true kind now).map (· ((Operand.field path).value? ctx)) := by
  unfold predicate? test?
  rw [Predicate.map_holds_and?, map_allOf?]
  · exact congrArg conjoined?
      (map_filterMap_congr fun c => c.map_holds_predicate?_field path)
  · intro p hp
    obtain ⟨c, -, hc⟩ := List.mem_filterMap.mp hp
    exact Condition.isNormal_of_predicate? hc

lemma map_holds_predicate?_projection (l : Leaf) (handle : ProjectionHandle) :
    (l.predicate? (.projection handle) kind now).map (·.holds ctx) =
      (l.test? false kind now).map (· ((Operand.projection handle).value? ctx)) := by
  unfold predicate? test?
  rw [Predicate.map_holds_and?, map_allOf?]
  · exact congrArg conjoined?
      (map_filterMap_congr fun c => c.map_holds_predicate?_projection handle)
  · intro p hp
    obtain ⟨c, -, hc⟩ := List.mem_filterMap.mp hp
    exact Condition.isNormal_of_predicate? hc

end Leaf

/-! ## Leaves on members of a row -/

/-- A value that is read where the member of a row is. -/
lemma Operand.value?_eq_member? {o : Operand} {ctx : RowContext} {row : Document} {name : String}
    (h : o.find? ctx = row.get? name) : o.value? ctx = row.member? name := by
  cases hd : row.get? name with
  | none =>
    rw [hd] at h
    simp only [Operand.value?, Document.member?, h, hd]
  | some d =>
    rw [hd] at h
    cases d <;> simp only [Operand.value?, Document.member?, h, hd]

lemma value?_single (row : Document) (name : String) :
    (Operand.field (.single name)).value? (.ofRow row) = row.member? name :=
  Operand.value?_eq_member? (row.follow?_single name)

/-- Whether some row passes a leaf on one of its fields. -/
lemma Leaf.map_any_holdsOf (l : Leaf) (name : String) (kind : FieldKind) (now : Instant)
    (rows : List Document) :
    (l.predicate? (.field (.single name)) kind now).map (fun p => rows.any p.holdsOf) =
      (l.test? true kind now).map fun test => rows.any fun row => test (row.member? name) := by
  have hrow : ∀ row : Document,
      (l.predicate? (.field (.single name)) kind now).map (·.holdsOf row) =
        (l.test? true kind now).map (· (row.member? name)) := by
    intro row
    rw [← value?_single row name]
    exact l.map_holds_predicate?_field (.single name)
  cases hp : l.predicate? (.field (.single name)) kind now with
  | none =>
    have hnone := hrow .null
    rw [hp, Option.map_none, eq_comm, Option.map_eq_none_iff] at hnone
    rw [hnone]
    rfl
  | some p =>
    cases htest : l.test? true kind now with
    | none =>
      have hnone := hrow .null
      simp [hp, htest] at hnone
    | some test =>
      simp only [hp, htest, Option.map_some, Option.some.injEq] at hrow
      exact congrArg some (congrArg (rows.any ·) (funext hrow))

end EntityFilter
