import EntityFilter.Proofs.LeafTruth
import EntityFilter.Proofs.Requests
import EntityFilter.Proofs.RowPaths

/-!
# Compiling a filter keeps what it says

The predicate of a compiled filter holds of a row exactly if the filter, read as it stands, is
satisfied (`Compiler.predicate?_interprets`).  The two readings look at different rows: below a
relation to one row the interpreter has moved to the row there, while the predicate is still tested
on the row that it started from and reaches the same values by longer paths.  `Scope.Sees` is the
invariant that ties the two rows together.  It is where a value of a relation to one row must not be
an array: a path goes through the items of an array, the interpreter does not.
-/

namespace EntityFilter

/-! ## The two rows -/

/-- A predicate that was made in the scope, tested on the first row, reads what the interpreter
reads in the second one. -/
structure Scope.Sees (c : Compiler) (s : Scope) (outer inner : Document) : Prop where
  field : ∀ name, outer.readField? (s.fieldPath name) = inner.get? name
  related : ∀ name, outer.related (s.relationPath name).segments = inner.rowsAt name
  single : inner.singleValued c.catalog s.entity

namespace Scope.Sees

variable {c : Compiler} {s : Scope} {outer inner base row : Document} {name : String} {r : Relation}
  {target e : Entity}

lemma refl {path : RelationPath} (h : row.singleValued c.catalog e) :
    Scope.Sees c { entity := e, rows := path } row row where
  field := row.follow?_single
  related := row.related_single
  single := h

/-- Joining a relation moves the interpreter to the row that it leads to. -/
lemma join (h : s.Sees c outer inner) (hr : c.relation? s name = some (r, target))
    (ho : r.isToOne) : (s.join name target).Sees c outer (inner.valueAt name) where
  field next := by
    have hread : outer.follow? (s.joined.segments ++ [name]) = inner.get? name := h.field name
    show outer.follow? (s.joined.segments ++ [name] ++ [next]) = _
    rw [Document.follow?_append, hread]
    unfold Document.valueAt
    cases inner.get? name with
    | none => rfl
    | some d => exact d.follow?_single next
  related next := by
    have hread : outer.related (s.joined.segments ++ [name]) = inner.rowsAt name := h.related name
    show outer.related (s.joined.segments ++ [name] ++ [next]) = _
    rw [Document.related_append, hread, funext fun d => Document.related_single d next]
    exact Document.rowsAt_valueAt
      (fun d hd => (Document.singleValued_of_get? h.single hd hr).1 ho) next
  single := by
    unfold Document.valueAt
    cases hd : inner.get? name with
    | none => rfl
    | some d =>
      obtain ⟨harray, hrows⟩ := Document.singleValued_of_get? h.single hd hr
      exact Document.singleValued_of_not_isArray hrows (harray ho)

/-- Both readings begin anew in a row of their own. -/
lemma enter (h : s.Sees c outer inner) (hr : c.relation? s name = some (r, target))
    (hrow : row ∈ inner.rowsAt name) : (s.enter name target).Sees c row row := by
  refine refl ?_
  unfold Document.rowsAt at hrow
  cases hd : inner.get? name with
  | none => simp [hd] at hrow
  | some d =>
    simp only [hd, Option.map_some, Option.getD_some] at hrow
    exact Document.singleValued_of_mem_rows
      (Document.singleValued_of_get? h.single hd hr).2 row hrow

lemma value? (h : s.Sees c outer inner) (name : String) :
    (Operand.field (s.fieldPath name)).value? ⟨outer, base⟩ = inner.member? name :=
  Operand.value?_eq_member? (h.field name)

end Scope.Sees

/-! ## Entries without filters -/

namespace Compiler

variable {c : Compiler} {set : ProjectionSet} {s : Scope} {outer inner base : Document}

lemma map_holds_projected? (p : Plan) (leaf : Leaf) :
    (c.projected? set p leaf).map (·.holds ⟨outer, base⟩) =
      (c.projectedMeaning? set p leaf).map (· ⟨inner, base⟩) := by
  unfold projected? projectedMeaning?
  cases hlookup : set.lookup? p.key with
  | none => rfl
  | some handle =>
    have hname := (ProjectionSet.lookup?_eq_some.mp hlookup).1
    rw [Option.bind_some, Leaf.map_holds_predicate?_projection, Option.isSome_some, if_pos rfl,
      Option.map_map]
    refine congrArg (Option.map · _) (funext fun test => ?_)
    simp only [Function.comp_apply, Operand.value?, Operand.find?, hname]
    rfl

lemma isNormal_of_projected? {p : Plan} {leaf : Leaf} {q : Predicate}
    (h : c.projected? set p leaf = some q) : q.IsNormal := by
  obtain ⟨handle, -, hq⟩ := Option.bind_eq_some_iff.mp h
  exact Leaf.isNormal_of_predicate? hq

lemma map_holds_plan (plan? : Option Plan) (leaf : Leaf) :
    (plan?.bind fun p => c.projected? set p leaf).map (·.holds ⟨outer, base⟩) =
      (plan?.bind fun p => c.projectedMeaning? set p leaf).map (· ⟨inner, base⟩) := by
  cases plan? with
  | none => rfl
  | some p => exact map_holds_projected? p leaf

/-- Several plans of an entry, each with its leaf. -/
lemma map_holds_plans {α : Type} (items : List α) (plan? : α → Option Plan) (leaf : α → Leaf) :
    (Predicate.and? (items.filterMap fun i =>
      (plan? i).bind fun p => c.projected? set p (leaf i))).map (·.holds ⟨outer, base⟩) =
      (allOf? (items.filterMap fun i =>
        (plan? i).bind fun p => c.projectedMeaning? set p (leaf i))).map (· ⟨inner, base⟩) := by
  rw [Predicate.map_holds_and?, map_allOf?]
  · exact congrArg conjoined? (map_filterMap_congr fun i => map_holds_plan (plan? i) (leaf i))
  · intro p hp
    obtain ⟨i, -, hi⟩ := List.mem_filterMap.mp hp
    obtain ⟨plan, -, hplan⟩ := Option.bind_eq_some_iff.mp hi
    exact isNormal_of_projected? hplan

lemma map_holds_stored (h : s.Sees c outer inner) (name : String) (leaf : Leaf) (kind : FieldKind) :
    (leaf.predicate? (.field (s.fieldPath name)) kind c.now).map (·.holds ⟨outer, base⟩) =
      ((leaf.test? true kind c.now).map fun test (ctx : RowContext) =>
        test (ctx.row.member? name)).map (· ⟨inner, base⟩) := by
  rw [Leaf.map_holds_predicate?_field, h.value?, Option.map_map]
  rfl

/-- The rows that an existence test looks at are those that the interpreter looks at. -/
lemma holds_existence (h : s.Sees c outer inner) (name entity : String) (p : Option Predicate) :
    (Predicate.existence (s.relationPath name) entity p).holds ⟨outer, base⟩ =
      (inner.rowsAt name).any fun row => p.all (·.holdsOf row) := by
  cases p with
  | none =>
    simp only [Predicate.holds, h.related]
    cases inner.rowsAt name <;> simp
  | some p => simp only [Predicate.holds, h.related, Option.all_some, Predicate.holdsOf]

lemma map_holds_relation (h : s.Sees c outer inner) (name : String) (leaf : Leaf) :
    (c.relationPredicate? s name leaf).map (·.holds ⟨outer, base⟩) =
      (c.relationMeaning? s name leaf).map (· ⟨inner, base⟩) := by
  unfold relationPredicate? relationMeaning?
  by_cases hf : c.canFollow s
  · simp only [hf, if_true]
    cases hr : c.relation? s name with
    | none => rfl
    | some found =>
      obtain ⟨r, target⟩ := found
      simp only
      by_cases ho : r.isToOne
      · simp only [ho, if_true]
        exact (map_holds_stored (h.join hr ho) target.primaryKey leaf _).trans (by
          rw [Option.map_map, Option.map_map]
          rfl)
      · simp only [ho, Bool.false_eq_true, if_false]
        rw [Option.map_map, Option.map_map]
        have hrows := leaf.map_any_holdsOf target.primaryKey target.primaryKeyKind c.now
          (inner.rowsAt name)
        refine (congrArg (Option.map · _) (funext fun p => ?_)).trans hrows
        exact holds_existence h name target.name (some p)
  · simp [hf]

lemma map_holds_field (h : s.Sees c outer inner) (name : String) (leaf : Leaf) :
    (c.fieldPredicate? s name leaf).map (·.holds ⟨outer, base⟩) =
      (c.fieldMeaning? s name leaf).map (· ⟨inner, base⟩) := by
  unfold fieldPredicate? fieldMeaning?
  cases s.entity.field? name with
  | none => exact map_holds_relation h name leaf
  | some f =>
    by_cases hgate : f.kind.isArray && !c.settings.features.array
    · simp [hgate]
    · simp only [hgate]
      exact map_holds_stored h name leaf f.kind

lemma map_holds_quick (h : s.Sees c outer inner) (text : String) :
    (quickPredicate? s text).map (·.holds ⟨outer, base⟩) =
      (quickMeaning? s text).map (· ⟨inner, base⟩) := by
  simp only [quickPredicate?, quickMeaning?]
  split
  · rfl
  · rw [Predicate.map_holds_or?, map_anyOf?]
    · rw [List.map_map, List.map_map]
      refine congrArg disjoined? (congrArg (List.map · _) (funext fun f => ?_))
      simp only [Function.comp_apply, Predicate.holds, h.value?]
    · intro p hp
      obtain ⟨f, -, rfl⟩ := List.mem_map.mp hp
      exact trivial

lemma holds_search {search : SearchFilter} {plan : SearchPlan} {vector : ProjectionHandle}
    (hvector : set.lookup? plan.vector = some vector) :
    (Predicate.search vector search.query search.mode plan.config).holds ⟨outer, base⟩ =
      ((base.get? plan.vector.name).bind Document.asText?).any fun document =>
        search.mode.finds document search.query := by
  have hname := (ProjectionSet.lookup?_eq_some.mp hvector).1
  simp only [Predicate.holds, hname]

lemma map_holds_search (search : SearchFilter) :
    (c.searchPredicate? set s search).map (·.holds ⟨outer, base⟩) =
      (c.searchMeaning? set s search).map (· ⟨inner, base⟩) := by
  unfold searchPredicate? searchMeaning?
  cases c.planSearch? s search with
  | none => rfl
  | some plan =>
    show Option.map _ ((set.lookup? plan.vector).bind _) = _
    cases hvector : set.lookup? plan.vector with
    | none => simp [hvector]
    | some vector =>
      simp only [hvector, Option.bind_some, Option.isSome_some, if_true]
      cases plan.rank with
      | none => exact congrArg some (holds_search hvector)
      | some key =>
        cases search.minRank with
        | none => exact congrArg some (holds_search hvector)
        | some least =>
          show Option.map _ ((set.lookup? key).bind _) = _
          cases hkey : set.lookup? key with
          | none => simp [hkey]
          | some handle =>
            have hname := (ProjectionSet.lookup?_eq_some.mp hkey).1
            simp only [hkey, Option.bind_some, Option.isSome_some, if_true]
            rw [Predicate.map_holds_and?]
            · simp only [List.map_cons, List.map_nil, conjoined?, List.all_cons, List.all_nil,
                id_eq, Bool.and_true, holds_search hvector]
              simp only [Predicate.holds, Operand.value?, Operand.find?, hname]
              rfl
            · intro p hp
              simp only [List.mem_cons, List.not_mem_nil, or_false] at hp
              rcases hp with rfl | rfl <;> exact trivial

lemma holds_comparison (h : s.Sees c outer inner) (left right : String) (op : CompareOp) :
    (Predicate.compareOperands (.field (s.fieldPath left)) op (.field (s.fieldPath right))).holds
        ⟨outer, base⟩ =
      match inner.member? left, inner.member? right with
      | some a, some b => (a.compare? b).any op.holds
      | _, _ => false := by
  have hleft : (Operand.field (s.fieldPath left)).value? ⟨outer, base⟩ = inner.member? left :=
    h.value? left
  have hright : (Operand.field (s.fieldPath right)).value? ⟨outer, base⟩ = inner.member? right :=
    h.value? right
  rw [← hleft, ← hright]
  rfl

lemma map_holds_comparisons (h : s.Sees c outer inner) (items : List FieldComparison) :
    (Predicate.and? (items.filterMap (comparisonPredicate? s))).map (·.holds ⟨outer, base⟩) =
      (allOf? (items.filterMap (comparisonMeaning? s))).map (· ⟨inner, base⟩) := by
  rw [Predicate.map_holds_and?, map_allOf?]
  · refine congrArg conjoined? (map_filterMap_congr fun cmp => ?_)
    unfold comparisonPredicate? comparisonMeaning?
    cases s.entity.field? cmp.left with
    | none => rfl
    | some left =>
      cases s.entity.field? cmp.right with
      | none => rfl
      | some right =>
        by_cases hfamily : left.kind.family.isComparableWith right.kind.family
        · simp only [hfamily, if_true]
          exact congrArg some (holds_comparison h cmp.left cmp.right cmp.op)
        · simp [hfamily]
  · intro p hp
    obtain ⟨cmp, -, hcmp⟩ := List.mem_filterMap.mp hp
    unfold comparisonPredicate? at hcmp
    split at hcmp
    · split at hcmp
      · obtain rfl := Option.some.inj hcmp
        exact trivial
      · simp at hcmp
    · simp at hcmp

end Compiler

/-! ## Filters -/

section

variable {c : Compiler} {set : ProjectionSet} {s : Scope} {outer inner base : Document}

/-- Identifiers that are included widen a predicate as they widen what is said. -/
lemma Scope.Sees.map_holds_widen? (h : s.Sees c outer inner) (values : List Literal)
    {p : Option Predicate} {m : Option Meaning} (hnormal : ∀ q, p = some q → q.IsNormal)
    (hm : p.map (·.holds ⟨outer, base⟩) = m.map (· ⟨inner, base⟩)) :
    (s.widen? values p).map (·.holds ⟨outer, base⟩) =
      (m.map (s.includeMeaning values)).map (· ⟨inner, base⟩) := by
  rw [Scope.map_holds_widen? hnormal, hm, h.value?, Option.map_map, Option.map_map]
  rfl

/-- Rows are satisfied by a predicate exactly if they are by what is said. -/
lemma Meaning.satisfied_eq {p : Option Predicate} {m : Option Meaning} {row : Document}
    (hm : p.map (·.holdsOf row) = m.map (· (.ofRow row))) :
    p.all (·.holdsOf row) = Meaning.satisfied m row := by
  have hall : ∀ o : Option Bool, o.all id = o.getD true := by
    intro o
    cases o <;> rfl
  have hp : p.all (·.holdsOf row) = (p.map (·.holdsOf row)).all id := by
    cases p <;> rfl
  rw [hp, hm]
  cases m <;> rfl

/-- An existence test, given that the predicate on a row agrees with what is said. -/
lemma Compiler.holds_existence_satisfied (h : s.Sees c outer inner) (name entity : String)
    {p : Option Predicate} {m : Option Meaning}
    (hm : ∀ row ∈ inner.rowsAt name, p.map (·.holdsOf row) = m.map (· (.ofRow row))) :
    (Predicate.existence (s.relationPath name) entity p).holds ⟨outer, base⟩ =
      (inner.rowsAt name).any (Meaning.satisfied m) := by
  rw [Compiler.holds_existence h]
  exact any_eq_of_mem fun row hrow => Meaning.satisfied_eq (hm row hrow)

lemma Compiler.holds_quantifier (h : s.Sees c outer inner) (q : Quantifier)
    (name entity : String) {p : Option Predicate} {m : Option Meaning}
    (hm : ∀ row ∈ inner.rowsAt name, p.map (·.holdsOf row) = m.map (· (.ofRow row))) :
    (q.predicate (s.relationPath name) entity p).holds ⟨outer, base⟩ =
      q.holds m (inner.rowsAt name) := by
  have hfound : (Predicate.existence (s.relationPath name) entity p).holds ⟨outer, base⟩ = _ :=
    Compiler.holds_existence_satisfied h name entity hm
  have hthere : (Predicate.existence (s.relationPath name) entity none).holds ⟨outer, base⟩ =
      !(inner.rowsAt name).isEmpty := by
    rw [Predicate.holds, h.related]
  cases q with
  | some => exact hfound
  | none =>
    simp only [Quantifier.predicate]
    rw [Predicate.holds_not, hfound]
    rfl
  | every =>
    cases p with
    | none =>
      simp only [Quantifier.predicate, Quantifier.holds]
      have hall : (inner.rowsAt name).all (Meaning.satisfied m) := by
        rw [List.all_eq_true]
        intro row hrow
        rw [← Meaning.satisfied_eq (hm row hrow)]
        rfl
      rw [hthere, hall, Bool.and_true]
    | some p =>
      have hfails : (Predicate.existence (s.relationPath name) entity (some p.not)).holds
          ⟨outer, base⟩ = !(inner.rowsAt name).all (Meaning.satisfied m) := by
        rw [Compiler.holds_existence h, List.not_all_eq_any_not]
        refine any_eq_of_mem fun row hrow => ?_
        rw [← Meaning.satisfied_eq (hm row hrow)]
        exact p.holds_not
      have hboth : (Quantifier.every.predicate (s.relationPath name) entity (some p)).holds
          ⟨outer, base⟩ =
          ((Predicate.existence (s.relationPath name) entity none).holds ⟨outer, base⟩ &&
            (!(Predicate.existence (s.relationPath name) entity (some p.not)).holds
              ⟨outer, base⟩ && true)) := rfl
      rw [hboth, hthere, hfails, Bool.not_not, Bool.and_true]
      rfl

lemma ExistenceTest.holds_predicate (h : s.Sees c outer inner) (t : ExistenceTest)
    (entity : String) {p : Option Predicate} {m : Option Meaning}
    (hm : ∀ row ∈ inner.rowsAt t.relation,
      p.map (·.holdsOf row) = m.map (· (.ofRow row))) :
    (t.predicate (s.relationPath t.relation) entity p).holds ⟨outer, base⟩ =
      t.holds m (inner.rowsAt t.relation) := by
  have hfound : (Predicate.existence (s.relationPath t.relation) entity p).holds ⟨outer, base⟩ =
      _ := Compiler.holds_existence_satisfied h t.relation entity hm
  unfold ExistenceTest.predicate ExistenceTest.holds
  cases t.expected
  · simp only [Bool.false_eq_true, if_false]
    rw [Predicate.holds_not, hfound]
    simp
  · simp only [if_true]
    rw [hfound]
    simp

end

mutual

/-- **Predicates hold of what filters are satisfied by**, in any scope: the predicate is tested on
the first row, and the filter is read for the second one. -/
theorem Filter.map_holds_predicate? {c : Compiler} {set : ProjectionSet} :
    ∀ {s : Scope} (f : Filter) {outer inner base : Document}, s.Sees c outer inner →
      (f.predicate? c set s).map (·.holds ⟨outer, base⟩) =
        (f.meaning? c set s).map (· ⟨inner, base⟩)
  | s, .node es, outer, inner, base, h => by
    rw [Filter.predicate?, Filter.meaning?]
    refine h.map_holds_widen? _ (fun q hq => ?_) ?_
    · exact Predicate.IsNormal.and? FilterEntry.isNormal_of_mem_predicates hq
    · rw [Predicate.map_holds_and? FilterEntry.isNormal_of_mem_predicates, map_allOf?,
        FilterEntry.map_holds_predicates es h]

theorem FilterEntry.map_holds_predicates {c : Compiler} {set : ProjectionSet} :
    ∀ {s : Scope} (es : List (String × FilterEntry)) {outer inner base : Document},
      s.Sees c outer inner →
      (FilterEntry.predicates c set s es).map (·.holds ⟨outer, base⟩) =
        (FilterEntry.meanings c set s es).map (· ⟨inner, base⟩)
  | _, [], _, _, _, _ => rfl
  | s, (key, e) :: es, outer, inner, base, h => by
    rw [FilterEntry.predicates, FilterEntry.meanings, List.map_append, List.map_append,
      FilterEntry.map_holds_predicates es h, ← Option.toList_map, ← Option.toList_map,
      FilterEntry.map_holds_predicate? e h]

theorem FilterEntry.map_holds_predicate? {c : Compiler} {set : ProjectionSet} {s : Scope}
    {key : String} :
    ∀ (e : FilterEntry) {outer inner base : Document}, s.Sees c outer inner →
      (e.predicate? c set s key).map (·.holds ⟨outer, base⟩) =
        (e.meaning? c set s key).map (· ⟨inner, base⟩)
  | .all fs, _, _, _, h => by
    rw [FilterEntry.predicate?, FilterEntry.meaning?,
      Predicate.map_holds_and? Filter.isNormal_of_mem_predicates, map_allOf?,
      Filter.map_holds_predicates fs h]
  | .any fs, _, _, _, h => by
    rw [FilterEntry.predicate?, FilterEntry.meaning?,
      Predicate.map_holds_or? Filter.isNormal_of_mem_predicates, map_anyOf?,
      Filter.map_holds_predicates fs h]
  | .negation f, outer, inner, base, h => by
    have hf : (f.predicate? c set s).map (·.holds ⟨outer, base⟩) = _ :=
      Filter.map_holds_predicate? f h
    have hnot : (fun p : Predicate => p.not.holds ⟨outer, base⟩) =
        fun p => !p.holds ⟨outer, base⟩ := funext Predicate.holds_not
    rw [FilterEntry.predicate?, FilterEntry.meaning?, Option.map_map, Option.map_map]
    calc (f.predicate? c set s).map (fun p => p.not.holds ⟨outer, base⟩)
        = ((f.predicate? c set s).map (·.holds ⟨outer, base⟩)).map (!·) := by
          rw [hnot, Option.map_map]
          rfl
      _ = _ := by
          rw [hf, Option.map_map]
          rfl
  | .id leaf, _, _, _, h => Compiler.map_holds_stored h s.entity.primaryKey leaf _
  | .quick text, _, _, _, h => Compiler.map_holds_quick h text
  | .included _, _, _, _, _ => rfl
  | .search search, _, _, _, _ => Compiler.map_holds_search search
  | .window items, _, _, _, _ => Compiler.map_holds_plans items _ _
  | .subquery items, _, _, _, _ => Compiler.map_holds_plans items _ _
  | .existence items, _, _, _, h => by
    rw [FilterEntry.predicate?, FilterEntry.meaning?,
      Predicate.map_holds_and? ExistenceTest.isNormal_of_mem_predicates, map_allOf?,
      ExistenceTest.map_holds_predicates items h]
  | .compare items, _, _, _, h => Compiler.map_holds_comparisons h items
  | .related relation f, _, _, _, h => by
    rw [FilterEntry.predicate?, FilterEntry.meaning?]
    cases hj : c.joinedScope? s relation with
    | none => rfl
    | some scope =>
      obtain ⟨-, r, target, hr, ho, rfl⟩ := Compiler.joinedScope?_eq_some.mp hj
      simp only
      rw [Filter.map_holds_predicate? f (h.join hr ho), Option.map_map]
      rfl
  | .quantified relation quantifier f, _, _, _, h => by
    rw [FilterEntry.predicate?, FilterEntry.meaning?]
    cases hj : c.rowsScope? s relation with
    | none => rfl
    | some scope =>
      obtain ⟨-, r, target, hr, -, rfl⟩ := Compiler.rowsScope?_eq_some.mp hj
      exact congrArg some (Compiler.holds_quantifier h quantifier relation _ fun row hrow =>
        Filter.map_holds_predicate? f (h.enter hr hrow))
  | .aggregate a condition, _, _, _, _ => Compiler.map_holds_plans a.functions _ _
  | .trunc t, _, _, _, _ => Compiler.map_holds_plan _ _
  | .extract e, _, _, _, _ => Compiler.map_holds_plan _ _
  | .count relation leaf, _, _, _, h => by
    rw [FilterEntry.predicate?, FilterEntry.meaning?]
    split
    · exact Compiler.map_holds_field h key leaf
    · exact Compiler.map_holds_plan _ _
  | .field name leaf, _, _, _, h => Compiler.map_holds_field h name leaf

theorem Filter.map_holds_predicates {c : Compiler} {set : ProjectionSet} :
    ∀ {s : Scope} (fs : List Filter) {outer inner base : Document}, s.Sees c outer inner →
      (Filter.predicates c set s fs).map (·.holds ⟨outer, base⟩) =
        (Filter.meanings c set s fs).map (· ⟨inner, base⟩)
  | _, [], _, _, _, _ => rfl
  | s, f :: fs, outer, inner, base, h => by
    rw [Filter.predicates, Filter.meanings, List.map_append, List.map_append,
      Filter.map_holds_predicates fs h, ← Option.toList_map, ← Option.toList_map,
      Filter.map_holds_predicate? f h]

theorem ExistenceTest.map_holds_predicates {c : Compiler} {set : ProjectionSet} :
    ∀ {s : Scope} (items : List (ExistenceTest × Option Filter)) {outer inner base : Document},
      s.Sees c outer inner →
      (ExistenceTest.predicates c set s items).map (·.holds ⟨outer, base⟩) =
        (ExistenceTest.meanings c set s items).map (· ⟨inner, base⟩)
  | _, [], _, _, _, _ => rfl
  | s, (t, none) :: items, outer, inner, base, h => by
    rw [ExistenceTest.predicates, ExistenceTest.meanings, List.map_append, List.map_append,
      ExistenceTest.map_holds_predicates items h, ← Option.toList_map, ← Option.toList_map,
      Option.map_map, Option.map_map]
    refine congrArg (fun o : Option Bool => o.toList ++ _)
      (congrArg (Option.map · _) (funext fun target => ?_))
    exact ExistenceTest.holds_predicate h t target.name fun _ _ => rfl
  | s, (t, some f) :: items, outer, inner, base, h => by
    rw [ExistenceTest.predicates, ExistenceTest.meanings, List.map_append, List.map_append,
      ExistenceTest.map_holds_predicates items h, ← Option.toList_map, ← Option.toList_map,
      Option.map_map, Option.map_map]
    cases ht : c.existenceTarget? s t.relation true with
    | none => rfl
    | some target =>
      obtain ⟨-, -, -, r, hr⟩ := Compiler.existenceTarget?_eq_some.mp ht
      refine congrArg (fun o : Option Bool => o.toList ++ _) (congrArg some ?_)
      exact ExistenceTest.holds_predicate h t target.name fun row hrow =>
        Filter.map_holds_predicate? f (h.enter hr hrow)

end

/-- **Compiling and testing is reading.**  Over any set of projections, the predicate of a filter
holds of a row exactly if the filter, read as it stands, is satisfied by the row, and there is no
predicate exactly if the filter says nothing; provided that no relation to one row holds an array. -/
theorem Compiler.predicate?_interprets (c : Compiler) (f : Filter) (e : Entity)
    (set : ProjectionSet) (row : Document) (h : row.singleValued c.catalog e) :
    (c.predicate? f e set).map (·.holdsOf row) =
      (f.meaning? c set { entity := e }).map (· (.ofRow row)) :=
  Filter.map_holds_predicate? f (Scope.Sees.refl h)

namespace Shop

/-- A brand of a given name, all of whose reviews are kind. -/
def kindlyReviewed : Filter :=
  .node [("brand_rel", .related "brand" (.node [
    ("name", .field "name" (leaf "eq" (.text "Acme"))),
    ("reviews_every", .quantified "reviews" .every
      (.node [("text", .field "text" (leaf "icontains" (.text "good")))]))]))]

/-- A product of the brand with one review. -/
def acmeRow : Document :=
  .object [("id", .int 1), ("brand", .object [("id", .int 7), ("name", .text "Acme"),
    ("reviews", .array [.object [("id", .int 3), ("text", .text "Good enough")]])])]

end Shop

theorem Compiler.predicate?_interprets_shop :
    Shop.acmeRow.singleValued Shop.compiler.catalog Shop.product ∧
      (Shop.compiler.predicate? Shop.kindlyReviewed Shop.product .empty).map
        (·.holdsOf Shop.acmeRow) = some true := by
  have h : Shop.acmeRow.singleValued Shop.compiler.catalog Shop.product := by decide +kernel
  refine ⟨h, (Shop.compiler.predicate?_interprets Shop.kindlyReviewed Shop.product .empty
    Shop.acmeRow h).trans ?_⟩
  decide +kernel

end EntityFilter
