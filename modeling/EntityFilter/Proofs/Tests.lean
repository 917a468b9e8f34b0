import EntityFilter.Proofs.Contributions

/-!
# The tests in a predicate

A predicate is connectives and existence tests around tests of single values.  `Predicate.tests`
lists the latter, each with the path of relations that the existence tests around it follow: the
path to the rows on which the test is made.

The path of a test is that of the scope in which its entry was compiled.  That is what
`Filter.test_provenance` says: every test in the predicate of a filter is made by a visited entry,
on the rows of the scope of the visit, or looks for the identifiers that a filter includes.  And a
test that a leaf makes reads what the leaf was applied to, and nothing else
(`Leaf.readsAt_of_predicate?`).
-/

namespace EntityFilter

/-! ## Where a test reads -/

/-- Where an operand is read. -/
inductive Source where
  /-- In a field. -/
  | field (path : FieldPath)
  /-- In a projection. -/
  | projection (handle : ProjectionHandle)
  deriving DecidableEq

/-- The source of an operand. -/
def Operand.source : Operand → Source
  | field path | datePart path _ | arrayLength path => .field path
  | projection handle => .projection handle

namespace Predicate

/-- The sources of a single test. -/
def sources : Predicate → List Source
  | compare left _ _ => [left.source]
  | compareOperands left _ right => [left.source, right.source]
  | member operand _ _ | isNull operand _ | text operand _ _ _ | regex operand _ _
  | keys operand _ _ | array operand _ _ => [operand.source]
  | search vector _ _ _ => [.projection vector]
  | existence _ _ _ | all _ | any _ | negation _ => []

/-- The regular expression of a single test. -/
def pattern? : Predicate → Option String
  | regex _ pattern _ => some pattern
  | _ => none

/-! ## The tests and where they are made -/

mutual

/-- The tests of single values in a predicate, each with the path to the rows it is made on. -/
def tests (path : RelationPath) : Predicate → List (RelationPath × Predicate)
  | all ps | any ps => testsOfAll path ps
  | negation p => tests path p
  | existence relation _ (some p) => tests (path ++ relation) p
  | existence _ _ none => []
  | p => [(path, p)]

/-- The tests in predicates. -/
def testsOfAll (path : RelationPath) : List Predicate → List (RelationPath × Predicate)
  | [] => []
  | p :: ps => tests path p ++ testsOfAll path ps

end

variable {path : RelationPath} {t : RelationPath × Predicate} {T : RelationPath × Predicate → Prop}

lemma mem_testsOfAll {ps : List Predicate} :
    t ∈ testsOfAll path ps ↔ ∃ p ∈ ps, t ∈ p.tests path := by
  induction ps with
  | nil => simp [testsOfAll]
  | cons p ps ih => simp [testsOfAll, ih]

/-- To hold of every test in a predicate is to look through the connectives. -/
lemma local_tests (path : RelationPath) (T : RelationPath × Predicate → Prop) :
    Local fun p => ∀ t ∈ p.tests path, T t where
  all ps := by
    simp only [tests, mem_testsOfAll]
    exact ⟨fun h p hp t ht => h t ⟨p, hp, ht⟩, fun h t ⟨p, hp, ht⟩ => h p hp t ht⟩
  any ps := by
    simp only [tests, mem_testsOfAll]
    exact ⟨fun h p hp t ht => h t ⟨p, hp, ht⟩, fun h t ⟨p, hp, ht⟩ => h p hp t ht⟩
  negation p := by
    simp only [tests]

mutual

/-- The path in front says where the tests are made, not which tests there are. -/
theorem map_snd_tests (path path' : RelationPath) :
    ∀ p : Predicate, (p.tests path).map Prod.snd = (p.tests path').map Prod.snd
  | all ps | any ps => map_snd_testsOfAll path path' ps
  | negation p => map_snd_tests path path' p
  | existence relation _ (some p) => map_snd_tests (path ++ relation) (path' ++ relation) p
  | existence _ _ none => rfl
  | compare _ _ _ | compareOperands _ _ _ | member _ _ _ | isNull _ _ | text _ _ _ _
  | regex _ _ _ | keys _ _ _ | array _ _ _ | search _ _ _ _ => rfl

theorem map_snd_testsOfAll (path path' : RelationPath) :
    ∀ ps : List Predicate,
      (testsOfAll path ps).map Prod.snd = (testsOfAll path' ps).map Prod.snd
  | [] => rfl
  | p :: ps => by
    simp only [testsOfAll, List.map_append]
    rw [map_snd_tests path path' p, map_snd_testsOfAll path path' ps]

end

lemma tests_existence (relation : RelationPath) (entity : String) (p : Predicate) :
    (existence relation entity (some p)).tests path = p.tests (path ++ relation) := rfl

end Predicate

namespace Scope

lemma rows_enter (s : Scope) (name : String) (target : Entity) :
    (s.enter name target).rows = s.rows ++ s.relationPath name := by
  show RelationPath.mk _ = RelationPath.mk _
  simp only [path, relationPath, RelationPath.join]
  exact congrArg _ (List.append_assoc _ _ _)

end Scope

/-- Tests of what is carried: existence tests lead from the rows of a scope to the rows of the scope
that they enter. -/
lemma Compiler.carries_tests (c : Compiler) {T : RelationPath × Predicate → Prop}
    (hT : ∀ (s : Scope) values,
      T (s.rows, .member (.field (s.fieldPath s.entity.primaryKey)) values false)) :
    c.Carries fun s p => ∀ t ∈ p.tests s.rows, T t where
  and? := fun {s _ _} => (Predicate.local_tests s.rows T).and?
  or? := fun {s _ _} => (Predicate.local_tests s.rows T).or?
  not := fun {s _} => (Predicate.local_tests s.rows T).not
  included s values := by
    intro t ht
    obtain rfl := List.mem_singleton.mp ht
    exact hT s values
  join _ _ _ _ h := h
  someRow _ _ _ := by
    intro t ht
    simp [Predicate.tests] at ht
  someRowWith _ _ _ h := by
    rw [Scope.rows_enter] at h
    exact h

/-- A test that looks for the identifiers that a filter includes. -/
def IncludesKeys (t : RelationPath × Predicate) : Prop :=
  ∃ path values, t.2 = .member (.field path) values false

/-- **Every test is made by a visited entry**, on the rows of the scope of the visit, unless it
looks for the identifiers that a filter includes. -/
theorem Filter.test_provenance {c : Compiler} {set : ProjectionSet} {s : Scope} {f : Filter}
    {p : Predicate} (hp : f.predicate? c set s = some p) {t : RelationPath × Predicate}
    (ht : t ∈ p.tests s.rows) :
    IncludesKeys t ∨ ∃ v ∈ f.visits c s, ∃ q, v.predicate? c set = some q ∧
      t ∈ q.tests v.scope.rows := by
  have hQ := c.carries_tests (T := fun t => IncludesKeys t ∨ ∃ v ∈ f.visits c s, ∃ q,
    v.predicate? c set = some q ∧ t ∈ q.tests v.scope.rows) fun s values =>
      .inl ⟨s.fieldPath s.entity.primaryKey, values, rfl⟩
  refine Filter.predicate?_of_carries hQ f (fun v hv => ⟨fun _ _ => trivial, ?_⟩) p hp t ht
  intro q hq t ht
  exact .inr ⟨v, hv, q, hq, ht⟩

/-! ## The tests that a leaf makes -/

namespace Condition

variable {cond : Condition} {o n : Operand} {kind : FieldKind} {now : Instant} {p : Predicate}
  {Q : Predicate → Prop}

lemma ofOperator?_eq_some {family : OperatorFamily} {name : String} {operand : Literal}
    (h : ofOperator? family name operand = some cond) :
    cond.info ∈ family.operators ∧ cond.info.name = name ∧
      family.shaped? cond.info.shape operand = some cond.operand := by
  obtain ⟨info, hinfo, h⟩ := Option.bind_eq_some_iff.mp h
  obtain ⟨shaped, hshaped, h⟩ := Option.bind_eq_some_iff.mp h
  obtain rfl := Option.some.inj h
  refine ⟨List.mem_of_find?_eq_some hinfo, ?_, hshaped⟩
  simpa using List.find?_some hinfo

lemma source_of_number? (h : cond.number? o kind = some n) : n.source = o.source := by
  unfold number? at h
  split at h
  · split at h
    · simp at h
    · obtain rfl := Option.some.inj h
      rfl
  · obtain rfl := Option.some.inj h
    rfl
  · simp at h

lemma bounds_of_local (hQ : Predicate.Local Q) (htest : ∀ q, q.sources = [o.source] → Q q)
    {low high : CompareOp} {v w : Literal} :
    Q (.all [.compare o low v, .compare o high w]) := by
  refine (hQ.all _).mpr fun q hq => ?_
  simp only [List.mem_cons, List.not_mem_nil, or_false] at hq
  rcases hq with rfl | rfl <;> exact htest _ rfl

lemma simplePredicate?_of_local (hQ : Predicate.Local Q)
    (htest : ∀ q, q.sources = [o.source] → Q q)
    (h : cond.simplePredicate? o kind now = some p) : Q p := by
  simp only [simplePredicate?] at h
  split at h
  · obtain rfl := Option.some.inj h
    unfold Predicate.comparison
    split <;> exact htest _ rfl
  · obtain rfl := Option.some.inj h
    exact htest _ rfl
  · split at h
    · obtain rfl := Option.some.inj h
      exact bounds_of_local hQ htest
    · simp at h
  · obtain ⟨b, -, rfl⟩ := Option.map_eq_some_iff.mp h
    exact htest _ rfl
  · obtain ⟨text, -, rfl⟩ := Option.map_eq_some_iff.mp h
    exact htest _ rfl
  · obtain ⟨text, -, rfl⟩ := Option.map_eq_some_iff.mp h
    exact htest _ rfl
  · obtain ⟨inside, -, rfl⟩ := Option.map_eq_some_iff.mp h
    cases inside
    · exact hQ.not (bounds_of_local hQ htest)
    · exact bounds_of_local hQ htest
  · obtain ⟨names, -, rfl⟩ := Option.map_eq_some_iff.mp h
    exact htest _ rfl
  · obtain rfl := Option.some.inj h
    exact htest _ rfl
  · simp at h
  · simp at h

lemma integerPredicate?_of_local (hQ : Predicate.Local Q)
    (htest : ∀ q, q.sources = [o.source] → Q q) {v : Literal}
    (h : integerPredicate? o now v = some p) : Q p := by
  unfold integerPredicate? at h
  split at h
  · obtain rfl := Option.some.inj h
    exact htest _ rfl
  · refine hQ.and? (fun q hq => ?_) h
    obtain ⟨inner, -, hq⟩ := List.mem_filterMap.mp hq
    exact simplePredicate?_of_local hQ htest hq
  · simp at h

lemma predicate?_of_local (hQ : Predicate.Local Q) (htest : ∀ q, q.sources = [o.source] → Q q)
    (h : cond.predicate? o kind now = some p) : Q p := by
  unfold predicate? at h
  split at h
  iterate 2
    · obtain ⟨n, hn, h⟩ := Option.bind_eq_some_iff.mp h
      rw [← source_of_number? hn] at htest
      exact integerPredicate?_of_local hQ htest h
  · exact simplePredicate?_of_local hQ htest h

end Condition

/-- What conjunctions keep, and what holds of the predicate of every condition of a leaf, holds of
the predicate of the leaf. -/
lemma Leaf.predicate?_of_conditions {Q : Predicate → Prop}
    (hand : ∀ {ps p}, (∀ q ∈ ps, Q q) → Predicate.and? ps = some p → Q p) {l : Leaf}
    {o : Operand} {kind : FieldKind} {now : Instant} {p : Predicate}
    (hc : ∀ name operand, (name, operand) ∈ l.operators.entries → ∀ cond,
      Condition.ofOperator? kind.family name operand = some cond → ∀ q,
      cond.predicate? o kind now = some q → Q q)
    (h : l.predicate? o kind now = some p) : Q p := by
  refine hand (fun q hq => ?_) h
  obtain ⟨cond, hcond, hq⟩ := List.mem_filterMap.mp hq
  obtain ⟨⟨name, operand⟩, hm, hof⟩ := List.mem_filterMap.mp hcond
  exact hc name operand hm cond hof q hq

/-- **A leaf makes tests of what it is applied to, and nothing else**: a property that looks through
the connectives holds of its predicate if it holds of every such test. -/
theorem Leaf.predicate?_of_local {Q : Predicate → Prop} (hQ : Predicate.Local Q) {l : Leaf}
    {o : Operand} {kind : FieldKind} {now : Instant} {p : Predicate}
    (htest : ∀ q, q.sources = [o.source] → Q q) (h : l.predicate? o kind now = some p) : Q p :=
  Leaf.predicate?_of_conditions hQ.and?
    (fun _ _ _ _ _ _ hq => Condition.predicate?_of_local hQ htest hq) h

/-- All tests in a predicate are made on the same rows and read from the same source. -/
def Predicate.ReadsAt (path : RelationPath) (source : Source) (p : Predicate) : Prop :=
  ∀ t ∈ p.tests path, t.1 = path ∧ t.2.sources = [source]

/-- What has a source is a single test. -/
lemma Predicate.readsAt_of_sources {path : RelationPath} {source : Source} {p : Predicate}
    (h : p.sources = [source]) : p.ReadsAt path source := by
  have htests : p.tests path = [(path, p)] := by
    cases p with
    | existence | all | any | negation => simp [sources] at h
    | _ => rfl
  intro t ht
  rw [htests, List.mem_singleton] at ht
  subst ht
  exact ⟨rfl, h⟩

/-- **A leaf reads what it is applied to.** -/
theorem Leaf.readsAt_of_predicate? {l : Leaf} {o : Operand} {kind : FieldKind} {now : Instant}
    {p : Predicate} (path : RelationPath) (h : l.predicate? o kind now = some p) :
    p.ReadsAt path o.source :=
  Leaf.predicate?_of_local (Predicate.local_tests path _)
    (fun _ hq => Predicate.readsAt_of_sources hq) h

end EntityFilter
