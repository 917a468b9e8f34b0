import EntityFilter.Proofs.Requests
import EntityFilter.Proofs.Tests

/-!
# Regular expressions of compiled filters

The limits on a filter are checked before it is compiled, on the tree as it was read and without the
catalog.  So the check must see every regular expression that compilation can reach, whatever the
catalog makes of the keys.  It does: a regular expression in the predicate of a filter stands in a
leaf of the filter (`Filter.patterns_subset`), and one in the condition of an aggregate stands in
the filter that was written as the condition.  Hence a filter that compiles has no regular
expression that the limits reject (`Compiler.patterns_keep_limits`).
-/

namespace EntityFilter

/-! ## Regular expressions in predicates -/

/-- The regular expressions in a predicate. -/
def Predicate.patterns (p : Predicate) : List String :=
  (p.tests .root).filterMap fun t => t.2.pattern?

/-- The regular expressions in a compiled filter: in its predicate and in the predicates that pick
the rows of aggregates. -/
def CompiledFilter.patterns (f : CompiledFilter) : List String :=
  (f.predicate.toList ++ f.projections.toList.filterMap (·.expr.filter?)).flatMap
    Predicate.patterns

namespace Predicate

variable {p : Predicate} {x : String}

lemma mem_patterns : x ∈ p.patterns ↔ ∃ t ∈ p.tests .root, t.2.pattern? = some x := by
  simp [patterns]

lemma mem_patterns_iff_at (path : RelationPath) :
    x ∈ p.patterns ↔ ∃ t ∈ p.tests path, t.2.pattern? = some x := by
  have hmap : p.patterns = ((p.tests path).map Prod.snd).filterMap pattern? := by
    rw [map_snd_tests path .root, List.filterMap_map]
    rfl
  rw [hmap]
  simp

lemma local_patterns_subset (xs : List String) : Local fun p => p.patterns ⊆ xs := by
  have hQ := local_tests .root fun t => ∀ x, t.2.pattern? = some x → x ∈ xs
  have hiff : (fun p : Predicate => p.patterns ⊆ xs) =
      fun p => ∀ t ∈ p.tests .root, ∀ x, t.2.pattern? = some x → x ∈ xs := by
    funext p
    simp only [eq_iff_iff]
    constructor
    · intro h t ht x hx
      exact h (mem_patterns.mpr ⟨t, ht, hx⟩)
    · intro h x hx
      obtain ⟨t, ht, hx⟩ := mem_patterns.mp hx
      exact h t ht x hx
  rw [hiff]
  exact hQ

end Predicate

/-! ## Regular expressions of leaves -/

/-- Which operators match regular expressions: those whose names say so, and they take a text. -/
lemma OperatorFamily.regex_of_mem_operators {family : OperatorFamily} {info : OperatorInfo}
    {ignoreCase : Bool} (hm : info ∈ family.operators) (h : info.operator = .regex ignoreCase) :
    Leaf.isPatternOperator info.name ∧ info.shape = .pattern ∧ family = .text := by
  have hall : ∀ family : OperatorFamily, ∀ info ∈ family.operators, ∀ ignoreCase,
      info.operator = .regex ignoreCase →
        Leaf.isPatternOperator info.name ∧ info.shape = .pattern ∧ family = .text := by
    intro family
    cases family <;> decide
  exact hall family info hm ignoreCase h

namespace Condition

variable {cond : Condition} {family : OperatorFamily} {name : String} {operand : Literal}
  {o : Operand} {kind : FieldKind} {now : Instant} {p : Predicate}

/-- To turn a text into a date or an instant leaves it as it is, or it is no text any more. -/
lemma asText?_coerced {text x : String} (ho : cond.operand = .text text)
    (h : (cond.coerced kind).asText? = some x) : x = text := by
  unfold coerced at h
  split at h
  · simp only [ho, Literal.coerceInstant] at h
    split at h <;> simp_all [Literal.asText?]
  · simp only [ho, Literal.coerceDate] at h
    split at h <;> simp_all [Literal.asText?]
  · simp_all [Literal.asText?]

/-- Only operators of regular expressions bring in any. -/
lemma patterns_of_simplePredicate? (h : cond.simplePredicate? o kind now = some p) :
    p.patterns = [] ∨ ∃ ignoreCase x, cond.info.operator = .regex ignoreCase ∧
      (cond.coerced kind).asText? = some x ∧ p.patterns = [x] := by
  simp only [simplePredicate?] at h
  split at h
  · obtain rfl := Option.some.inj h
    left
    unfold Predicate.comparison
    split <;> rfl
  · obtain rfl := Option.some.inj h
    exact .inl rfl
  · split at h
    · obtain rfl := Option.some.inj h
      exact .inl rfl
    · simp at h
  · obtain ⟨b, -, rfl⟩ := Option.map_eq_some_iff.mp h
    exact .inl rfl
  · obtain ⟨text, -, rfl⟩ := Option.map_eq_some_iff.mp h
    exact .inl rfl
  · next ignoreCase hop =>
    obtain ⟨x, hx, rfl⟩ := Option.map_eq_some_iff.mp h
    exact .inr ⟨ignoreCase, x, hop, hx, rfl⟩
  · obtain ⟨inside, -, rfl⟩ := Option.map_eq_some_iff.mp h
    cases inside <;> exact .inl rfl
  · obtain ⟨names, -, rfl⟩ := Option.map_eq_some_iff.mp h
    exact .inl rfl
  · obtain rfl := Option.some.inj h
    exact .inl rfl
  · simp at h
  · simp at h

/-- The constraint on a number matches no regular expression: numbers have no such operator. -/
lemma patterns_of_integerPredicate? {v : Literal} (h : integerPredicate? o now v = some p) :
    p.patterns ⊆ [] := by
  unfold integerPredicate? at h
  split at h
  · obtain rfl := Option.some.inj h
    exact List.nil_subset _
  · refine (Predicate.local_patterns_subset []).and? (fun q hq => ?_) h
    obtain ⟨inner, hinner, hq⟩ := List.mem_filterMap.mp hq
    obtain ⟨⟨name, operand⟩, -, hof⟩ := List.mem_filterMap.mp hinner
    obtain ⟨hm, -, -⟩ := ofOperator?_eq_some hof
    rcases patterns_of_simplePredicate? hq with hnil | ⟨ignoreCase, -, hop, -, -⟩
    · rw [hnil]
      exact List.nil_subset _
    · obtain ⟨-, -, hfamily⟩ := OperatorFamily.regex_of_mem_operators hm hop
      simp at hfamily
  · simp at h

/-- A condition has no regular expression but the operand that it is made from. -/
lemma patterns_of_predicate? (hof : ofOperator? family name operand = some cond)
    (h : cond.predicate? o kind now = some p) : p.patterns ⊆ Leaf.operandPatterns name operand := by
  obtain ⟨hm, hname, hshaped⟩ := ofOperator?_eq_some hof
  unfold predicate? at h
  split at h
  iterate 2
    · obtain ⟨n, -, h⟩ := Option.bind_eq_some_iff.mp h
      have hnone := patterns_of_integerPredicate? h
      exact List.Subset.trans hnone (List.nil_subset _)
  · rcases patterns_of_simplePredicate? h with hnil | ⟨ignoreCase, x, hop, hx, hpatterns⟩
    · rw [hnil]
      exact List.nil_subset _
    · obtain ⟨hpattern, hshape, -⟩ := OperatorFamily.regex_of_mem_operators hm hop
      rw [hshape] at hshaped
      obtain ⟨text, htext, hoperand⟩ := Option.map_eq_some_iff.mp hshaped
      cases operand with
      | text s =>
        obtain rfl : s = text := Option.some.inj htext
        rw [hpatterns, asText?_coerced hoperand.symm hx, Leaf.operandPatterns, ← hname, hpattern]
        exact List.Subset.refl _
      | _ => simp [Literal.asText?] at htext

end Condition

lemma Leaf.patterns_of_predicate? {l : Leaf} {o : Operand} {kind : FieldKind} {now : Instant}
    {p : Predicate} (h : l.predicate? o kind now = some p) : p.patterns ⊆ l.patterns := by
  refine Leaf.predicate?_of_conditions (Predicate.local_patterns_subset _).and? ?_ h
  intro name operand hm cond hof q hq x hx
  exact List.mem_flatMap.mpr ⟨_, hm, Condition.patterns_of_predicate? hof hq hx⟩

/-! ## Regular expressions of filters -/

/-- The regular expressions of an entry's own predicate stand in its leaves. -/
lemma Visit.patterns_of_predicate? {c : Compiler} {set : ProjectionSet} {v : Visit} {p : Predicate}
    (h : v.predicate? c set = some p) : p.patterns ⊆ v.entry.patterns := by
  have hQ := Predicate.local_patterns_subset v.entry.patterns
  have hleaf : ∀ l ∈ v.entry.leaves, ∀ o kind q, l.predicate? o kind c.now = some q →
      q.patterns ⊆ v.entry.patterns := by
    intro l hl o kind q hq x hx
    exact List.mem_flatMap.mpr ⟨l, hl, Leaf.patterns_of_predicate? hq hx⟩
  refine Visit.predicate?_of_builds ⟨hQ.and?, hQ.or?, fun hl _ hq => hleaf _ hl _ _ _ hq,
    fun {l name r target q} hl _ _ _ hq => ?_, ?_, ?_, ?_, ?_⟩ h
  · intro x hx
    obtain ⟨t, ht, hx⟩ := Predicate.mem_patterns.mp hx
    have hmem : x ∈ q.patterns := (Predicate.mem_patterns_iff_at _).mpr ⟨t, ht, hx⟩
    exact hleaf l hl _ _ q hq hmem
  all_goals
    intros
    exact List.nil_subset _

/-- **The regular expressions of a predicate stand in the filter.** -/
theorem Filter.patterns_subset {c : Compiler} {set : ProjectionSet} {s : Scope} {f : Filter}
    {p : Predicate} (h : f.predicate? c set s = some p) : p.patterns ⊆ f.patterns := by
  intro x hx
  obtain ⟨t, ht, hx⟩ := (Predicate.mem_patterns_iff_at s.rows).mp hx
  rcases Filter.test_provenance h ht with ⟨path, values, hkeys⟩ | ⟨v, hv, q, hq, ht⟩
  · rw [hkeys] at hx
    simp [Predicate.pattern?] at hx
  · have hown := Visit.patterns_of_predicate? hq
      ((Predicate.mem_patterns_iff_at v.scope.rows).mpr ⟨t, ht, hx⟩)
    exact List.mem_flatMap.mpr ⟨v.entry, Filter.mem_allEntries_of_mem_visits f hv, hown⟩

/-! ## Regular expressions of conditions -/

mutual

/-- What stands below an entry of a filter stands in the filter. -/
theorem Filter.nested_subset {e x : FilterEntry} (hx : x ∈ e.nested) :
    ∀ f : Filter, e ∈ f.allEntries → x ∈ f.allEntries
  | .node es, he => FilterEntry.nested_subset_allOfEntries hx es he

theorem FilterEntry.nested_subset_allOfEntries {e x : FilterEntry} (hx : x ∈ e.nested) :
    ∀ es : List (String × FilterEntry), e ∈ FilterEntry.allOfEntries es →
      x ∈ FilterEntry.allOfEntries es
  | [], he => by simp [FilterEntry.allOfEntries] at he
  | (key, e') :: es, he => by
    simp only [FilterEntry.allOfEntries, List.cons_append, List.mem_cons, List.mem_append] at he ⊢
    rcases he with rfl | he | he
    · exact .inr (.inl hx)
    · exact .inr (.inl (FilterEntry.nested_subset_nested hx e' he))
    · exact .inr (.inr (FilterEntry.nested_subset_allOfEntries hx es he))

theorem FilterEntry.nested_subset_nested {e x : FilterEntry} (hx : x ∈ e.nested) :
    ∀ e' : FilterEntry, e ∈ e'.nested → x ∈ e'.nested
  | .all fs, he => FilterEntry.nested_subset_allOfFilters hx fs he
  | .any fs, he => FilterEntry.nested_subset_allOfFilters hx fs he
  | .negation f, he => Filter.nested_subset hx f he
  | .related _ f, he => Filter.nested_subset hx f he
  | .quantified _ _ f, he => Filter.nested_subset hx f he
  | .existence items, he => FilterEntry.nested_subset_allOfTests hx items he
  | .aggregate _ (some (f, _)), he => Filter.nested_subset hx f he
  | .aggregate _ none, he | .id _, he | .quick _, he | .included _, he | .search _, he
  | .window _, he | .subquery _, he | .compare _, he | .trunc _, he | .extract _, he
  | .count _ _, he | .field _ _, he => by
    simp [FilterEntry.nested] at he

theorem FilterEntry.nested_subset_allOfFilters {e x : FilterEntry} (hx : x ∈ e.nested) :
    ∀ fs : List Filter, e ∈ FilterEntry.allOfFilters fs → x ∈ FilterEntry.allOfFilters fs
  | [], he => by simp [FilterEntry.allOfFilters] at he
  | f :: fs, he => by
    simp only [FilterEntry.allOfFilters, List.mem_append] at he ⊢
    rcases he with he | he
    · exact .inl (Filter.nested_subset hx f he)
    · exact .inr (FilterEntry.nested_subset_allOfFilters hx fs he)

theorem FilterEntry.nested_subset_allOfTests {e x : FilterEntry} (hx : x ∈ e.nested) :
    ∀ items : List (ExistenceTest × Option Filter), e ∈ FilterEntry.allOfTests items →
      x ∈ FilterEntry.allOfTests items
  | [], he => by simp [FilterEntry.allOfTests] at he
  | (_, none) :: items, he => FilterEntry.nested_subset_allOfTests hx items he
  | (_, some f) :: items, he => by
    simp only [FilterEntry.allOfTests, List.mem_append] at he ⊢
    rcases he with he | he
    · exact .inl (Filter.nested_subset hx f he)
    · exact .inr (FilterEntry.nested_subset_allOfTests hx items he)

end

/-- The regular expressions of the predicates that pick the rows of aggregates stand in the filter. -/
lemma Compiler.patterns_of_mem_projections {c : Compiler} {f : Filter} {e : Entity}
    {p : Projection} {q : Predicate} (hp : p ∈ (c.projections f e).toList)
    (hq : p.expr.filter? = some q) : q.patterns ⊆ f.patterns := by
  rw [Compiler.projections_eq_requests] at hp
  obtain ⟨v, hv, hp⟩ := List.mem_flatMap.mp (ProjectionSet.mem_of_mem_toList_ofRequests hp)
  rw [Visit.filter?_of_mem_requests hp] at hq
  obtain ⟨a, condition, fingerprint, hentry, hcondition⟩ := Visit.filter?_eq_some hq
  obtain ⟨target, -, hcondition⟩ := Option.bind_eq_some_iff.mp hcondition
  intro x hx
  obtain ⟨e', he', hx⟩ := List.mem_flatMap.mp (Filter.patterns_subset hcondition hx)
  have hbelow : e' ∈ v.entry.nested := by
    rw [hentry]
    exact he'
  have hmem := Filter.nested_subset hbelow f (Filter.mem_allEntries_of_mem_visits f hv)
  exact List.mem_flatMap.mpr ⟨e', hmem, hx⟩

/-! ## The limits -/

lemma Limits.patternError?_eq_none {limits : Limits} {f : Filter} {x : String}
    (h : limits.error? f = none) (hx : x ∈ f.patterns) : limits.patternError? x = none :=
  (Limits.error?_eq_none_iff.mp h).1 x hx

/-- **No regular expression that the limits reject leaves the compiler**, whatever the catalog, the
filter and the entity are. -/
theorem Compiler.patterns_keep_limits {c : Compiler} {f : Filter} {entity : String}
    {compiled : CompiledFilter} (h : c.compile f entity = .ok compiled) :
    ∀ x ∈ compiled.patterns, c.settings.limits.patternError? x = none := by
  obtain ⟨e, -, hlimits, rfl⟩ := compile_eq_ok_iff.mp h
  intro x hx
  refine Limits.patternError?_eq_none hlimits ?_
  obtain ⟨p, hp, hx⟩ := List.mem_flatMap.mp hx
  rcases List.mem_append.mp hp with hp | hp
  · exact Filter.patterns_subset (Option.mem_toList.mp hp) hx
  · obtain ⟨projection, hprojection, hq⟩ := List.mem_filterMap.mp hp
    exact Compiler.patterns_of_mem_projections hprojection hq hx

/-- A filter with a regular expression of its own and one in the condition of an aggregate. -/
def Shop.namedAndReviewed : Filter :=
  .node [("name", .field "name" (leaf "iregex" (.text "^a"))),
    ("reviews_agg", .aggregate ⟨"reviews", none, [(.count, leaf "gte" (.int 1))]⟩
      (some (.node [("text", .field "text" (leaf "regex" (.text "good|fine")))], 7)))]

theorem Compiler.patterns_keep_limits_shop :
    ∃ compiled, Shop.compiler.compile Shop.namedAndReviewed "Product" = .ok compiled ∧
      compiled.patterns = ["^a", "good|fine"] ∧
      ∀ x ∈ compiled.patterns, Shop.compiler.settings.limits.patternError? x = none := by
  have hlimits : Shop.compiler.settings.limits.error? Shop.namedAndReviewed = none := by
    decide +kernel
  have h := Compiler.compile_eq_ok (n := "Product") (e := Shop.product) rfl hlimits
  exact ⟨_, h, by decide +kernel, Compiler.patterns_keep_limits h⟩

end EntityFilter
