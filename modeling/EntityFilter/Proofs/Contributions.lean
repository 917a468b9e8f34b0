import EntityFilter.Proofs.Visits

/-!
# What one entry contributes

An entry that holds no filters contributes predicates of a few kinds only: leaves on values that the
scope offers, free text in fields, comparisons of fields and full-text searches.  `Visit.Builds` has
one clause for each kind, and a property that fulfils them holds of what the entry contributes
(`Visit.predicate?_of_builds`).  Together with `Compiler.Carries` this reduces a statement about
every predicate that leaves the compiler to statements about its smallest parts.

Most properties look through the connectives.  `Predicate.Local` says so, and gives the clauses for
conjunction, disjunction and negation (`Predicate.Local.and?` and its companions).
-/

namespace EntityFilter

/-! ## Properties that look through the connectives -/

namespace Predicate

variable {Q : Predicate → Prop} {ps : List Predicate} {p : Predicate}

/-- A conjunction is its only part, or stands for two parts or more. -/
lemma and?_eq_some (h : and? ps = some p) :
    ps.flatMap conjuncts = [p] ∨
      p = .all (ps.flatMap conjuncts) ∧ 2 ≤ (ps.flatMap conjuncts).length := by
  unfold and? at h
  rcases hparts : ps.flatMap conjuncts with _ | ⟨q, _ | ⟨r, parts⟩⟩
  · simp [hparts] at h
  · simp_all
  · simp only [hparts, Option.some.injEq] at h
    exact .inr ⟨h.symm, by simp⟩

lemma and?_eq_none (h : and? ps = none) : ps.flatMap conjuncts = [] := by
  unfold and? at h
  rcases hparts : ps.flatMap conjuncts with _ | ⟨q, _ | ⟨r, parts⟩⟩
  · rfl
  · simp [hparts] at h
  · simp [hparts] at h

/-- A disjunction is its only part, or stands for two parts or more. -/
lemma or?_eq_some (h : or? ps = some p) :
    ps.flatMap disjuncts = [p] ∨
      p = .any (ps.flatMap disjuncts) ∧ 2 ≤ (ps.flatMap disjuncts).length := by
  unfold or? at h
  rcases hparts : ps.flatMap disjuncts with _ | ⟨q, _ | ⟨r, parts⟩⟩
  · simp [hparts] at h
  · simp_all
  · simp only [hparts, Option.some.injEq] at h
    exact .inr ⟨h.symm, by simp⟩

lemma or?_eq_none (h : or? ps = none) : ps.flatMap disjuncts = [] := by
  unfold or? at h
  rcases hparts : ps.flatMap disjuncts with _ | ⟨q, _ | ⟨r, parts⟩⟩
  · rfl
  · simp [hparts] at h
  · simp [hparts] at h

/-- A property that holds of a connective exactly if it holds of its parts. -/
structure Local (Q : Predicate → Prop) : Prop where
  all : ∀ ps, Q (.all ps) ↔ ∀ p ∈ ps, Q p
  any : ∀ ps, Q (.any ps) ↔ ∀ p ∈ ps, Q p
  negation : ∀ p, Q (.negation p) ↔ Q p

namespace Local

lemma mem_conjuncts (hQ : Local Q) (hp : Q p) : ∀ q ∈ p.conjuncts, Q q := by
  intro q hq
  cases p with
  | all parts => exact (hQ.all parts).mp hp q hq
  | _ =>
    simp only [conjuncts, List.mem_singleton] at hq
    rwa [hq]

lemma mem_disjuncts (hQ : Local Q) (hp : Q p) : ∀ q ∈ p.disjuncts, Q q := by
  intro q hq
  cases p with
  | any parts => exact (hQ.any parts).mp hp q hq
  | _ =>
    simp only [disjuncts, List.mem_singleton] at hq
    rwa [hq]

lemma and? (hQ : Local Q) (hps : ∀ q ∈ ps, Q q) (hp : Predicate.and? ps = some p) : Q p := by
  have hparts : ∀ q ∈ ps.flatMap conjuncts, Q q := by
    intro q hq
    obtain ⟨r, hr, hqr⟩ := List.mem_flatMap.mp hq
    exact hQ.mem_conjuncts (hps r hr) q hqr
  rcases and?_eq_some hp with hone | ⟨rfl, -⟩
  · exact hparts p (by simp [hone])
  · exact (hQ.all _).mpr hparts

lemma or? (hQ : Local Q) (hps : ∀ q ∈ ps, Q q) (hp : Predicate.or? ps = some p) : Q p := by
  have hparts : ∀ q ∈ ps.flatMap disjuncts, Q q := by
    intro q hq
    obtain ⟨r, hr, hqr⟩ := List.mem_flatMap.mp hq
    exact hQ.mem_disjuncts (hps r hr) q hqr
  rcases or?_eq_some hp with hone | ⟨rfl, -⟩
  · exact hparts p (by simp [hone])
  · exact (hQ.any _).mpr hparts

lemma not (hQ : Local Q) (hp : Q p) : Q p.not := by
  cases p with
  | negation q => exact (hQ.negation q).mp hp
  | _ => exact (hQ.negation _).mpr hp

end Local

end Predicate

/-! ## The values that leaves constrain -/

/-- What an entry asks for, the search apart: plans, each with the expression that computes it. -/
def FilterEntry.asks (c : Compiler) (s : Scope) (key : String) :
    FilterEntry → List (Plan × ProjectionExpr)
  | .window items => items.filterMap fun w =>
      (c.planWindow? s w).map fun p => (p, .window w.function w.spec)
  | .subquery items => items.filterMap fun q =>
      (c.planSubquery? s q).map fun p =>
        (p, .subquery (s.relationPath q.relation) q.field q.orderBy)
  | .aggregate a condition => a.functions.filterMap fun (function, _) =>
      (c.planAggregate? s a (condition.map Prod.snd) function).map fun p =>
        (p, .aggregate function (s.relationPath a.relation) a.field
          (condition.bind fun (f, _) => c.conditionPredicate? s a.relation f))
  | .trunc t =>
    ((c.planTrunc? s t).map fun p => (p, .dateTrunc (s.fieldPath t.field) t.kind)).toList
  | .extract e =>
    ((c.planExtract? s e).map fun p => (p, .dateExtract (s.fieldPath e.field) e.part)).toList
  | .count relation _ =>
    if s.entity.hasField key then []
    else ((c.planCount? s relation).map fun p => (p, .count (s.relationPath relation))).toList
  | _ => []

/-- What a visited entry asks for, the search apart. -/
def Visit.asks (c : Compiler) (v : Visit) : List (Plan × ProjectionExpr) :=
  v.entry.asks c v.scope v.key

/-- The values that the leaves of a visited entry are applied to, with their kinds. -/
inductive Visit.Offers (c : Compiler) (set : ProjectionSet) (v : Visit) :
    Operand → FieldKind → Prop where
  /-- A field of the entity. -/
  | field {name : String} {f : Field} : v.scope.entity.field? name = some f →
      (f.kind.isArray → c.settings.features.array) →
      Offers c set v (.field (v.scope.fieldPath name)) f.kind
  /-- The primary key. -/
  | key : Offers c set v (.field (v.scope.fieldPath v.scope.entity.primaryKey))
      v.scope.entity.primaryKeyKind
  /-- The primary key of the one row that a relation leads to. -/
  | keyOfRow {name : String} {r : Relation} {target : Entity} : name ∈ v.relations →
      c.canFollow v.scope → c.relation? v.scope name = some (r, target) → r.isToOne →
      Offers c set v (.field (.under (v.scope.relationPath name) target.primaryKey))
        target.primaryKeyKind
  /-- A projection that has been collected. -/
  | projection {plan : Plan} {expr : ProjectionExpr} {handle : ProjectionHandle} :
      (plan, expr) ∈ v.asks c → set.lookup? plan.key = some handle →
      Offers c set v (.projection handle) plan.kind

/-! ## The parts of a contribution -/

/-- A property that holds of every part that the predicate of a visited entry is put together
from, and is kept when they are. -/
structure Visit.Builds (c : Compiler) (set : ProjectionSet) (v : Visit) (Q : Predicate → Prop) :
    Prop where
  and? : ∀ {ps p}, (∀ q ∈ ps, Q q) → Predicate.and? ps = some p → Q p
  or? : ∀ {ps p}, (∀ q ∈ ps, Q q) → Predicate.or? ps = some p → Q p
  leaf : ∀ {l o kind p}, l ∈ v.entry.leaves → v.Offers c set o kind →
    l.predicate? o kind c.now = some p → Q p
  rows : ∀ {l name r target p}, l ∈ v.entry.leaves → name ∈ v.relations →
    c.canFollow v.scope → c.relation? v.scope name = some (r, target) →
    l.predicate? (.field (.single target.primaryKey)) target.primaryKeyKind c.now = some p →
    Q (.existence (v.scope.relationPath name) target.name (some p))
  quick : ∀ {f} text, f ∈ v.scope.entity.quickSearchFields →
    Q (.text (.field (v.scope.fieldPath f.name)) .contains text true)
  comparison : ∀ {left right f g} op, v.scope.entity.field? left = some f →
    v.scope.entity.field? right = some g →
    Q (.compareOperands (.field (v.scope.fieldPath left)) op (.field (v.scope.fieldPath right)))
  search : ∀ {search plan handle}, v.entry = .search search →
    c.planSearch? v.scope search = some plan → set.lookup? plan.vector = some handle →
    Q (.search handle search.query search.mode plan.config)
  rank : ∀ {search plan vector key handle} least, v.entry = .search search →
    c.planSearch? v.scope search = some plan → set.lookup? plan.vector = some vector →
    plan.rank = some key → set.lookup? key = some handle → Q (.compare (.projection handle) .gte (.float least))

namespace Visit.Builds

variable {c : Compiler} {set : ProjectionSet} {v : Visit} {Q : Predicate → Prop} {l : Leaf}
  {p : Predicate}

lemma projected (hQ : v.Builds c set Q) (hl : l ∈ v.entry.leaves) {plan : Plan}
    {expr : ProjectionExpr} (hplan : (plan, expr) ∈ v.asks c) (hp : c.projected? set plan l = some p) : Q p := by
  obtain ⟨handle, hh, hp⟩ := Option.bind_eq_some_iff.mp hp
  exact hQ.leaf hl (.projection hplan hh) hp

/-- Several plans of an entry, each with its expression and its leaf. -/
lemma planned (hQ : v.Builds c set Q) {α : Type} {items : List α} {plan? : α → Option Plan}
    {expr : α → ProjectionExpr} {leaf : α → Leaf}
    (hplan : v.asks c = items.filterMap fun i => (plan? i).map fun plan => (plan, expr i))
    (hleaf : ∀ i ∈ items, leaf i ∈ v.entry.leaves)
    (hp : Predicate.and? (items.filterMap fun i =>
      (plan? i).bind fun plan => c.projected? set plan (leaf i)) = some p) : Q p := by
  refine hQ.and? (fun q hq => ?_) hp
  obtain ⟨i, hi, hq⟩ := List.mem_filterMap.mp hq
  obtain ⟨plan, hpi, hq⟩ := Option.bind_eq_some_iff.mp hq
  have hasks : (plan, expr i) ∈ v.asks c := by
    rw [hplan]
    exact List.mem_filterMap.mpr ⟨i, hi, by rw [hpi]; rfl⟩
  exact hQ.projected (hleaf i hi) hasks hq

lemma relation (hQ : v.Builds c set Q) (hl : l ∈ v.entry.leaves) {name : String}
    (hname : name ∈ v.relations)
    (hp : c.relationPredicate? v.scope name l = some p) : Q p := by
  unfold Compiler.relationPredicate? at hp
  split at hp
  · next hf =>
    split at hp
    · next r target hr =>
      simp only at hp
      split at hp
      · next ho => exact hQ.leaf hl (.keyOfRow hname hf hr ho) hp
      · obtain ⟨q, hq, rfl⟩ := Option.map_eq_some_iff.mp hp
        exact hQ.rows hl hname hf hr hq
    · simp at hp
  · simp at hp

lemma field (hQ : v.Builds c set Q) (hl : l ∈ v.entry.leaves) {name : String}
    (hname : v.scope.entity.field? name = none → name ∈ v.relations)
    (hp : c.fieldPredicate? v.scope name l = some p) : Q p := by
  unfold Compiler.fieldPredicate? at hp
  split at hp
  · next f hf =>
    split at hp
    · simp at hp
    · next hgate =>
      refine hQ.leaf hl (.field hf fun ha => ?_) hp
      simpa [ha] using hgate
  · next hnone => exact hQ.relation hl (hname hnone) hp

lemma quickText (hQ : v.Builds c set Q) {text : String}
    (hp : Compiler.quickPredicate? v.scope text = some p) : Q p := by
  simp only [Compiler.quickPredicate?] at hp
  split at hp
  · simp at hp
  · refine hQ.or? (fun q hq => ?_) hp
    obtain ⟨f, hf, rfl⟩ := List.mem_map.mp hq
    exact hQ.quick _ hf

lemma fullText (hQ : v.Builds c set Q) {search : SearchFilter} (he : v.entry = .search search)
    (hp : c.searchPredicate? set v.scope search = some p) : Q p := by
  obtain ⟨plan, hplan, hp⟩ := Option.bind_eq_some_iff.mp hp
  obtain ⟨vector, hvector, hp⟩ := Option.bind_eq_some_iff.mp hp
  have hfound := hQ.search he hplan hvector
  simp only at hp
  split at hp
  · next key least hkey hleast =>
    obtain ⟨handle, hh, hp⟩ := Option.bind_eq_some_iff.mp hp
    refine hQ.and? (fun q hq => ?_) hp
    simp only [List.mem_cons, List.not_mem_nil, or_false] at hq
    rcases hq with rfl | rfl
    · exact hfound
    · exact hQ.rank least he hplan hvector hkey hh
  · obtain rfl := Option.some.inj hp
    exact hfound

lemma comparisons (hQ : v.Builds c set Q) {items : List FieldComparison}
    (hp : Predicate.and? (items.filterMap (Compiler.comparisonPredicate? v.scope)) = some p) :
    Q p := by
  refine hQ.and? (fun q hq => ?_) hp
  obtain ⟨cmp, -, hq⟩ := List.mem_filterMap.mp hq
  unfold Compiler.comparisonPredicate? at hq
  split at hq
  · next f g hf hg =>
    split at hq
    · obtain rfl := Option.some.inj hq
      exact hQ.comparison _ hf hg
    · simp at hq
  · simp at hq

end Visit.Builds

/-- **What is built holds of the contribution** of a visited entry. -/
theorem Visit.predicate?_of_builds {c : Compiler} {set : ProjectionSet} {v : Visit}
    {Q : Predicate → Prop} {p : Predicate} (hQ : v.Builds c set Q)
    (hp : v.predicate? c set = some p) : Q p := by
  obtain ⟨s, key, e⟩ := v
  unfold Visit.predicate? at hp
  cases e with
  | id leaf => exact hQ.leaf (List.mem_singleton.mpr rfl) .key hp
  | quick text =>
    simp only [FilterEntry.ownPredicate?] at hp
    exact hQ.quickText hp
  | search search => exact hQ.fullText rfl hp
  | compare items => exact hQ.comparisons hp
  | window items => exact hQ.planned rfl (fun i hi => List.mem_map.mpr ⟨i, hi, rfl⟩) hp
  | subquery items => exact hQ.planned rfl (fun i hi => List.mem_map.mpr ⟨i, hi, rfl⟩) hp
  | aggregate a condition =>
    exact hQ.planned rfl (fun i hi => List.mem_map.mpr ⟨i, hi, rfl⟩) hp
  | trunc t =>
    obtain ⟨plan, hplan, hp⟩ := Option.bind_eq_some_iff.mp hp
    have hasks : (plan, .dateTrunc (s.fieldPath t.field) t.kind) ∈
        Visit.asks c ⟨s, key, .trunc t⟩ := by
      simp only [Visit.asks, FilterEntry.asks, hplan]
      exact List.mem_singleton.mpr rfl
    exact hQ.projected (List.mem_singleton.mpr rfl) hasks hp
  | extract e =>
    obtain ⟨plan, hplan, hp⟩ := Option.bind_eq_some_iff.mp hp
    have hasks : (plan, .dateExtract (s.fieldPath e.field) e.part) ∈
        Visit.asks c ⟨s, key, .extract e⟩ := by
      simp only [Visit.asks, FilterEntry.asks, hplan]
      exact List.mem_singleton.mpr rfl
    exact hQ.projected (List.mem_singleton.mpr rfl) hasks hp
  | count relation leaf =>
    simp only [FilterEntry.ownPredicate?] at hp
    split at hp
    · next hkey =>
      refine hQ.field (List.mem_singleton.mpr rfl) (fun hnone => ?_) hp
      exact absurd hkey (Option.not_isSome_iff_eq_none.mpr hnone)
    · next hkey =>
      obtain ⟨plan, hplan, hp⟩ := Option.bind_eq_some_iff.mp hp
      have hasks : (plan, .count (s.relationPath relation)) ∈
          Visit.asks c ⟨s, key, .count relation leaf⟩ := by
        simp only [Visit.asks, FilterEntry.asks, hkey, hplan]
        exact List.mem_singleton.mpr rfl
      exact hQ.projected (List.mem_singleton.mpr rfl) hasks hp
  | field name leaf =>
    refine hQ.field (List.mem_singleton.mpr rfl) (fun hnone => ?_) hp
    have hreal : ¬s.entity.hasField name := Option.not_isSome_iff_eq_none.mpr hnone
    simp [Visit.relations, hreal]
  | all _ | any _ | negation _ | included _ | existence _ | related _ _ | quantified _ _ _ =>
    simp [FilterEntry.ownPredicate?] at hp

end EntityFilter
