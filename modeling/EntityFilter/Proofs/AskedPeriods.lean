import EntityFilter.Proofs.AppliedLeaves
import EntityFilter.Proofs.LeafAnswers

/-!
# Named periods that filters ask for

A leaf asks for a named period if it has the operator of that name on dates or instants
(`Leaf.AsksFor`).  Compiling a filter asks for the periods of all leaves that it applies to values:
those of the predicate, and those in the conditions of aggregates (`Compiler.AsksFor`).  These are
the periods that `Compiler.periods` lists (`Compiler.mem_periods_iff`).

The list is complete.  The present matters for nothing but the periods: at two presents at which
those asked for are the same, a filter is compiled to the same (`Compiler.compile_at`).
-/

namespace EntityFilter

/-! ## Leaves that ask for named periods -/

/-- A leaf asks for a named period: it has the operator of that name, with a truth value, and the
values are dates or instants. -/
structure Leaf.AsksFor (l : Leaf) (kind : FieldKind) (name : Shortcut) : Prop where
  isTemporal : kind.isTemporal
  operator : ∃ inside, (name.name, .bool inside) ∈ l.operators.entries

section

variable {family : OperatorFamily} {info : OperatorInfo} {name : Shortcut} {l : Leaf}
  {kind : FieldKind}

/-- Only dates and instants have operators for named periods. -/
lemma OperatorFamily.of_shortcut? (hinfo : info ∈ family.operators)
    (hname : info.operator.shortcut? = some name) :
    family = .temporal ∧ info.name = name.name ∧ info.shape = .flag := by
  have hall : ∀ family : OperatorFamily, ∀ info ∈ family.operators,
      ∀ name ∈ info.operator.shortcut?,
        family = .temporal ∧ info.name = name.name ∧ info.shape = .flag := by
    intro family
    cases family <;> decide
  exact hall family info hinfo name hname

lemma Shortcut.exists_operator? (name : Shortcut) :
    ∃ info, OperatorFamily.temporal.operator? name.name = some info ∧ info.shape = .flag ∧
      info.operator.shortcut? = some name := by
  cases name <;> exact ⟨_, rfl, rfl, rfl⟩

lemma FieldKind.isTemporal_of_family (h : kind.family = .temporal) : kind.isTemporal := by
  cases kind with
  | date | dateTime => rfl
  | _ => simp [FieldKind.family] at h

/-- **The periods of a leaf** are those that it asks for. -/
theorem Leaf.mem_periods_iff : name ∈ l.periods kind ↔ l.AsksFor kind name := by
  constructor
  · intro h
    obtain ⟨cond, hcond, hname⟩ := List.mem_filterMap.mp h
    obtain ⟨⟨text, operand⟩, hm, hof⟩ := List.mem_filterMap.mp hcond
    obtain ⟨hinfo, htext, hshaped⟩ := Condition.ofOperator?_eq_some hof
    obtain ⟨hfamily, heq, hflag⟩ := OperatorFamily.of_shortcut? hinfo hname
    obtain rfl : text = name.name := htext.symm.trans heq
    rw [hflag, OperatorFamily.shaped?] at hshaped
    obtain ⟨inside, hinside, -⟩ := Option.map_eq_some_iff.mp hshaped
    cases operand with
    | bool b => exact ⟨FieldKind.isTemporal_of_family hfamily, b, hm⟩
    | _ => contradiction
  · rintro ⟨hkind, inside, hm⟩
    obtain ⟨info, hinfo, hflag, hname⟩ := name.exists_operator?
    have hshaped : OperatorFamily.temporal.shaped? info.shape (.bool inside) =
        some (.bool inside) := by
      rw [hflag]
      rfl
    have hof : Condition.ofOperator? kind.family name.name (.bool inside) =
        some ⟨info, .bool inside⟩ := by
      rw [FieldKind.family_of_isTemporal hkind]
      exact Option.bind_eq_some_iff.mpr ⟨info, hinfo, Option.bind_eq_some_iff.mpr ⟨_, hshaped, rfl⟩⟩
    exact List.mem_filterMap.mpr ⟨_, List.mem_filterMap.mpr ⟨_, hm, hof⟩, hname⟩

end

/-! ## Leaves that entries apply -/

section

variable {c : Compiler} {set : ProjectionSet} {s : Scope} {v : Visit} {l : Leaf} {kind : FieldKind}
  {name : String}

lemma Compiler.namedKind?_of_field {f : Field} (hf : s.entity.field? name = some f) :
    c.namedKind? s name = some kind ↔
      (f.kind.isArray → c.settings.features.array) ∧ f.kind = kind := by
  simp only [namedKind?, hf]
  cases f.kind.isArray <;> cases c.settings.features.array <;> simp

lemma Compiler.namedKind?_of_relation (hnone : s.entity.field? name = none) :
    c.namedKind? s name = some kind ↔
      c.canFollow s ∧ ∃ r target, c.relation? s name = some (r, target) ∧
        target.primaryKeyKind = kind := by
  simp only [namedKind?, hnone]
  cases c.canFollow s <;> simp

/-- An entry that names a field or a relation applies its leaf to that. -/
lemma Visit.applied_of_named (h : v.named? = some (name, l)) :
    v.applied c set = ((c.namedKind? v.scope name).map fun kind => (l, kind)).toList := by
  have hid : ∀ leaf, v.entry ≠ .id leaf := by
    intro leaf hentry
    rw [named?, hentry] at h
    contradiction
  unfold applied
  split
  · next hentry => exact absurd hentry (hid _)
  · next name' leaf' hnamed _ =>
    obtain ⟨rfl, rfl⟩ := Prod.mk.inj (Option.some.inj (h.symm.trans hnamed))
    rfl
  · next hnamed _ =>
    rw [h] at hnamed
    contradiction

/-- An entry that asks for planned values applies its leaves to those that have been collected. -/
lemma Visit.applied_of_planned (h : v.entry.isPlanned v.scope v.key) :
    v.applied c set = (v.planned c).filterMap fun (plan, leaf) =>
      (set.lookup? plan.key).map fun _ => (leaf, plan.kind) := by
  obtain ⟨s, key, e⟩ := v
  cases e with
  | window | subquery | aggregate | trunc | extract => rfl
  | count relation leaf =>
    have hkey : s.entity.hasField key = false := by simpa [FilterEntry.isPlanned] using h
    have hnamed : Visit.named? ⟨s, key, .count relation leaf⟩ = none := by
      rw [named?]
      simp [hkey]
    unfold applied
    rw [hnamed]
  | _ => simp [FilterEntry.isPlanned] at h

/-- A leaf on a field is applied to it, and a leaf on a relation is applied to the identifier of the
row, or of the rows, on its other side. -/
lemma Visit.exists_applies_of_named (hnamed : v.named? = some (name, l))
    (hkind : c.namedKind? v.scope name = some kind) : ∃ path o, v.Applies c set l path o kind := by
  cases hf : v.scope.entity.field? name with
  | some f =>
    obtain ⟨hgate, rfl⟩ := (Compiler.namedKind?_of_field hf).mp hkind
    exact ⟨_, _, .field hnamed hf hgate⟩
  | none =>
    obtain ⟨hfollow, r, target, hr, rfl⟩ := (Compiler.namedKind?_of_relation hf).mp hkind
    cases hcard : r.cardinality with
    | one => exact ⟨_, _, .keyOfRow hnamed hf hfollow hr (by simp [Relation.isToOne, hcard])⟩
    | many => exact ⟨_, _, .keyOfRows hnamed hf hfollow hr (by simp [Relation.isToMany, hcard])⟩

lemma Visit.Applies.mem_applied {path : RelationPath} {o : Operand}
    (h : v.Applies c set l path o kind) : (l, kind) ∈ v.applied c set := by
  cases h with
  | key hentry =>
    have happlied : v.applied c set = [(l, v.scope.entity.primaryKeyKind)] := by
      unfold applied
      rw [hentry]
    rw [happlied]
    exact List.mem_singleton.mpr rfl
  | field hnamed hf hgate =>
    rw [applied_of_named hnamed, (Compiler.namedKind?_of_field hf).mpr ⟨hgate, rfl⟩]
    exact List.mem_singleton.mpr rfl
  | keyOfRow hnamed hnone hfollow hr | keyOfRows hnamed hnone hfollow hr =>
    rw [applied_of_named hnamed,
      (Compiler.namedKind?_of_relation hnone).mpr ⟨hfollow, _, _, hr, rfl⟩]
    exact List.mem_singleton.mpr rfl
  | projection hm hhandle =>
    rw [applied_of_planned (FilterEntry.isPlanned_of_mem_planned hm)]
    exact List.mem_filterMap.mpr ⟨_, hm, Option.map_eq_some_iff.mpr ⟨_, hhandle, rfl⟩⟩

/-- **The applied leaves** are those that the entry applies to some value. -/
theorem Visit.mem_applied_iff :
    (l, kind) ∈ v.applied c set ↔ ∃ path o, v.Applies c set l path o kind := by
  constructor
  · intro h
    unfold applied at h
    split at h
    · next leaf _ hentry =>
      obtain ⟨rfl, rfl⟩ := Prod.mk.inj (List.mem_singleton.mp h)
      exact ⟨_, _, .key hentry⟩
    · next name leaf hnamed _ =>
      obtain ⟨kind', hkind, heq⟩ := Option.map_eq_some_iff.mp (Option.mem_toList.mp h)
      obtain ⟨rfl, rfl⟩ := Prod.mk.inj heq
      exact exists_applies_of_named hnamed hkind
    · obtain ⟨⟨plan, leaf⟩, hm, hlookup⟩ := List.mem_filterMap.mp h
      obtain ⟨handle, hhandle, heq⟩ := Option.map_eq_some_iff.mp hlookup
      obtain ⟨rfl, rfl⟩ := Prod.mk.inj heq
      exact ⟨_, _, .projection hm hhandle⟩
  · rintro ⟨path, o, h⟩
    exact h.mem_applied

end

/-! ## Periods that compilation asks for -/

/-- A filter asks for a named period when it is turned into a predicate: some leaf does that is
applied to a value. -/
def Filter.AsksFor (c : Compiler) (set : ProjectionSet) (s : Scope) (f : Filter)
    (name : Shortcut) : Prop :=
  ∃ v ∈ f.visits c s, ∃ l path o kind, v.Applies c set l path o kind ∧ l.AsksFor kind name

/-- The condition of an aggregate is compiled for the rows of the relation, if the entry has a
function that it can take. -/
inductive Visit.Conditions (c : Compiler) (v : Visit) : Scope → Filter → Prop where
  | mk {a : Aggregation} {f : Filter} {hash : UInt32} {function : AggregateFunction} {leaf : Leaf}
      {plan : Plan} {target : Entity} : v.entry = .aggregate a (some (f, hash)) →
      (function, leaf) ∈ a.functions → c.planAggregate? v.scope a (some hash) function = some plan →
      c.toMany? v.scope a.relation = some target →
      Conditions c v (v.scope.enter a.relation target) f

/-- Compiling a filter on an entity asks for a named period: the predicate of the filter does, over
the projections collected, or the condition of an aggregate, which has no projections. -/
inductive Compiler.AsksFor (c : Compiler) (f : Filter) (e : Entity) (name : Shortcut) : Prop where
  | predicate : f.AsksFor c (c.projections f e) { entity := e } name → AsksFor c f e name
  | condition {v : Visit} {s : Scope} {g : Filter} : v ∈ f.visits c { entity := e } →
      v.Conditions c s g → g.AsksFor c .empty s name → AsksFor c f e name

section

variable {c : Compiler} {set : ProjectionSet} {s : Scope} {v : Visit} {f g : Filter} {e : Entity}
  {name : Shortcut}

lemma Filter.mem_periods_iff : name ∈ f.periods c set s ↔ f.AsksFor c set s name := by
  simp only [Filter.periods, Filter.AsksFor, List.mem_flatMap, Leaf.mem_periods_iff, Prod.exists,
    Visit.mem_applied_iff]
  constructor
  · rintro ⟨v, hv, l, kind, ⟨path, o, happlies⟩, hasks⟩
    exact ⟨v, hv, l, path, o, kind, happlies, hasks⟩
  · rintro ⟨v, hv, l, path, o, kind, happlies, hasks⟩
    exact ⟨v, hv, l, kind, ⟨path, o, happlies⟩, hasks⟩

lemma Visit.condition?_eq_some_iff : v.condition? c = some (s, g) ↔ v.Conditions c s g := by
  constructor
  · intro h
    unfold condition? at h
    split at h
    · next a f hash hentry =>
      rw [Option.ite_none_left_eq_some] at h
      obtain ⟨hplanned, h⟩ := h
      obtain ⟨target, htarget, heq⟩ := Option.map_eq_some_iff.mp h
      obtain ⟨rfl, rfl⟩ := Prod.mk.inj heq
      obtain ⟨⟨plan, leaf⟩, hm⟩ := List.exists_mem_of_ne_nil _ (mt List.isEmpty_iff.mpr hplanned)
      cases mem_planned_iff.mp hm with
      | aggregate hentry' hfunction hplan =>
        obtain ⟨rfl, rfl⟩ := FilterEntry.aggregate.inj (hentry.symm.trans hentry')
        exact ⟨hentry, hfunction, hplan, htarget⟩
      | _ => simp_all
    · contradiction
  · rintro ⟨hentry, hfunction, hplan, htarget⟩
    have hm := mem_planned_iff.mpr (.aggregate hentry hfunction hplan)
    have hplanned : (v.planned c).isEmpty = false :=
      List.isEmpty_eq_false_iff.mpr (List.ne_nil_of_mem hm)
    unfold condition?
    rw [hentry]
    simp [hplanned, htarget]

/-- **The periods of a compilation** are those that it asks for. -/
theorem Compiler.mem_periods_iff : name ∈ c.periods f e ↔ c.AsksFor f e name := by
  rw [periods, List.mem_append, Filter.mem_periods_iff, conditionPeriods, List.mem_flatMap]
  constructor
  · rintro (⟨⟨s, g⟩, hcondition, hasks⟩ | hasks)
    · obtain ⟨v, hv, hcondition⟩ := List.mem_filterMap.mp hcondition
      exact .condition hv (Visit.condition?_eq_some_iff.mp hcondition)
        (Filter.mem_periods_iff.mp hasks)
    · exact .predicate hasks
  · rintro (hasks | ⟨hv, hcondition, hasks⟩)
    · exact .inr hasks
    · exact .inl ⟨_, List.mem_filterMap.mpr ⟨_, hv, Visit.condition?_eq_some_iff.mpr hcondition⟩,
        Filter.mem_periods_iff.mpr hasks⟩

end

/-! ## Compiling at another present -/

/-- A compiler at another present. -/
def Compiler.at (c : Compiler) (now : Instant) : Compiler := { c with now := now }

section

variable {now now' : Instant} {o : Operand} {kind : FieldKind} {l : Leaf} {cond : Condition}
  {name : Shortcut}

lemma Condition.simplePredicate?_eq_of_period
    (h : ∀ name, cond.info.operator.shortcut? = some name → name.period now' = name.period now) :
    cond.simplePredicate? o kind now' = cond.simplePredicate? o kind now := by
  unfold simplePredicate?
  cases hop : cond.info.operator with
  | period name => simp only [h name (by rw [hop]; rfl)]
  | _ => rfl

lemma Leaf.numericPredicate?_eq (l : Leaf) (o : Operand) (now now' : Instant) :
    l.numericPredicate? o now' = l.numericPredicate? o now := by
  refine congrArg Predicate.and? (List.filterMap_congr fun cond hcond => ?_)
  refine Condition.simplePredicate?_eq_of_period fun name hname => ?_
  obtain ⟨⟨text, operand⟩, -, hof⟩ := List.mem_filterMap.mp hcond
  obtain ⟨hinfo, -, -⟩ := Condition.ofOperator?_eq_some hof
  obtain ⟨hfamily, -, -⟩ := OperatorFamily.of_shortcut? hinfo hname
  contradiction

lemma Condition.predicate?_eq_of_period
    (h : ∀ name, cond.info.operator.shortcut? = some name → name.period now' = name.period now) :
    cond.predicate? o kind now' = cond.predicate? o kind now := by
  have hinteger : ∀ n v, integerPredicate? n now' v = integerPredicate? n now v := by
    intro n v
    cases v with
    | document d => exact Leaf.numericPredicate?_eq _ n now now'
    | _ => rfl
  unfold predicate?
  cases hop : cond.info.operator with
  | part | length => simp only [hinteger]
  | _ => exact simplePredicate?_eq_of_period h

/-- Turning a leaf into a predicate needs the present for the periods only. -/
lemma Leaf.predicate?_eq_of_periods
    (h : ∀ name ∈ l.periods kind, name.period now' = name.period now) :
    l.predicate? o kind now' = l.predicate? o kind now := by
  refine congrArg Predicate.and? (List.filterMap_congr fun cond hcond => ?_)
  exact Condition.predicate?_eq_of_period fun name hname =>
    h name (List.mem_filterMap.mpr ⟨cond, hcond, hname⟩)

end

/-- At another present, the periods are the same that a visited entry asks for. -/
def Visit.SamePeriods (c : Compiler) (set : ProjectionSet) (now : Instant) (v : Visit) : Prop :=
  ∀ l kind, (l, kind) ∈ v.applied c set →
    ∀ name ∈ l.periods kind, name.period now = name.period c.now

section

variable {c : Compiler} {set : ProjectionSet} {now : Instant} {v : Visit} {l : Leaf} {plan : Plan}
  {name : String}

lemma Visit.SamePeriods.projected? (h : v.SamePeriods c set now) (hm : (plan, l) ∈ v.planned c) :
    (c.at now).projected? set plan l = c.projected? set plan l := by
  refine Option.bind_congr fun handle hhandle => ?_
  exact Leaf.predicate?_eq_of_periods (h _ _ (Applies.projection hm hhandle).mem_applied)

lemma Visit.SamePeriods.fieldPredicate? (h : v.SamePeriods c set now)
    (hnamed : v.named? = some (name, l)) :
    (c.at now).fieldPredicate? v.scope name l = c.fieldPredicate? v.scope name l := by
  have hsame {path : RelationPath} {o : Operand} {kind : FieldKind}
      (happlies : v.Applies c set l path o kind) :
      l.predicate? o kind now = l.predicate? o kind c.now :=
    Leaf.predicate?_eq_of_periods (h _ _ happlies.mem_applied)
  unfold Compiler.fieldPredicate?
  cases hf : v.scope.entity.field? name with
  | some f =>
    refine ite_congr rfl (fun _ => rfl) fun hgate => hsame (.field hnamed hf fun harray => ?_)
    simpa [harray] using hgate
  | none =>
    refine ite_congr rfl (fun hfollow => ?_) fun _ => rfl
    have hrelation : (c.at now).relation? v.scope name = c.relation? v.scope name := rfl
    rw [hrelation]
    cases hr : c.relation? v.scope name with
    | none => rfl
    | some x =>
      obtain ⟨r, target⟩ := x
      refine ite_congr rfl (fun hone => hsame (.keyOfRow hnamed hf hfollow hr hone)) fun hone => ?_
      have hmany : r.isToMany := by
        cases hcard : r.cardinality <;> simp_all [Relation.isToOne, Relation.isToMany]
      exact congrArg (Option.map _) (hsame (.keyOfRows hnamed hf hfollow hr hmany))

lemma Visit.SamePeriods.predicate? (h : v.SamePeriods c set now) :
    v.predicate? (c.at now) set = v.predicate? c set := by
  obtain ⟨s, key, e⟩ := v
  cases e with
  | id leaf =>
    exact Leaf.predicate?_eq_of_periods (h _ _ (Applies.key rfl).mem_applied)
  | field name leaf => exact h.fieldPredicate? rfl
  | count relation leaf =>
    refine ite_congr rfl (fun hkey => ?_) fun hkey => ?_
    · exact h.fieldPredicate? (if_pos hkey)
    · exact Option.bind_congr fun plan hplan =>
        h.projected? (mem_planned_iff.mpr (.count rfl hkey hplan))
  | window items =>
    refine congrArg Predicate.and? (List.filterMap_congr fun w hw => ?_)
    exact Option.bind_congr fun plan hplan =>
      h.projected? (mem_planned_iff.mpr (.window rfl hw hplan))
  | subquery items =>
    refine congrArg Predicate.and? (List.filterMap_congr fun q hq => ?_)
    exact Option.bind_congr fun plan hplan =>
      h.projected? (mem_planned_iff.mpr (.subquery rfl hq hplan))
  | aggregate a condition =>
    refine congrArg Predicate.and? (List.filterMap_congr fun x hx => ?_)
    exact Option.bind_congr fun plan hplan =>
      h.projected? (mem_planned_iff.mpr (.aggregate rfl hx hplan))
  | trunc t =>
    exact Option.bind_congr fun plan hplan =>
      h.projected? (mem_planned_iff.mpr (.trunc rfl hplan))
  | extract t =>
    exact Option.bind_congr fun plan hplan =>
      h.projected? (mem_planned_iff.mpr (.extract rfl hplan))
  | _ => rfl

end

mutual

/-- Turning a filter into a predicate needs the present for the periods only. -/
theorem Filter.predicate?_at {c : Compiler} {set : ProjectionSet} {now : Instant} :
    ∀ {s : Scope} (f : Filter), (∀ v ∈ f.visits c s, v.SamePeriods c set now) →
      f.predicate? (c.at now) set s = f.predicate? c set s
  | s, .node es, h =>
    congrArg (fun ps => s.widen? (FilterEntry.includedValues es) (Predicate.and? ps))
      (FilterEntry.predicates_at es h)

theorem FilterEntry.predicates_at {c : Compiler} {set : ProjectionSet} {now : Instant} :
    ∀ {s : Scope} (es : List (String × FilterEntry)),
      (∀ v ∈ FilterEntry.visitsOfAll c s es, v.SamePeriods c set now) →
      FilterEntry.predicates (c.at now) set s es = FilterEntry.predicates c set s es
  | _, [], _ => rfl
  | s, (key, e) :: es, h => by
    simp only [FilterEntry.visitsOfAll, List.forall_mem_cons, List.forall_mem_append] at h
    obtain ⟨hown, hbelow, hrest⟩ := h
    rw [FilterEntry.predicates, FilterEntry.predicates, FilterEntry.predicate?_at e hown hbelow,
      FilterEntry.predicates_at es hrest]

theorem FilterEntry.predicate?_at {c : Compiler} {set : ProjectionSet} {now : Instant} :
    ∀ {s : Scope} {key : String} (e : FilterEntry), Visit.SamePeriods c set now ⟨s, key, e⟩ →
      (∀ v ∈ e.visitsBelow c s, v.SamePeriods c set now) →
      e.predicate? (c.at now) set s key = e.predicate? c set s key
  | _, _, .all fs, _, h => congrArg Predicate.and? (Filter.predicates_at fs h)
  | _, _, .any fs, _, h => congrArg Predicate.or? (Filter.predicates_at fs h)
  | _, _, .negation f, _, h => congrArg (Option.map Predicate.not) (Filter.predicate?_at f h)
  | s, _, .related relation f, _, h => by
    have hsame : (c.at now).joinedScope? s relation = c.joinedScope? s relation := rfl
    rw [FilterEntry.visitsBelow] at h
    rw [FilterEntry.predicate?, FilterEntry.predicate?, hsame]
    cases hinner : c.joinedScope? s relation with
    | none => rfl
    | some inner =>
      rw [hinner] at h
      exact Filter.predicate?_at f h
  | s, _, .quantified relation quantifier f, _, h => by
    have hsame : (c.at now).rowsScope? s relation = c.rowsScope? s relation := rfl
    rw [FilterEntry.visitsBelow] at h
    rw [FilterEntry.predicate?, FilterEntry.predicate?, hsame]
    cases hinner : c.rowsScope? s relation with
    | none => rfl
    | some inner =>
      rw [hinner] at h
      exact congrArg (fun p => some (quantifier.predicate _ _ p)) (Filter.predicate?_at f h)
  | _, _, .existence items, _, h =>
    congrArg Predicate.and? (ExistenceTest.predicates_at items h)
  | _, _, .id _, hown, _ | _, _, .quick _, hown, _ | _, _, .included _, hown, _
  | _, _, .search _, hown, _ | _, _, .window _, hown, _ | _, _, .subquery _, hown, _
  | _, _, .compare _, hown, _ | _, _, .aggregate _ _, hown, _ | _, _, .trunc _, hown, _
  | _, _, .extract _, hown, _ | _, _, .count _ _, hown, _ | _, _, .field _ _, hown, _ =>
    hown.predicate?

theorem Filter.predicates_at {c : Compiler} {set : ProjectionSet} {now : Instant} :
    ∀ {s : Scope} (fs : List Filter),
      (∀ v ∈ Filter.visitsOfAll c s fs, v.SamePeriods c set now) →
      Filter.predicates (c.at now) set s fs = Filter.predicates c set s fs
  | _, [], _ => rfl
  | _, f :: fs, h => by
    simp only [Filter.visitsOfAll, List.forall_mem_append] at h
    rw [Filter.predicates, Filter.predicates, Filter.predicate?_at f h.1,
      Filter.predicates_at fs h.2]

theorem ExistenceTest.predicates_at {c : Compiler} {set : ProjectionSet} {now : Instant} :
    ∀ {s : Scope} (items : List (ExistenceTest × Option Filter)),
      (∀ v ∈ ExistenceTest.visitsOfAll c s items, v.SamePeriods c set now) →
      ExistenceTest.predicates (c.at now) set s items = ExistenceTest.predicates c set s items
  | _, [], _ => rfl
  | _, (t, none) :: items, h => by
    rw [ExistenceTest.predicates, ExistenceTest.predicates, ExistenceTest.predicates_at items h]
    rfl
  | s, (t, some f) :: items, h => by
    have hsame : (c.at now).existenceTarget? s t.relation true =
        c.existenceTarget? s t.relation true := rfl
    rw [ExistenceTest.visitsOfAll] at h
    rw [ExistenceTest.predicates, ExistenceTest.predicates, hsame]
    cases htarget : c.existenceTarget? s t.relation true with
    | none =>
      rw [htarget] at h
      exact ExistenceTest.predicates_at items h
    | some target =>
      rw [htarget] at h
      dsimp only at h
      rw [List.forall_mem_append] at h
      rw [Option.map_some, Option.map_some, Filter.predicate?_at f h.1,
        ExistenceTest.predicates_at items h.2]

end

mutual

/-- The walk does not depend on the present. -/
theorem Filter.visits_at (c : Compiler) (now : Instant) :
    ∀ (s : Scope) (f : Filter), f.visits (c.at now) s = f.visits c s
  | s, .node es => FilterEntry.visitsOfAll_at c now s es

theorem FilterEntry.visitsOfAll_at (c : Compiler) (now : Instant) :
    ∀ (s : Scope) (es : List (String × FilterEntry)),
      FilterEntry.visitsOfAll (c.at now) s es = FilterEntry.visitsOfAll c s es
  | _, [] => rfl
  | s, (key, e) :: es => by
    rw [FilterEntry.visitsOfAll, FilterEntry.visitsOfAll, FilterEntry.visitsBelow_at c now s e,
      FilterEntry.visitsOfAll_at c now s es]

theorem FilterEntry.visitsBelow_at (c : Compiler) (now : Instant) :
    ∀ (s : Scope) (e : FilterEntry), e.visitsBelow (c.at now) s = e.visitsBelow c s
  | s, .all fs | s, .any fs => Filter.visitsOfAll_at c now s fs
  | s, .negation f => Filter.visits_at c now s f
  | s, .related relation f => by
    have hsame : (c.at now).joinedScope? s relation = c.joinedScope? s relation := rfl
    rw [FilterEntry.visitsBelow, FilterEntry.visitsBelow, hsame]
    cases c.joinedScope? s relation with
    | none => rfl
    | some inner => exact Filter.visits_at c now inner f
  | s, .quantified relation _ f => by
    have hsame : (c.at now).rowsScope? s relation = c.rowsScope? s relation := rfl
    rw [FilterEntry.visitsBelow, FilterEntry.visitsBelow, hsame]
    cases c.rowsScope? s relation with
    | none => rfl
    | some inner => exact Filter.visits_at c now inner f
  | s, .existence items => ExistenceTest.visitsOfAll_at c now s items
  | _, .id _ | _, .quick _ | _, .included _ | _, .search _ | _, .window _ | _, .subquery _
  | _, .compare _ | _, .aggregate _ _ | _, .trunc _ | _, .extract _ | _, .count _ _
  | _, .field _ _ => rfl

theorem Filter.visitsOfAll_at (c : Compiler) (now : Instant) :
    ∀ (s : Scope) (fs : List Filter),
      Filter.visitsOfAll (c.at now) s fs = Filter.visitsOfAll c s fs
  | _, [] => rfl
  | s, f :: fs => by
    rw [Filter.visitsOfAll, Filter.visitsOfAll, Filter.visits_at c now s f,
      Filter.visitsOfAll_at c now s fs]

theorem ExistenceTest.visitsOfAll_at (c : Compiler) (now : Instant) :
    ∀ (s : Scope) (items : List (ExistenceTest × Option Filter)),
      ExistenceTest.visitsOfAll (c.at now) s items = ExistenceTest.visitsOfAll c s items
  | _, [] => rfl
  | s, (_, none) :: items => ExistenceTest.visitsOfAll_at c now s items
  | s, (t, some f) :: items => by
    have hsame : (c.at now).existenceTarget? s t.relation true =
        c.existenceTarget? s t.relation true := rfl
    rw [ExistenceTest.visitsOfAll, ExistenceTest.visitsOfAll, hsame]
    cases c.existenceTarget? s t.relation true with
    | none => exact ExistenceTest.visitsOfAll_at c now s items
    | some target =>
      dsimp only
      rw [Filter.visits_at c now _ f, ExistenceTest.visitsOfAll_at c now s items]

end

section

variable {c : Compiler} {f : Filter} {now : Instant} {v : Visit}

lemma Compiler.conditionPredicate?_at {s : Scope} {relation : String}
    (h : ∀ target, c.toMany? s relation = some target →
      ∀ w ∈ f.visits c (s.enter relation target), w.SamePeriods c .empty now) :
    (c.at now).conditionPredicate? s relation f = c.conditionPredicate? s relation f :=
  Option.bind_congr fun target htarget => Filter.predicate?_at f (h target htarget)

lemma Compiler.collectAggregates_at {s : Scope} {a : Aggregation}
    {condition : Option (Filter × UInt32)} {set : ProjectionSet}
    (h : ∀ f hash function leaf plan target, condition = some (f, hash) →
      (function, leaf) ∈ a.functions → c.planAggregate? s a (some hash) function = some plan →
      c.toMany? s a.relation = some target →
      ∀ w ∈ f.visits c (s.enter a.relation target), w.SamePeriods c .empty now) :
    (c.at now).collectAggregates s a condition set = c.collectAggregates s a condition set := by
  unfold collectAggregates
  refine List.foldl_ext _ _ _ fun set x hx => ?_
  obtain ⟨function, leaf⟩ := x
  have hsame (fingerprint : Option UInt32) : (c.at now).planAggregate? s a fingerprint function =
      c.planAggregate? s a fingerprint function := rfl
  cases condition with
  | none => simp only [Option.bind_none, hsame]
  | some y =>
    obtain ⟨f, hash⟩ := y
    simp only [Option.map_some, Option.bind_some, hsame]
    cases hplan : c.planAggregate? s a (some hash) function with
    | none => rfl
    | some plan => simp only [conditionPredicate?_at (h f hash function leaf plan · rfl hx hplan)]

/-- Collecting needs the present for the periods in the conditions of aggregates only. -/
lemma Visit.collect_at {set : ProjectionSet}
    (h : ∀ s g, v.Conditions c s g → ∀ w ∈ g.visits c s, w.SamePeriods c .empty now) :
    v.collect (c.at now) set = v.collect c set := by
  obtain ⟨s, key, e⟩ := v
  cases e with
  | aggregate a condition =>
    refine Compiler.collectAggregates_at ?_
    rintro f hash function leaf plan target rfl hx hplan htarget
    exact h _ _ (.mk rfl hx hplan htarget)
  | _ => rfl

/-- Collecting the projections of a filter needs the present for those periods only. -/
lemma Filter.collect_at {s : Scope} {set : ProjectionSet}
    (h : ∀ v ∈ f.visits c s, ∀ t g, v.Conditions c t g →
      ∀ w ∈ g.visits c t, w.SamePeriods c .empty now) :
    f.collect (c.at now) s set = f.collect c s set := by
  rw [Filter.collect_eq_foldl, Filter.collect_eq_foldl, Filter.visits_at]
  exact List.foldl_ext _ _ _ fun set v hv => Visit.collect_at (h v hv)

/-- The periods are the same that the entries of a filter ask for, if all are that it asks for. -/
lemma Visit.samePeriods_of_asksFor {s : Scope} {set : ProjectionSet}
    (h : ∀ name, f.AsksFor c set s name → name.period now = name.period c.now)
    (hv : v ∈ f.visits c s) : v.SamePeriods c set now := by
  intro l kind hm name hname
  obtain ⟨path, o, happlies⟩ := mem_applied_iff.mp hm
  exact h name ⟨v, hv, l, path, o, kind, happlies, Leaf.mem_periods_iff.mp hname⟩

/-- **Compiling needs the present for the periods only** that the filter asks for. -/
theorem Compiler.compile_at {entity : String}
    (h : ∀ e, c.catalog.entity? entity = some e → ∀ name, c.AsksFor f e name →
      name.period now = name.period c.now) :
    (c.at now).compile f entity = c.compile f entity := by
  have hentity : (c.at now).catalog.entity? entity = c.catalog.entity? entity := rfl
  have hlimits : (c.at now).settings.limits.error? f = c.settings.limits.error? f := rfl
  rw [compile, compile, hentity, hlimits]
  cases he : c.catalog.entity? entity with
  | none => rfl
  | some e =>
    have hset : (c.at now).projections f e = c.projections f e :=
      Filter.collect_at fun v hv s g hg _ hw =>
        Visit.samePeriods_of_asksFor (fun name hasks => h e he name (.condition hv hg hasks)) hw
    have hpredicate : (c.at now).predicate? f e (c.projections f e) =
        c.predicate? f e (c.projections f e) :=
      Filter.predicate?_at f fun v hv =>
        Visit.samePeriods_of_asksFor (fun name hasks => h e he name (.predicate hasks)) hv
    dsimp only
    rw [hset, hpredicate]

end

end EntityFilter
