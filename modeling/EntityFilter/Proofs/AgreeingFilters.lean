import EntityFilter.Filter.Reader
import EntityFilter.Proofs.CanonicalLeaves

/-!
# Filters that pick the same rows

Two filters agree if they pick the same rows in every scope when there are no projections
(`Filter.Agree`).  This is what has to be known of filters that are conditions of aggregates, which
are compiled without projections.  Whether filters agree is decided entry by entry: the order
of the entries does not count, nor does what an entry tests on projections, and all that counts of
identifiers that are included is which ones they are (`FilterEntry.Agree`).
-/

namespace EntityFilter

/-! ## Predicates that hold of the same rows -/

section

variable {α β α' β' : Type} {R : α → β → Prop} {S : α' → β' → Prop} {x : Option α} {y : Option β}

lemma rel_map {f : α → α'} {g : β → β'} (h : Option.Rel R x y)
    (hf : ∀ a b, R a b → S (f a) (g b)) : Option.Rel S (x.map f) (y.map g) := by
  rcases h with h | _
  · exact .some (hf _ _ h)
  · exact .none

end

namespace Predicate

/-- Predicates that hold of the same rows, or none at all. -/
def Agree (p q : Option Predicate) : Prop :=
  Option.Rel (fun p q => ∀ ctx, p.holds ctx = q.holds ctx) p q

variable {p q : Option Predicate} {ps qs : List Predicate}

lemma agree_iff : Agree p q ↔ ∀ ctx, p.map (·.holds ctx) = q.map (·.holds ctx) := by
  constructor
  · rintro (h | _) ctx
    · exact congrArg some (h ctx)
    · rfl
  · intro h
    cases p with
    | none =>
      cases q with
      | none => exact .none
      | some q => simpa using h (.ofRow .null)
    | some p =>
      cases q with
      | none => simpa using h (.ofRow .null)
      | some q => exact .some fun ctx => by simpa using h ctx

lemma Agree.refl (p : Option Predicate) : Agree p p := agree_iff.mpr fun _ => rfl

/-- The order of verdicts does not count. -/
lemma conjoined?_eq_of_perm {as bs : List Bool} (h : as.Perm bs) :
    conjoined? as = conjoined? bs := by
  cases as with
  | nil => rw [h.nil_eq]
  | cons a as =>
    cases bs with
    | nil => exact absurd h.eq_nil (List.cons_ne_nil _ _)
    | cons b bs => exact congrArg some h.all_eq

/-- Conjunctions of predicates that hold of the same rows, in any order. -/
lemma agree_and? (hps : ∀ p ∈ ps, p.IsNormal) (hqs : ∀ q ∈ qs, q.IsNormal)
    (h : ∀ ctx, (ps.map (holds ctx)).Perm (qs.map (holds ctx))) : Agree (and? ps) (and? qs) := by
  refine agree_iff.mpr fun ctx => ?_
  show (and? ps).map (holds ctx) = (and? qs).map (holds ctx)
  rw [map_holds_and? hps, map_holds_and? hqs, conjoined?_eq_of_perm (h ctx)]

lemma agree_or? (hps : ∀ p ∈ ps, p.IsNormal) (hqs : ∀ q ∈ qs, q.IsNormal)
    (h : ∀ ctx, ps.map (holds ctx) = qs.map (holds ctx)) : Agree (or? ps) (or? qs) := by
  refine agree_iff.mpr fun ctx => ?_
  show (or? ps).map (holds ctx) = (or? qs).map (holds ctx)
  rw [map_holds_or? hps, map_holds_or? hqs, h]

/-- Predicates that are made item by item. -/
lemma map_holds_filterMap {ι : Type} {is js : List ι} {p? : ι → Option Predicate}
    (h : List.Forall₂ (fun i j => Agree (p? i) (p? j)) is js) (ctx : RowContext) :
    (is.filterMap p?).map (holds ctx) = (js.filterMap p?).map (holds ctx) := by
  induction h with
  | nil => rfl
  | @cons i j is js hij _ ih =>
    rw [List.filterMap_cons, List.filterMap_cons]
    revert hij
    generalize p? i = p
    generalize p? j = q
    rintro (h | _)
    · exact congrArg₂ List.cons (h ctx) ih
    · exact ih

/-- What is made from predicates that hold of the same rows. -/
lemma Agree.map {f : Predicate → Predicate} (h : Agree p q)
    (hf : ∀ p q : Predicate, (∀ ctx, p.holds ctx = q.holds ctx) →
      ∀ ctx, (f p).holds ctx = (f q).holds ctx) : Agree (p.map f) (q.map f) :=
  rel_map h hf

lemma holds_existence_congr (h : Agree p q) (path : RelationPath) (entity : String)
    (ctx : RowContext) :
    (existence path entity p).holds ctx = (existence path entity q).holds ctx := by
  rcases h with h | _
  · simp only [holds, h]
  · rfl

lemma holds_not_congr {p q : Predicate} (h : ∀ ctx, p.holds ctx = q.holds ctx)
    (ctx : RowContext) : p.not.holds ctx = q.not.holds ctx := by
  rw [holds_not, holds_not, h]

end Predicate

lemma Quantifier.holds_predicate_congr {p q : Option Predicate} (h : Predicate.Agree p q)
    (quantifier : Quantifier) (path : RelationPath) (entity : String) (ctx : RowContext) :
    (quantifier.predicate path entity p).holds ctx =
      (quantifier.predicate path entity q).holds ctx := by
  cases quantifier with
  | some => exact Predicate.holds_existence_congr h path entity ctx
  | none => exact Predicate.holds_not_congr (Predicate.holds_existence_congr h path entity) ctx
  | every =>
    rcases h with h | _
    · have hnot : Predicate.Agree _ _ := .some (Predicate.holds_not_congr h)
      simp only [Quantifier.predicate]
      rw [Predicate.holds_andThen, Predicate.holds_andThen, Predicate.holds_not,
        Predicate.holds_not, Predicate.holds_existence_congr hnot]
    · rfl

lemma ExistenceTest.holds_predicate_congr {p q : Option Predicate} (h : Predicate.Agree p q)
    (t : ExistenceTest) (path : RelationPath) (entity : String) (ctx : RowContext) :
    (t.predicate path entity p).holds ctx = (t.predicate path entity q).holds ctx := by
  have hfound := Predicate.holds_existence_congr h path entity
  unfold ExistenceTest.predicate
  cases t.expected
  · exact Predicate.holds_not_congr hfound ctx
  · exact hfound ctx

/-! ## Leaves that test the same -/

/-- Leaves that make the same tests of fields. -/
def Leaf.Agrees (leaf leaf' : Leaf) : Prop :=
  ∀ kind now, leaf.test? true kind now = leaf'.test? true kind now

namespace Compiler

variable {c : Compiler} {s : Scope} {leaf leaf' : Leaf}

lemma agree_leaf (h : leaf.Agrees leaf') (path : FieldPath) (kind : FieldKind) (now : Instant) :
    Predicate.Agree (leaf.predicate? (.field path) kind now)
      (leaf'.predicate? (.field path) kind now) := by
  refine Predicate.agree_iff.mpr fun ctx => ?_
  rw [Leaf.map_holds_predicate?_field, Leaf.map_holds_predicate?_field, h]

lemma agree_relationPredicate? (h : leaf.Agrees leaf') (name : String) :
    Predicate.Agree (c.relationPredicate? s name leaf) (c.relationPredicate? s name leaf') := by
  unfold relationPredicate?
  split
  · split
    · dsimp only
      split
      · exact agree_leaf h _ _ _
      · exact (agree_leaf h _ _ _).map fun p q hpq ctx =>
          Predicate.holds_existence_congr (.some hpq) _ _ ctx
    · exact .refl none
  · exact .refl none

lemma agree_fieldPredicate? (h : leaf.Agrees leaf') (name : String) :
    Predicate.Agree (c.fieldPredicate? s name leaf) (c.fieldPredicate? s name leaf') := by
  unfold fieldPredicate?
  split
  · split
    · exact .refl none
    · exact agree_leaf h _ _ _
  · exact agree_relationPredicate? h name

end Compiler

/-! ## Filters and entries that agree -/

/-- Filters that pick the same rows in every scope, when there are no projections. -/
def Filter.Agree (f g : Filter) : Prop :=
  ∀ (c : Compiler) (s : Scope), Predicate.Agree (f.predicate? c .empty s) (g.predicate? c .empty s)

/-- Existence tests that differ in their conditions at most, and those agree. -/
def ExistenceTest.Agree (t t' : ExistenceTest × Option Filter) : Prop :=
  t.1 = t'.1 ∧ Option.Rel Filter.Agree t.2 t'.2

namespace FilterEntry

/-- The identifiers that an entry includes. -/
def valuesOf : Option FilterEntry → List Literal
  | some (.included values) => values
  | _ => []

lemma valuesOf_some (e : FilterEntry) : valuesOf (some e) = e.included?.getD [] := by
  cases e <;> rfl

/-- Entries that pick the same rows in every scope and under every key, when there are no
projections, and include the same identifiers. -/
structure Agree (e e' : Option FilterEntry) : Prop where
  predicate : ∀ (c : Compiler) (s : Scope) (key : String),
    Predicate.Agree (e.bind (·.predicate? c .empty s key)) (e'.bind (·.predicate? c .empty s key))
  values : ∀ value, (valuesOf e).any (Literal.equals value) =
    (valuesOf e').any (Literal.equals value)

lemma Agree.refl (e : Option FilterEntry) : Agree e e :=
  ⟨fun _ _ _ => .refl _, fun _ => rfl⟩

/-- Entries that are made in the same way from things that agree, and include no identifiers. -/
lemma agree_map {α : Type} {R : α → α → Prop} {make : α → FilterEntry} {x y : Option α}
    (h : Option.Rel R x y)
    (hpredicate : ∀ x y, R x y → ∀ (c : Compiler) (s : Scope) (key : String),
      Predicate.Agree ((make x).predicate? c .empty s key) ((make y).predicate? c .empty s key))
    (hvalues : ∀ x, valuesOf (some (make x)) = []) : Agree (x.map make) (y.map make) := by
  rcases h with h | _
  · exact ⟨hpredicate _ _ h, fun value => by
      rw [Option.map_some, Option.map_some, hvalues, hvalues]⟩
  · exact .refl none

/-- Entries that pick no rows without projections, and include none. -/
def IsSilent (e : FilterEntry) : Prop :=
  (∀ (c : Compiler) (s : Scope) (key : String), e.predicate? c .empty s key = none) ∧
    valuesOf (some e) = []

lemma agree_of_isSilent {e e' : Option FilterEntry} (h : ∀ x ∈ e, x.IsSilent)
    (h' : ∀ x ∈ e', x.IsSilent) : Agree e e' := by
  have hnone : ∀ o : Option FilterEntry, (∀ x ∈ o, x.IsSilent) →
      (∀ (c : Compiler) (s : Scope) (key : String),
        o.bind (·.predicate? c .empty s key) = none) ∧ valuesOf o = [] := by
    intro o ho
    cases o with
    | none => exact ⟨fun _ _ _ => rfl, rfl⟩
    | some x => exact ho x rfl
  obtain ⟨he, hvalues⟩ := hnone e h
  obtain ⟨he', hvalues'⟩ := hnone e' h'
  refine ⟨fun c s key => ?_, fun value => ?_⟩
  · rw [he, he']
    exact .refl none
  · rw [hvalues, hvalues']

/-- Whether an entry tests projections and nothing else. -/
def isProjected : FilterEntry → Bool
  | search _ | window _ | subquery _ | aggregate _ _ | trunc _ | extract _ => true
  | _ => false

/-- Nothing is tested on projections when there are none. -/
lemma isSilent_of_plans {α : Type} {e : FilterEntry} {items : List α}
    {plan? : Compiler → Scope → α → Option Plan} (leaf : α → Leaf)
    (h : ∀ (c : Compiler) (s : Scope) (key : String), e.predicate? c .empty s key =
      Predicate.and? (items.filterMap fun i =>
        (plan? c s i).bind fun p => c.projected? .empty p (leaf i)))
    (hvalues : valuesOf (some e) = []) : e.IsSilent := by
  refine ⟨fun c s key => ?_, hvalues⟩
  have hnone : (fun i => (plan? c s i).bind fun p => c.projected? .empty p (leaf i)) =
      fun _ => none := by
    funext i
    cases plan? c s i <;> rfl
  rw [h, hnone, List.filterMap_eq_nil_iff.mpr fun _ _ => rfl]
  rfl

lemma isSilent_of_plan {e : FilterEntry} {plan? : Compiler → Scope → Option Plan} {leaf : Leaf}
    (h : ∀ (c : Compiler) (s : Scope) (key : String), e.predicate? c .empty s key =
      (plan? c s).bind fun p => c.projected? .empty p leaf)
    (hvalues : valuesOf (some e) = []) : e.IsSilent := by
  refine ⟨fun c s key => ?_, hvalues⟩
  rw [h]
  cases plan? c s <;> rfl

lemma isSilent_of_isProjected {e : FilterEntry} (h : e.isProjected) : e.IsSilent := by
  cases e with
  | search search =>
    refine ⟨fun c s key => ?_, rfl⟩
    rw [predicate?, Compiler.searchPredicate?]
    cases c.planSearch? s search <;> rfl
  | window items => exact isSilent_of_plans _ (fun _ _ _ => by rw [predicate?]) rfl
  | subquery items => exact isSilent_of_plans _ (fun _ _ _ => by rw [predicate?]) rfl
  | aggregate a condition =>
    exact isSilent_of_plans Prod.snd (fun _ _ _ => by rw [predicate?]) rfl
  | trunc t => exact isSilent_of_plan (fun _ _ _ => by rw [predicate?]) rfl
  | extract e => exact isSilent_of_plan (fun _ _ _ => by rw [predicate?]) rfl
  | _ => simp [isProjected] at h

end FilterEntry

/-! ## Items one by one -/

section

variable {c : Compiler} {set : ProjectionSet} {s : Scope}

lemma Filter.predicates_eq_filterMap (fs : List Filter) :
    Filter.predicates c set s fs = fs.filterMap (·.predicate? c set s) := by
  induction fs with
  | nil => rfl
  | cons f fs ih =>
    rw [Filter.predicates, ih, List.filterMap_cons]
    cases f.predicate? c set s <;> rfl

lemma FilterEntry.predicates_eq_filterMap (es : List (String × FilterEntry)) :
    FilterEntry.predicates c set s es = es.filterMap fun e => e.2.predicate? c set s e.1 := by
  induction es with
  | nil => rfl
  | cons e es ih =>
    obtain ⟨key, e⟩ := e
    rw [FilterEntry.predicates, ih, List.filterMap_cons]
    cases e.predicate? c set s key <;> rfl

/-- The predicate of an existence test with its condition. -/
def ExistenceTest.predicate? (c : Compiler) (set : ProjectionSet) (s : Scope)
    (t : ExistenceTest × Option Filter) : Option Predicate :=
  (c.existenceTarget? s t.1.relation t.2.isSome).map fun target =>
    t.1.predicate (s.relationPath t.1.relation) target.name
      (t.2.bind (·.predicate? c set (s.enter t.1.relation target)))

lemma ExistenceTest.predicates_eq_filterMap (items : List (ExistenceTest × Option Filter)) :
    ExistenceTest.predicates c set s items = items.filterMap (predicate? c set s) := by
  induction items with
  | nil => rfl
  | cons t items ih =>
    obtain ⟨t, _ | f⟩ := t
    · rw [ExistenceTest.predicates, ih, List.filterMap_cons]
      simp only [predicate?, Option.isSome_none, Option.bind_none]
      cases c.existenceTarget? s t.relation false <;> rfl
    · rw [ExistenceTest.predicates, ih, List.filterMap_cons]
      simp only [predicate?, Option.isSome_some, Option.bind_some]
      cases c.existenceTarget? s t.relation true <;> rfl

lemma FilterEntry.includedValues_concat (es : List (String × FilterEntry))
    (e : String × FilterEntry) : FilterEntry.includedValues (es ++ [e]) =
      e.2.included?.getD (FilterEntry.includedValues es) := by
  unfold FilterEntry.includedValues
  rw [List.foldl_append]
  rfl

end

lemma Filter.map_holds_predicates_congr {fs gs : List Filter} (h : List.Forall₂ Filter.Agree fs gs)
    (c : Compiler) (s : Scope) (ctx : RowContext) :
    (Filter.predicates c .empty s fs).map (·.holds ctx) =
      (Filter.predicates c .empty s gs).map (·.holds ctx) := by
  rw [Filter.predicates_eq_filterMap, Filter.predicates_eq_filterMap]
  exact Predicate.map_holds_filterMap (h.imp fun _ _ hfg => hfg c s) ctx

lemma ExistenceTest.agree_predicate? {t t' : ExistenceTest × Option Filter}
    (h : ExistenceTest.Agree t t') (c : Compiler) (s : Scope) :
    Predicate.Agree (predicate? c .empty s t) (predicate? c .empty s t') := by
  obtain ⟨t, f⟩ := t
  obtain ⟨t', g⟩ := t'
  obtain ⟨rfl, hcondition⟩ := h
  have hsome : f.isSome = g.isSome := by
    rcases hcondition with _ | _ <;> rfl
  unfold predicate?
  simp only [hsome]
  cases c.existenceTarget? s t.relation g.isSome with
  | none => exact .refl none
  | some target =>
    refine .some fun ctx => ExistenceTest.holds_predicate_congr ?_ t _ _ ctx
    rcases hcondition with hfg | _
    · exact hfg c (s.enter t.relation target)
    · exact .refl none

end EntityFilter
