import EntityFilter.Filter
import EntityFilter.FilterSchema.Language
import Mathlib.Tactic.Common

/-!
# What a filter may contain, case by case

`FilterLanguage.offers` puts together a list from many pieces, some of which are left out.
`FilterLanguage.Offered` says the same as one statement for each way in which an offer comes about,
with all that decides whether it is made; `FilterLanguage.mem_offers_iff` says that nothing is
forgotten.  What is true of all offers is proved by going through these cases.
-/

namespace EntityFilter

/-- A field that holds the operators of a kind. -/
def Offer.operators (name : String) (kind : FieldKind) (description : Option String) : Offer :=
  .ofObjects name (.object kind.operatorsName) kind.operatorsDefinitions description

/-- A field that holds a list of objects, which may need others. -/
def Offer.listOf (name : String) (objects : List InputObject) (last : InputObject) : Offer :=
  .ofObjects name (.list (.object last.name)) (objects ++ [last])

/-- What a field is described as that holds a filter on related rows. -/
def Quantifier.description : Quantifier → String
  | some => "At least one related row matches"
  | every => "There are related rows and every one matches"
  | none => "No related row matches"

namespace FilterLanguage

/-- A relation of an entity that a filter at a depth may follow, and the entity that it leads to. -/
structure Follows (l : FilterLanguage) (e : Entity) (depth : Nat) (r : Relation) (target : Entity) :
    Prop where
  relation : r ∈ e.relations.values
  target : l.catalog.entity? r.target = some target
  depth : depth < l.maxDepth

/-- What the filter on an entity at a depth may contain. -/
inductive Offered (l : FilterLanguage) (e : Entity) (depth : Nat) : Offer → Prop where
  /-- The operators of a field. -/
  | stored {f : Field} (field : f ∈ e.fields.values) (allowed : f.kind.isArray → l.features.array) :
      Offered l e depth (.operators f.name f.kind (describe f))
  /-- A constraint on a truncated date. -/
  | trunc {f : Field} (field : f ∈ e.fields.values) (temporal : f.kind.isTemporal)
      (feature : l.features.dateTrunc) :
      Offered l e depth (.ofObjects (f.name ++ "_trunc") (.object f.kind.truncName)
        (f.kind.operatorsDefinitions ++ [.trunc f.kind]))
  /-- A constraint on a part of a date. -/
  | extract {f : Field} (field : f ∈ e.fields.values) (temporal : f.kind.isTemporal)
      (feature : l.features.dateExtract) :
      Offered l e depth (.ofObjects (f.name ++ "_extract") (.object InputObject.extract.name)
        (FieldKind.int.operatorsDefinitions ++ [.extract]))
  /-- The identifiers of related rows. -/
  | identifiers {r : Relation} {target : Entity} (follows : l.Follows e depth r target)
      (allowed : target.primaryKeyKind.isArray → l.features.array) :
      Offered l e depth (.operators r.name target.primaryKeyKind
        ("Filter on the identifiers of " ++ target.name : String))
  /-- A filter on the one related row. -/
  | joined {r : Relation} {target : Entity} (follows : l.Follows e depth r target)
      (one : ¬r.isToMany) (nests : depth + 1 < l.maxDepth) :
      Offered l e depth (l.nestedOffer (r.name ++ "_rel") target (depth + 1))
  /-- Aggregates of related rows. -/
  | aggregate {r : Relation} {target : Entity} (follows : l.Follows e depth r target)
      (many : r.isToMany) :
      Offered l e depth (.ofObjects (r.name ++ "_agg") (.object InputObject.aggregate.name)
        (InputObject.numbers ++ [.aggregate]))
  /-- The number of related rows. -/
  | count {r : Relation} {target : Entity} (follows : l.Follows e depth r target)
      (many : r.isToMany) (free : ¬e.hasField (r.name ++ "_count")) :
      Offered l e depth (.operators (r.name ++ "_count") .int none)
  /-- Aggregates of the related rows that satisfy a filter. -/
  | conditional {r : Relation} {target : Entity} (follows : l.Follows e depth r target)
      (many : r.isToMany) (nests : depth + 1 < l.maxDepth)
      (feature : l.features.conditionalAggregation) :
      Offered l e depth (l.conditionalOffer (r.name ++ "_cond_agg") target (depth + 1))
  /-- A filter on related rows. -/
  | quantified {r : Relation} {target : Entity} (follows : l.Follows e depth r target)
      (many : r.isToMany) (nests : depth + 1 < l.maxDepth) (quantifier : Quantifier) :
      Offered l e depth
        (l.nestedOffer (r.name ++ quantifier.ending) target (depth + 1) quantifier.description)
  /-- The operators of the primary key. -/
  | id (allowed : e.primaryKeyKind.isArray → l.features.array) :
      Offered l e depth (.operators "id" e.primaryKeyKind "Filter on the primary key")
  /-- A quick search. -/
  | quick : Offered l e depth ⟨⟨"quick", .scalar .text,
      "Case-insensitive text match across the quick-search fields"⟩, []⟩
  /-- Identifiers of rows that are kept in any case. -/
  | included : Offered l e depth
      ⟨⟨"include", .list (.scalar .id), "Identifiers always part of the result"⟩, []⟩
  /-- Filters on the same rows, as a list. -/
  | combined {name : String} (word : name = "AND" ∨ name = "OR") :
      Offered l e depth ⟨⟨name, .list (.object (l.nameOf e depth)), none⟩, []⟩
  /-- A filter on the same rows that is not to match. -/
  | negation : Offered l e depth ⟨⟨"NOT", .object (l.nameOf e depth), none⟩, []⟩
  /-- Comparisons of two fields. -/
  | compare : Offered l e depth (.listOf "_compare" [] .comparison)
  /-- Constraints on ranks. -/
  | window (feature : l.features.window) :
      Offered l e depth (.listOf "_window" FieldKind.float.operatorsDefinitions .window)
  /-- Constraints on looked-up values. -/
  | subquery (follows : depth < l.maxDepth) (feature : l.features.subquery) :
      Offered l e depth (.listOf "_subquery" [] .subquery)
  /-- Existence tests. -/
  | existence (follows : depth < l.maxDepth) (feature : l.features.existence) :
      Offered l e depth (.listOf "_exists" [] .existence)
  /-- A full-text search. -/
  | search (feature : l.features.fullText) :
      Offered l e depth (.ofObjects "search" (.object InputObject.search.name) [.search])

variable {l : FilterLanguage} {e target : Entity} {depth : Nat} {o : Offer}

/-- Operators are offered unless they are those of arrays, which are off. -/
lemma mem_operatorsOffers_iff {name : String} {kind : FieldKind} {description : Option String} :
    o ∈ l.operatorsOffers name kind description ↔
      (kind.isArray → l.features.array) ∧ o = .operators name kind description := by
  unfold operatorsOffers Offer.operators
  cases kind.isArray <;> cases l.features.array <;> simp

lemma mem_fieldOffers_iff {f : Field} :
    o ∈ l.fieldOffers f ↔
      (f.kind.isArray → l.features.array) ∧ o = .operators f.name f.kind (describe f) ∨
      f.kind.isTemporal ∧
        (l.features.dateTrunc ∧ o = .ofObjects (f.name ++ "_trunc") (.object f.kind.truncName)
            (f.kind.operatorsDefinitions ++ [.trunc f.kind]) ∨
          l.features.dateExtract ∧ o = .ofObjects (f.name ++ "_extract")
            (.object InputObject.extract.name)
            (FieldKind.int.operatorsDefinitions ++ [.extract])) := by
  simp only [fieldOffers, List.mem_append, List.mem_ite_nil_right, List.mem_singleton,
    mem_operatorsOffers_iff]

lemma mem_toManyOffers_iff {r : Relation} :
    o ∈ l.toManyOffers e r target depth ↔
      o = .ofObjects (r.name ++ "_agg") (.object InputObject.aggregate.name)
        (InputObject.numbers ++ [.aggregate]) ∨
      ¬e.hasField (r.name ++ "_count") ∧ o = .operators (r.name ++ "_count") .int none ∨
      depth + 1 < l.maxDepth ∧
        (l.features.conditionalAggregation ∧
            o = l.conditionalOffer (r.name ++ "_cond_agg") target (depth + 1) ∨
          ∃ quantifier : Quantifier, o =
            l.nestedOffer (r.name ++ quantifier.ending) target (depth + 1)
              quantifier.description) := by
  have hquantifier {p : Quantifier → Prop} : (∃ q, p q) ↔ p .some ∨ p .every ∨ p .none := by
    constructor
    · rintro ⟨q, hq⟩
      cases q
      · exact .inl hq
      · exact .inr (.inl hq)
      · exact .inr (.inr hq)
    · rintro (h | h | h) <;> exact ⟨_, h⟩
  have hint : FieldKind.int.isArray = false := rfl
  simp only [toManyOffers, List.mem_append, List.mem_ite_nil_right, List.mem_ite_nil_left,
    List.mem_cons, List.not_mem_nil, or_false, mem_operatorsOffers_iff, hint, hquantifier,
    Bool.false_eq_true, false_imp_iff, true_and, or_assoc]
  rfl

lemma mem_relationOffers_iff {r : Relation} :
    o ∈ l.relationOffers e depth r ↔ ∃ target, l.catalog.entity? r.target = some target ∧
      ((target.primaryKeyKind.isArray → l.features.array) ∧
          o = .operators r.name target.primaryKeyKind
            ("Filter on the identifiers of " ++ target.name : String) ∨
        r.isToMany ∧ o ∈ l.toManyOffers e r target depth ∨
        ¬r.isToMany ∧ depth + 1 < l.maxDepth ∧
          o = l.nestedOffer (r.name ++ "_rel") target (depth + 1)) := by
  unfold relationOffers
  cases l.catalog.entity? r.target with
  | none => simp
  | some target =>
    by_cases hmany : r.isToMany <;>
      simp [hmany, mem_operatorsOffers_iff]

lemma mem_specialOffers_iff : o ∈ l.specialOffers e depth ↔
    (e.primaryKeyKind.isArray → l.features.array) ∧
        o = .operators "id" e.primaryKeyKind "Filter on the primary key" ∨
      o = ⟨⟨"quick", .scalar .text,
        "Case-insensitive text match across the quick-search fields"⟩, []⟩ ∨
      o = ⟨⟨"include", .list (.scalar .id), "Identifiers always part of the result"⟩, []⟩ ∨
      o = ⟨⟨"AND", .list (.object (l.nameOf e depth)), none⟩, []⟩ ∨
      o = ⟨⟨"OR", .list (.object (l.nameOf e depth)), none⟩, []⟩ ∨
      o = ⟨⟨"NOT", .object (l.nameOf e depth), none⟩, []⟩ ∨
      o = .listOf "_compare" [] .comparison ∨
      l.features.window ∧ o = .listOf "_window" FieldKind.float.operatorsDefinitions .window ∨
      (depth < l.maxDepth ∧ l.features.subquery) ∧ o = .listOf "_subquery" [] .subquery ∨
      (depth < l.maxDepth ∧ l.features.existence) ∧ o = .listOf "_exists" [] .existence ∨
      l.features.fullText ∧
        o = .ofObjects "search" (.object InputObject.search.name) [.search] := by
  simp only [specialOffers, List.mem_append, List.mem_ite_nil_right, List.mem_cons,
    List.not_mem_nil, or_false, mem_operatorsOffers_iff, Offer.listOf, Bool.and_eq_true,
    decide_eq_true_eq, or_assoc]

/-- **What a filter offers**, case by case. -/
theorem mem_offers_iff : o ∈ l.offers e depth ↔ l.Offered e depth o := by
  simp only [offers, List.mem_append, List.mem_flatMap, List.mem_ite_nil_right, mem_fieldOffers_iff,
    mem_relationOffers_iff, mem_toManyOffers_iff, mem_specialOffers_iff]
  constructor
  · rintro ((⟨f, hf, ⟨hallowed, rfl⟩ | ⟨htemporal, ⟨hfeature, rfl⟩ | ⟨hfeature, rfl⟩⟩⟩ |
      ⟨hdepth, r, hr, target, htarget, ⟨hallowed, rfl⟩ | ⟨hmany, rfl | ⟨hfree, rfl⟩ |
        ⟨hnests, ⟨hfeature, rfl⟩ | ⟨quantifier, rfl⟩⟩⟩ | ⟨hone, hnests, rfl⟩⟩) |
      ⟨hallowed, rfl⟩ | rfl | rfl | rfl | rfl | rfl | rfl | ⟨hfeature, rfl⟩ |
      ⟨⟨hdepth, hfeature⟩, rfl⟩ | ⟨⟨hdepth, hfeature⟩, rfl⟩ | ⟨hfeature, rfl⟩)
    · exact .stored hf hallowed
    · exact .trunc hf htemporal hfeature
    · exact .extract hf htemporal hfeature
    · exact .identifiers ⟨hr, htarget, hdepth⟩ hallowed
    · exact .aggregate ⟨hr, htarget, hdepth⟩ hmany
    · exact .count ⟨hr, htarget, hdepth⟩ hmany hfree
    · exact .conditional ⟨hr, htarget, hdepth⟩ hmany hnests hfeature
    · exact .quantified ⟨hr, htarget, hdepth⟩ hmany hnests quantifier
    · exact .joined ⟨hr, htarget, hdepth⟩ hone hnests
    · exact .id hallowed
    · exact .quick
    · exact .included
    · exact .combined (.inl rfl)
    · exact .combined (.inr rfl)
    · exact .negation
    · exact .compare
    · exact .window hfeature
    · exact .subquery hdepth hfeature
    · exact .existence hdepth hfeature
    · exact .search hfeature
  · intro h
    cases h with
    | stored hf hallowed => exact .inl (.inl ⟨_, hf, .inl ⟨hallowed, rfl⟩⟩)
    | trunc hf htemporal hfeature =>
      exact .inl (.inl ⟨_, hf, .inr ⟨htemporal, .inl ⟨hfeature, rfl⟩⟩⟩)
    | extract hf htemporal hfeature =>
      exact .inl (.inl ⟨_, hf, .inr ⟨htemporal, .inr ⟨hfeature, rfl⟩⟩⟩)
    | identifiers hr hallowed =>
      exact .inl (.inr ⟨hr.depth, _, hr.relation, _, hr.target, .inl ⟨hallowed, rfl⟩⟩)
    | joined hr hone hnests =>
      exact .inl (.inr ⟨hr.depth, _, hr.relation, _, hr.target, .inr (.inr ⟨hone, hnests, rfl⟩)⟩)
    | aggregate hr hmany =>
      exact .inl (.inr ⟨hr.depth, _, hr.relation, _, hr.target, .inr (.inl ⟨hmany, .inl rfl⟩)⟩)
    | count hr hmany hfree =>
      exact .inl (.inr ⟨hr.depth, _, hr.relation, _, hr.target,
        .inr (.inl ⟨hmany, .inr (.inl ⟨hfree, rfl⟩)⟩)⟩)
    | conditional hr hmany hnests hfeature =>
      exact .inl (.inr ⟨hr.depth, _, hr.relation, _, hr.target,
        .inr (.inl ⟨hmany, .inr (.inr ⟨hnests, .inl ⟨hfeature, rfl⟩⟩)⟩)⟩)
    | quantified hr hmany hnests quantifier =>
      exact .inl (.inr ⟨hr.depth, _, hr.relation, _, hr.target,
        .inr (.inl ⟨hmany, .inr (.inr ⟨hnests, .inr ⟨quantifier, rfl⟩⟩)⟩)⟩)
    | id hallowed => exact .inr (.inl ⟨hallowed, rfl⟩)
    | combined hword => exact .inr (by rcases hword with rfl | rfl <;> simp)
    | _ => exact .inr (by simp [*])

end FilterLanguage

end EntityFilter
