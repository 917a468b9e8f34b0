import EntityFilter.Proofs.LinkedFilters
import EntityFilter.Proofs.ReorderedConditions
import EntityFilter.Proofs.Requests

/-!
# The same filter in other words

Filters are combined by `AND`, `OR` and `NOT`, and there are many ways to combine them to the same
end: a list of one filter, two negations, a list that is cut in two.  Predicates are tidied up while
they are made, so none of this is left in what a filter compiles to: a document that restates
another one compiles to the same projections and to the same predicate, part by part
(`Document.Restates.compiles_to_same`).

It rests on the normal form.  What is combined has the parts of what it is combined of, in order
(`Connective.flatMap_parts_combine?`), and to combine is to take the parts together.  Both would
fail if some filter said a conjunction without parts, one inside another, or a negation of a
negation.
-/

namespace EntityFilter

/-- How several filters on the same rows are combined. -/
inductive Connective where
  | all
  | any
  deriving DecidableEq

namespace Connective

/-- The key of a list of filters. -/
def key : Connective → String
  | all => "AND"
  | any => "OR"

/-- The entry that combines filters. -/
def entry : Connective → List Filter → FilterEntry
  | all => .all
  | any => .any

/-- The parts of a predicate that is combined. -/
def parts : Connective → Predicate → List Predicate
  | all => Predicate.conjuncts
  | any => Predicate.disjuncts

/-- The predicate with the given parts. -/
def predicate : Connective → List Predicate → Predicate
  | all => .all
  | any => .any

/-- The combination of predicates, if there are any. -/
def combine? : Connective → List Predicate → Option Predicate
  | all => Predicate.and?
  | any => Predicate.or?

variable {k : Connective} {ps qs : List Predicate} {p : Predicate}

/-! ## Predicates -/

/-- A combination depends on the parts alone: none say nothing, and one stands for itself. -/
lemma combine?_eq (k : Connective) (ps : List Predicate) :
    k.combine? ps =
      match ps.flatMap k.parts with
      | [] => none
      | [p] => some p
      | parts => some (k.predicate parts) := by
  cases k <;> rfl

lemma parts_predicate (k : Connective) (ps : List Predicate) : k.parts (k.predicate ps) = ps := by
  cases k <;> rfl

lemma combine?_congr (h : ps.flatMap k.parts = qs.flatMap k.parts) :
    k.combine? ps = k.combine? qs := by
  rw [combine?_eq, combine?_eq, h]

/-- A part of a normal predicate has no parts of its own. -/
lemma parts_of_mem_parts (hp : p.IsNormal) {q : Predicate} (hq : q ∈ k.parts p) :
    k.parts q = [q] := by
  cases k with
  | all =>
    have hpart := (hp.of_mem_conjuncts q hq).2
    cases q with
    | all => exact absurd rfl hpart
    | _ => rfl
  | any =>
    have hpart := (hp.of_mem_disjuncts q hq).2
    cases q with
    | any => exact absurd rfl hpart
    | _ => rfl

/-- **What is combined has the parts of what it is combined of**, in order. -/
theorem flatMap_parts_combine? (hps : ∀ p ∈ ps, p.IsNormal) :
    (k.combine? ps).toList.flatMap k.parts = ps.flatMap k.parts := by
  rw [combine?_eq]
  split
  · next hparts => rw [hparts, Option.toList_none, List.flatMap_nil]
  · next p hparts =>
    obtain ⟨q, hq, hp⟩ := List.mem_flatMap.mp (hparts ▸ List.mem_singleton_self p)
    rw [hparts, Option.toList_some, List.flatMap_singleton, parts_of_mem_parts (hps q hq) hp]
  · rw [Option.toList_some, List.flatMap_singleton, parts_predicate]

/-- Lists may be cut in two and combined piece by piece. -/
lemma combine?_append (hps : ∀ p ∈ ps, p.IsNormal) (hqs : ∀ q ∈ qs, q.IsNormal) :
    k.combine? ((k.combine? ps).toList ++ (k.combine? qs).toList) = k.combine? (ps ++ qs) := by
  refine combine?_congr ?_
  rw [List.flatMap_append, List.flatMap_append, flatMap_parts_combine? hps,
    flatMap_parts_combine? hqs]

/-- A normal predicate, or nothing, is the combination of itself. -/
lemma combine?_toList {p : Option Predicate} (hp : ∀ q, p = some q → q.IsNormal) :
    k.combine? p.toList = p := by
  cases k with
  | all => exact Predicate.and?_toList hp
  | any =>
    cases p with
    | none => rfl
    | some q =>
      cases q with
      | any ps =>
        obtain ⟨hlength, -⟩ := hp _ rfl
        match ps, hlength with
        | first :: second :: rest, _ => simp [combine?, Predicate.or?, Predicate.disjuncts]
      | _ => rfl

/-! ## Filters -/

/-- The filter that combines filters. -/
def filter (k : Connective) (fs : List Filter) : Filter := .node [(k.key, k.entry fs)]

end Connective

namespace Filter

/-- The filter that is satisfied if the given one is not. -/
def denial (f : Filter) : Filter := .node [("NOT", .negation f)]

/-- Filters that collect the same projections and have the same predicate, wherever they stand. -/
structure Alike (f g : Filter) : Prop where
  collect : ∀ c s set, f.collect c s set = g.collect c s set
  predicate : ∀ c set s, f.predicate? c set s = g.predicate? c set s

variable {k : Connective} {c : Compiler} {set : ProjectionSet} {s : Scope} {f g : Filter}
  {fs gs : List Filter}

lemma collect_connective :
    (k.filter fs).collect c s set = Filter.collectAll c s set fs := by
  cases k <;> rfl

lemma predicate?_connective :
    (k.filter fs).predicate? c set s = k.combine? (Filter.predicates c set s fs) := by
  unfold Connective.filter
  rw [Link.predicate?_node]
  cases k <;> simp only [Connective.entry, Connective.combine?, FilterEntry.predicate?]

lemma predicate?_denial :
    f.denial.predicate? c set s = (f.predicate? c set s).map Predicate.not := by
  rw [denial, Link.predicate?_node, FilterEntry.predicate?]

lemma collectAll_append :
    Filter.collectAll c s set (fs ++ gs) =
      Filter.collectAll c s (Filter.collectAll c s set fs) gs := by
  induction fs generalizing set with
  | nil => rfl
  | cons f fs ih => exact ih

lemma alike_singleton (k : Connective) (f : Filter) : (k.filter [f]).Alike f where
  collect c s set := collect_connective
  predicate c set s := by
    rw [predicate?_connective, Filter.predicates, Filter.predicates, List.append_nil]
    exact Connective.combine?_toList fun _ => isNormal_of_predicate?

lemma alike_denial_denial (f : Filter) : f.denial.denial.Alike f where
  collect c s set := rfl
  predicate c set s := by
    rw [predicate?_denial, predicate?_denial]
    cases hp : f.predicate? c set s with
    | none => rfl
    | some p => exact congrArg some (isNormal_of_predicate? hp).not_not

lemma alike_append (k : Connective) (fs gs : List Filter) :
    (k.filter [k.filter fs, k.filter gs]).Alike (k.filter (fs ++ gs)) where
  collect c s set := by
    rw [collect_connective, collect_connective, collectAll_append]
    simp only [Filter.collectAll, collect_connective]
  predicate c set s := by
    rw [predicate?_connective, predicate?_connective]
    simp only [Filter.predicates, predicate?_connective, List.append_nil]
    rw [Connective.combine?_append isNormal_of_mem_predicates isNormal_of_mem_predicates,
      predicates_eq_filterMap, predicates_eq_filterMap, predicates_eq_filterMap,
      List.filterMap_append]

/-- Filters that are alike compile to the same if they keep the limits. -/
lemma Alike.compile_eq (h : f.Alike g) {n : String} {e : Entity} (he : c.catalog.entity? n = some e)
    (hf : c.settings.limits.error? f = none) (hg : c.settings.limits.error? g = none) :
    ∃ compiled, c.compile f n = .ok compiled ∧ c.compile g n = .ok compiled := by
  have hset : c.projections f e = c.projections g e := h.collect c _ _
  have hpredicate : ∀ set, c.predicate? f e set = c.predicate? g e set := fun set =>
    h.predicate c set _
  refine ⟨_, Compiler.compile_eq_ok he hf, ?_⟩
  rw [Compiler.compile_eq_ok he hg, hset, hpredicate]

end Filter

/-! ## Documents -/

/-- The document that combines documents. -/
def Connective.document (k : Connective) (items : List Document) : Document :=
  .object [(k.key, .array items)]

/-- The document that denies a document. -/
def Document.denial (d : Document) : Document := .object [("NOT", d)]

/-- A document says the same as another one in other words. -/
inductive Document.Restates : Document → Document → Prop
  /-- A list of one document. -/
  | single (k : Connective) (d : Document) : Restates (k.document [d]) d
  /-- A document in the place of a list. -/
  | bare (k : Connective) (d : Document) : Restates (.object [(k.key, d)]) d
  /-- Two negations. -/
  | denials (d : Document) : Restates d.denial.denial d
  /-- A list in two pieces. -/
  | pieces (k : Connective) (ds es : List Document) :
      Restates (k.document [k.document ds, k.document es]) (k.document (ds ++ es))

namespace Filter

variable {k : Connective} {d : Document} {f : Filter} {ds es : List Document}

lemma listOfItems_append : listOfItems (ds ++ es) = listOfItems ds ++ listOfItems es := by
  rw [listOfItems_eq_filterMap, listOfItems_eq_filterMap, listOfItems_eq_filterMap,
    List.filterMap_append]

lemma ofDocument?_key {list : List Filter} (h : listOfDocument? d = some list) :
    ofDocument? (.object [(k.key, d)]) = some (k.filter list) := by
  have hentry : FilterEntry.ofDocument? (FilterKey.ofName k.key) d = some (k.entry list) := by
    cases k with
    | all =>
      rw [show FilterKey.ofName Connective.all.key = .all by decide, FilterEntry.ofDocument?, h]
      rfl
    | any =>
      rw [show FilterKey.ofName Connective.any.key = .any by decide, FilterEntry.ofDocument?, h]
      rfl
  simp only [ofDocument?, FilterEntry.ofMembers, hentry, Connective.filter]

lemma ofDocument?_connective (k : Connective) (ds : List Document) :
    ofDocument? (k.document ds) = some (k.filter (listOfItems ds)) :=
  ofDocument?_key (by rw [listOfDocument?])

lemma ofDocument?_denial (hd : ofDocument? d = some f) :
    ofDocument? d.denial = some f.denial := by
  have hentry : FilterEntry.ofDocument? (FilterKey.ofName "NOT") d = some (.negation f) := by
    rw [show FilterKey.ofName "NOT" = .negation by decide, FilterEntry.ofDocument?, hd]
    rfl
  simp only [Document.denial, ofDocument?, FilterEntry.ofMembers, hentry, denial]

/-- A filter in the place of a list is a list of one. -/
lemma listOfDocument?_of_ofDocument? (hd : ofDocument? d = some f) :
    listOfDocument? d = some [f] := by
  cases d with
  | object members =>
    rw [ofDocument?] at hd
    obtain rfl := Option.some.inj hd
    rw [listOfDocument?]
  | _ => simp [ofDocument?] at hd

end Filter

/-- Other words are read as filters that are alike. -/
lemma Document.Restates.alike {d d' : Document} (h : d.Restates d') {g : Filter}
    (hg : Filter.ofDocument? d' = some g) :
    ∃ f, Filter.ofDocument? d = some f ∧ f.Alike g := by
  cases h with
  | single k =>
    have hlist : Filter.listOfItems [d'] = [g] := by simp only [Filter.listOfItems, hg]
    exact ⟨_, Filter.ofDocument?_connective k [d'], hlist ▸ Filter.alike_singleton k g⟩
  | bare k =>
    exact ⟨_, Filter.ofDocument?_key (Filter.listOfDocument?_of_ofDocument? hg),
      Filter.alike_singleton k g⟩
  | denials =>
    exact ⟨_, Filter.ofDocument?_denial (Filter.ofDocument?_denial hg),
      Filter.alike_denial_denial g⟩
  | pieces k ds es =>
    rw [Filter.ofDocument?_connective, Filter.listOfItems_append] at hg
    obtain rfl := Option.some.inj hg
    have hpieces : Filter.listOfItems [k.document ds, k.document es] =
        [k.filter (Filter.listOfItems ds), k.filter (Filter.listOfItems es)] := by
      simp only [Filter.listOfItems, Filter.ofDocument?_connective]
    exact ⟨_, Filter.ofDocument?_connective k _, hpieces ▸ Filter.alike_append k _ _⟩

/-- **Other words compile to the same.**  A document that restates a filter is read as a filter too;
and if both keep the limits, they compile to the same projections and the same predicate. -/
theorem Document.Restates.compiles_to_same {d d' : Document} (h : d.Restates d') {g : Filter}
    (hg : Filter.ofDocument? d' = some g) :
    ∃ f, Filter.ofDocument? d = some f ∧
      ∀ (c : Compiler) (n : String) (e : Entity), c.catalog.entity? n = some e →
        c.settings.limits.error? f = none → c.settings.limits.error? g = none →
        ∃ compiled, c.compile f n = .ok compiled ∧ c.compile g n = .ok compiled := by
  obtain ⟨f, hf, halike⟩ := h.alike hg
  exact ⟨f, hf, fun c n e he => halike.compile_eq he⟩

namespace Shop

/-- What is asked for by name. -/
def lamps : Document := .object [("name", .object [("eq", .text "Lamp")])]

/-- What is asked for by the number of reviews. -/
def discussed : Document := .object [("reviews_count", .object [("gte", .int 1)])]

def lampsFilter : Filter := .node [("name", .field "name" (leaf "eq" (.text "Lamp")))]

def discussedFilter : Filter :=
  .node [("reviews_count", .count "reviews" (leaf "gte" (.int 1)))]

lemma ofDocument?_lamps : Filter.ofDocument? lamps = some lampsFilter := by
  have hkey : FilterKey.ofName "name" = .field "name" := by decide
  rw [lamps, Filter.ofDocument?, FilterEntry.ofMembers, hkey, FilterEntry.ofDocument?,
    FilterEntry.ofMembers]
  rfl

lemma ofDocument?_discussed : Filter.ofDocument? discussed = some discussedFilter := by
  have hkey : FilterKey.ofName "reviews_count" = .count "reviews" := by decide
  rw [discussed, Filter.ofDocument?, FilterEntry.ofMembers, hkey, FilterEntry.ofDocument?,
    FilterEntry.ofMembers]
  rfl

end Shop

/-- Alternatives in two pieces, one of which counts rows. -/
theorem Document.Restates.compiles_to_same_lamps :
    let k := Connective.any
    let d := k.document [k.document [Shop.lamps], k.document [Shop.discussed]]
    let d' := k.document ([Shop.lamps] ++ [Shop.discussed])
    d.Restates d' ∧ ∃ f g compiled, Filter.ofDocument? d = some f ∧
      Filter.ofDocument? d' = some g ∧ Shop.compiler.compile f "Product" = .ok compiled ∧
      Shop.compiler.compile g "Product" = .ok compiled ∧ ¬compiled.isEmpty := by
  intro k d d'
  have hrestates : d.Restates d' := .pieces k [Shop.lamps] [Shop.discussed]
  have hg : Filter.ofDocument? d' =
      some (k.filter [Shop.lampsFilter, Shop.discussedFilter]) := by
    rw [Filter.ofDocument?_connective, Filter.listOfItems_eq_filterMap]
    simp only [List.cons_append, List.nil_append, List.filterMap_cons, Shop.ofDocument?_lamps,
      Shop.ofDocument?_discussed, List.filterMap_nil]
  obtain ⟨f, hf, hcompile⟩ := hrestates.compiles_to_same hg
  have hfilter :
      f = k.filter [k.filter [Shop.lampsFilter], k.filter [Shop.discussedFilter]] := by
    rw [Filter.ofDocument?_connective, Filter.listOfItems_eq_filterMap] at hf
    simp only [List.filterMap_cons, Filter.ofDocument?_connective,
      Filter.listOfItems_eq_filterMap, Shop.ofDocument?_lamps, Shop.ofDocument?_discussed,
      List.filterMap_nil] at hf
    exact (Option.some.inj hf).symm
  obtain ⟨compiled, hleft, hright⟩ := hcompile Shop.compiler "Product" Shop.product rfl
    (by rw [hfilter]; rfl) rfl
  refine ⟨hrestates, f, _, compiled, hf, hg, hleft, hright, ?_⟩
  obtain ⟨e, he, -, rfl⟩ := Compiler.compile_eq_ok_iff.mp hright
  obtain rfl : e = Shop.product := (Option.some.inj he).symm
  decide

end EntityFilter
