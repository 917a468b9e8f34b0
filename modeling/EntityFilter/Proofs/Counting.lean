import EntityFilter.Proofs.Connectives
import EntityFilter.Proofs.FilterKeys
import EntityFilter.Proofs.NearestDoubles
import EntityFilter.Proofs.Requests
import EntityFilter.Proofs.RowPaths
import EntityFilter.Row.Annotation

/-!
# Counting and quantifying

A filter can ask for related rows in several ways: by a quantifier, by a bound on their number, by a
bound on the number of those that satisfy a condition, by an aggregate, by an existence test.  A
quantifier becomes a predicate on the related rows; a number is computed and stored in the row
first, and the bound is a predicate on what is stored.

The ways agree (`Compiler.quantifiers_count`): there is a row that satisfies a filter if the number
of those that do is positive, there is none if it is zero, and all do if it is the number of all.
One thing must be kept in mind when a relation is named: `x_cond_agg` is an aggregate of the rows of
`x` under a condition, so there is no way to write an aggregate of a relation `x_cond`, and a name
without characters leaves nothing in front of an ending
(`Compiler.quantifiers_count_not_always`).
-/

namespace EntityFilter

/-! ## Filters written on relations -/

namespace Document

/-- A bound on a number. -/
def bound (op : CompareOp) (n : Int) : Document := object [(op.name, int n)]

/-- The related rows of a relation satisfy a filter, as the quantifier says. -/
def quantifying (name : String) (quantifier : Quantifier) (d : Document) : Document :=
  object [(name ++ quantifier.ending, d)]

/-- The number of related rows keeps a bound. -/
def counting (name : String) (op : CompareOp) (n : Int) : Document :=
  object [(name ++ "_count", bound op n)]

/-- The number of related rows keeps a bound, as an aggregate. -/
def aggregating (name : String) (op : CompareOp) (n : Int) : Document :=
  object [(name ++ "_agg", object [("count", bound op n)])]

/-- The number of related rows that satisfy a filter keeps a bound. -/
def countingWhere (name : String) (op : CompareOp) (n : Int) (d : Document) : Document :=
  object [(name ++ "_cond_agg", object [("count", bound op n), ("condition", d)])]

/-- There are related rows. -/
def existing (name : String) : Document := object [("_exists", object [("relation", text name)])]

end Document

/-! ## What a written filter does to a row -/

namespace Compiler

/-- The row with the projections of the filter that a document writes. -/
def annotated (c : Compiler) (e : Entity) (d row : Document) : Document :=
  match Filter.ofDocument? d with
  | some f => row.annotate (c.projections f e)
  | none => row

/-- Whether the filter that a document writes keeps a row. -/
def keeps (c : Compiler) (e : Entity) (d row : Document) : Bool :=
  match Filter.ofDocument? d with
  | some f =>
    (c.predicate? f e (c.projections f e)).all
      (·.holdsOf (row.annotate (c.projections f e)))
  | none => false

variable {c : Compiler} {e : Entity} {d row : Document} {f : Filter}

lemma annotated_eq (hd : Filter.ofDocument? d = some f) :
    c.annotated e d row = row.annotate (c.projections f e) := by
  unfold annotated
  rw [hd]

lemma keeps_eq (hd : Filter.ofDocument? d = some f) :
    c.keeps e d row = (c.predicate? f e (c.projections f e)).all
      (·.holdsOf (row.annotate (c.projections f e))) := by
  unfold keeps
  rw [hd]

end Compiler

/-! ## Numbers in the order of the doubles -/

namespace Binary64

lemma keyOfInt_one_le_iff (n : Nat) : keyOfInt 1 ≤ keyOfInt n ↔ 0 < n := by
  constructor
  · intro hle
    refine Nat.pos_of_ne_zero ?_
    rintro rfl
    exact absurd hle (by decide)
  · intro hn
    exact keyOfInt_mono (by omega)

lemma keyOfInt_pos_iff (n : Nat) : keyOfInt 0 < keyOfInt n ↔ 0 < n := by
  have hone : 0 < keyOfInt 1 := by decide
  have hzero : keyOfInt 0 = 0 := rfl
  constructor
  · intro hlt
    refine Nat.pos_of_ne_zero fun h0 => ?_
    rw [h0] at hlt
    exact absurd hlt (Int.lt_irrefl _)
  · intro hn
    rw [hzero]
    exact Int.lt_of_lt_of_le hone ((keyOfInt_one_le_iff n).mpr hn)

end Binary64

namespace CompareOp

/-- Whether a number is positive can be asked in two ways. -/
def asksPositive (op : CompareOp) (n : Int) : Prop := (op = .gte ∧ n = 1) ∨ (op = .gt ∧ n = 0)

/-- Whether a stored number keeps a bound. -/
def admits (op : CompareOp) (n k : Int) : Bool :=
  op.holds (compare (Binary64.keyOfInt k) (Binary64.keyOfInt n))

lemma isInt64_of_asksPositive {op : CompareOp} {n : Int} (h : op.asksPositive n) :
    (Document.int n).isInt64 := by
  rcases h with ⟨-, rfl⟩ | ⟨-, rfl⟩ <;> decide

lemma admits_of_asksPositive {op : CompareOp} {n : Int} (h : op.asksPositive n) (k : Nat) :
    op.admits n k = decide (0 < k) := by
  rw [Bool.eq_iff_iff, decide_eq_true_iff]
  rcases h with ⟨rfl, rfl⟩ | ⟨rfl, rfl⟩
  · rw [← Binary64.keyOfInt_one_le_iff, ← Int.compare_ne_lt]
    simp [admits, holds]
  · rw [← Binary64.keyOfInt_pos_iff, ← Int.compare_eq_gt]
    simp [admits, holds]

lemma eq_admits_zero (k : Nat) : eq.admits 0 k = decide (k = 0) := by
  rw [Bool.eq_iff_iff, decide_eq_true_iff]
  have hkey : Binary64.keyOfInt k = Binary64.keyOfInt 0 ↔ k = 0 := by
    constructor
    · intro hsame
      refine Nat.eq_zero_of_not_pos fun hk => ?_
      have hlt := (Binary64.keyOfInt_pos_iff k).mpr hk
      rw [hsame] at hlt
      exact Int.lt_irrefl _ hlt
    · rintro rfl
      rfl
  rw [← hkey, ← Int.compare_eq_eq]
  simp [admits, holds]

end CompareOp

/-! ## A bound on a stored number -/

lemma Literal.ofDocument_int {n : Int} (hn : (Document.int n).isInt64) :
    ofDocument (.int n) = .int n := by
  have hrange : Binary64.minInt64 ≤ n ∧ n ≤ Binary64.maxInt64 := by
    simpa [Document.isInt64] using hn
  rw [ofDocument, if_pos hrange]

/-- Two integers have the order of the doubles nearest to them. -/
lemma Literal.orderOf?_int {m : Int} (hm : (Document.int m).isInt64) (n : Int) :
    orderOf? (.int m) (.int n) = some (compare (Binary64.keyOfInt m) (Binary64.keyOfInt n)) := by
  rw [orderOf?, ofDocument_int hm]
  · rfl
  all_goals simp

lemma Document.isInt64_of_le {k m : Nat} (h : k ≤ m) (hm : (Document.int m).isInt64) :
    (Document.int k).isInt64 := by
  simp only [isInt64, Bool.and_eq_true, decide_eq_true_eq] at hm ⊢
  simp only [Binary64.minInt64, Binary64.maxInt64] at hm ⊢
  omega

lemma Leaf.predicate?_bound (op : CompareOp) {n : Int} (hn : (Document.int n).isInt64)
    (o : Operand) (now : Instant) :
    (Leaf.ofDocument (.bound op n)).predicate? o .int now = some (.compare o op (.int n)) := by
  have hleaf : Leaf.ofDocument (.bound op n) = ⟨.ofList [(op.name, .int n)]⟩ := by
    rw [← Literal.ofDocument_int hn]
    rfl
  rw [hleaf]
  cases op <;> rfl

lemma ProjectionSet.lookup?_insert_empty (key : ProjectionKey) (expr : ProjectionExpr) :
    (ProjectionSet.empty.insert ⟨key, expr, .root⟩).lookup? key = some ⟨0, key.name⟩ := by
  simp [insert, empty, lookup?, OrderedMap.contains, Entries.contains, OrderedMap.empty,
    OrderedMap.insert, OrderedMap.get?, OrderedMap.indexOf?, Entries.get?, Entries.insert,
    Entries.indexOf?, Projection.name]

lemma Predicate.all_holds_and?_single (p : Predicate) (row : Document) :
    (Predicate.and? [p]).all (·.holdsOf row) = p.holdsOf row := by
  cases hp : Predicate.and? [p] with
  | none =>
    have hparts : p.conjuncts = [] := by simpa using Predicate.and?_eq_none hp
    have htruth : p.conjuncts.all (·.holdsOf row) = p.holdsOf row := p.all_holds_conjuncts
    rw [hparts] at htruth
    exact htruth
  | some q =>
    have htruth : q.holdsOf row = [p].all (·.holdsOf row) := Predicate.holds_of_and? hp
    rw [Option.all_some, htruth, List.all_cons, List.all_nil, Bool.and_true]

namespace Compiler

/-- The filter that a document writes collects projections, and it is a predicate. -/
def Compiles (c : Compiler) (e : Entity) (d : Document) (set : ProjectionSet) (p : Predicate) :
    Prop :=
  ∃ f, Filter.ofDocument? d = some f ∧ c.projections f e = set ∧
    c.predicate? f e set = Predicate.and? [p]

variable {c : Compiler} {e : Entity} {d row : Document} {set : ProjectionSet} {p : Predicate}
  {key : ProjectionKey} {expr : ProjectionExpr} {op : CompareOp} {n : Int} {k : Nat}

lemma Compiles.annotated_eq (h : c.Compiles e d set p) :
    c.annotated e d row = row.annotate set := by
  obtain ⟨f, hd, rfl, -⟩ := h
  exact Compiler.annotated_eq hd

lemma Compiles.keeps_eq (h : c.Compiles e d set p) :
    c.keeps e d row = p.holdsOf (row.annotate set) := by
  obtain ⟨f, hd, rfl, hp⟩ := h
  rw [Compiler.keeps_eq hd, hp, Predicate.all_holds_and?_single]

/-- A document with one member writes a filter with one entry. -/
lemma compiles_of_entry {name : String} (entry : FilterEntry)
    (hd : FilterEntry.ofDocument? (FilterKey.ofName name) d = some entry)
    (hvalues : FilterEntry.includedValues [(name, entry)] = [])
    (hset : entry.collect c { entity := e } name .empty = set)
    (hp : entry.predicate? c set { entity := e } name = some p) :
    c.Compiles e (.object [(name, d)]) set p := by
  refine ⟨.node [(name, entry)], ?_, ?_, ?_⟩
  · rw [Filter.ofDocument?, FilterEntry.ofMembers, hd]
    simp only [FilterEntry.ofMembers]
  · exact hset
  · rw [predicate?, Filter.predicate?, hvalues, FilterEntry.predicates, hp, Scope.widen?_nil]
    rfl

/-- The number is stored under the name of its projection. -/
lemma Compiles.get?_annotated
    (h : c.Compiles e d (ProjectionSet.empty.insert ⟨key, expr, .root⟩) p) (hrow : row.isObject)
    (hk : expr.compute? row = some (.int k)) :
    (c.annotated e d row).get? key.name = some (.int k) := by
  rw [h.annotated_eq]
  show (Document.annotateRow ⟨key, expr, .root⟩ row).get? key.name = _
  cases row with
  | object members =>
    simp only [Document.annotateRow, hk]
    exact Entries.get?_insert_self _ _ _
  | _ => simp [Document.isObject] at hrow

/-- A row is kept if the stored number keeps the bound. -/
lemma Compiles.keeps_bound
    (h : c.Compiles e d (ProjectionSet.empty.insert ⟨key, expr, .root⟩)
      (.compare (.projection ⟨0, key.name⟩) op (.int n)))
    (hrow : row.isObject) (hk : expr.compute? row = some (.int k))
    (hint : (Document.int k).isInt64) :
    c.keeps e d row = op.admits n k := by
  have hstored := h.get?_annotated hrow hk
  have horder := Literal.orderOf?_int hint n
  rw [h.annotated_eq] at hstored
  rw [h.keeps_eq, Predicate.holdsOf, Predicate.holds]
  simp only [Operand.value?, Operand.find?, RowContext.ofRow, hstored, Option.bind_some, horder,
    Option.any_some, CompareOp.admits]

/-! ## The ways to ask for related rows -/

/-- The number of related rows as an aggregate, given the fingerprint of the condition. -/
def countKey (name : String) : Option UInt32 → ProjectionKey
  | some fingerprint => .conditionalAggregate (.single name) none .count fingerprint
  | none => .aggregate (.single name) none .count

/-- Every feature is on, and a filter may stand behind a relation to many rows of an entity. -/
structure Relates (c : Compiler) (e : Entity) (name : String) (target : Entity) : Prop where
  features : c.settings.features = .all
  depth : 1 < c.settings.schema.maxRelationDepth
  toMany : ∃ r, c.catalog.resolve? e name = some (r, target) ∧ r.isToMany

namespace Relates

variable {name : String} {target : Entity} (hr : c.Relates e name target)
include hr

lemma canNest : c.canNest { entity := e } := by
  have hdepth : ({ entity := e } : Scope).depth = 0 := rfl
  unfold Compiler.canNest
  rw [hdepth]
  exact decide_eq_true hr.depth

lemma toMany?_eq : c.toMany? { entity := e } name = some target :=
  toMany?_eq_some.mpr ⟨canFollow_of_canNest hr.canNest, hr.toMany⟩

lemma rowsScope?_eq :
    c.rowsScope? { entity := e } name = some (({ entity := e } : Scope).enter name target) := by
  obtain ⟨r, hresolve, hmany⟩ := hr.toMany
  exact rowsScope?_eq_some.mpr ⟨hr.canNest, r, target, hresolve, hmany, rfl⟩

/-- The rows of a quantifier are tested without projections. -/
lemma compiles_quantifying (hname : name ≠ "") (quantifier : Quantifier) {f : Filter}
    (hd : Filter.ofDocument? d = some f)
    (hplain : f.collect c (({ entity := e } : Scope).enter name target) .empty = .empty) :
    c.Compiles e (.quantifying name quantifier d) .empty
      (quantifier.predicate (.single name) target.name
        (f.predicate? c .empty (({ entity := e } : Scope).enter name target))) := by
  refine compiles_of_entry (.quantified name quantifier f) ?_ rfl ?_ ?_
  · rw [FilterKey.ofName_quantified hname, FilterEntry.ofDocument?, hd]
    rfl
  · rw [FilterEntry.collect, hr.rowsScope?_eq]
    exact hplain
  · rw [FilterEntry.predicate?, hr.rowsScope?_eq]
    rfl

lemma compiles_existing :
    c.Compiles e (.existing name) .empty (.existence (.single name) target.name none) := by
  obtain ⟨r, hresolve, -⟩ := hr.toMany
  have htarget : c.existenceTarget? { entity := e } name false = some target := by
    simp [existenceTarget?, hr.features, Features.all, canFollow_of_canNest hr.canNest, relation?,
      hresolve]
  refine compiles_of_entry (.existence [(⟨name, true⟩, none)]) ?_ rfl ?_ ?_
  · have hkey : FilterKey.ofName "_exists" = .existence := by decide
    have hmember : Filter.ofMember? "condition" [("relation", Document.text name)] = some none := by
      simp [Filter.ofMember?]
    rw [hkey, FilterEntry.ofDocument?, ExistenceTest.listOfDocument, ExistenceTest.ofMembers?,
      hmember]
    rfl
  · rw [FilterEntry.collect, ExistenceTest.collectAll, ExistenceTest.collectAll]
  · rw [FilterEntry.predicate?, ExistenceTest.predicates, htarget, ExistenceTest.predicates]
    rfl

/-- The bound of a count is a bound on what is stored. -/
lemma compiles_counting (hname : name ≠ "") (op : CompareOp)
    (hfield : ¬e.hasField (name ++ "_count"))
    (hn : (Document.int n).isInt64) :
    c.Compiles e (.counting name op n)
      (ProjectionSet.empty.insert ⟨.count (.single name), .count (.single name), .root⟩)
      (.compare (.projection ⟨0, (ProjectionKey.count (.single name)).name⟩) op (.int n)) := by
  have hplan : c.planCount? { entity := e } name = some ⟨.count (.single name), .int⟩ := by
    rw [planCount?, hr.toMany?_eq]
    rfl
  refine compiles_of_entry (.count name (.ofDocument (.bound op n))) ?_ rfl ?_ ?_
  · rw [FilterKey.ofName_count hname, FilterEntry.ofDocument?]
  · rw [FilterEntry.collect]
    · simp only [collectOwn, hfield, hplan]
      rfl
    all_goals simp
  · rw [FilterEntry.predicate?, if_neg hfield, hplan, Option.bind_some, projected?,
      ProjectionSet.lookup?_insert_empty, Option.bind_some, Leaf.predicate?_bound op hn]

lemma planAggregate?_count (leaf : Leaf) (fingerprint : Option UInt32) :
    c.planAggregate? { entity := e } ⟨name, none, [(.count, leaf)]⟩ fingerprint .count =
      some ⟨countKey name fingerprint, .int⟩ := by
  unfold planAggregate?
  cases fingerprint <;>
    simp [hr.toMany?_eq, hr.features, Features.all, hr.canNest, AggregateFunction.allowsNoField,
      aggregateKind, AggregateFunction.isCount, countKey] <;> rfl

/-- The bound of an aggregate is a bound on what is stored. -/
lemma compiles_aggregate {member : String} (condition : Option (Filter × UInt32))
    (hread : FilterEntry.ofDocument? (FilterKey.ofName member) d =
      some (.aggregate ⟨name, none, [(.count, .ofDocument (.bound op n))]⟩ condition))
    (hn : (Document.int n).isInt64) :
    c.Compiles e (.object [(member, d)])
      (ProjectionSet.empty.insert ⟨countKey name (condition.map Prod.snd),
        .aggregate .count (.single name) none (condition.bind fun (f, _) =>
          f.predicate? c .empty (({ entity := e } : Scope).enter name target)), .root⟩)
      (.compare (.projection ⟨0, (countKey name (condition.map Prod.snd)).name⟩) op
        (.int n)) := by
  have hplan := hr.planAggregate?_count (.ofDocument (.bound op n)) (condition.map Prod.snd)
  have hfilter : ∀ f, c.conditionPredicate? { entity := e } name f =
      f.predicate? c .empty (({ entity := e } : Scope).enter name target) := by
    intro f
    rw [conditionPredicate?, hr.toMany?_eq, Option.bind_some]
  refine compiles_of_entry _ hread rfl ?_ ?_
  · rw [FilterEntry.collect]
    · simp only [collectOwn, collectAggregates, List.foldl_cons, List.foldl_nil, hplan, hfilter]
      rfl
    all_goals simp
  · rw [FilterEntry.predicate?]
    simp only [List.filterMap_cons, List.filterMap_nil, hplan, Option.bind_some, projected?,
      ProjectionSet.lookup?_insert_empty, Leaf.predicate?_bound op hn]
    rfl

lemma compiles_aggregating (hname : name ≠ "") (op : CompareOp)
    (hcond : Text.withoutEnding? name "_cond" = none)
    (hn : (Document.int n).isInt64) :
    c.Compiles e (.aggregating name op n)
      (ProjectionSet.empty.insert
        ⟨countKey name none, .aggregate .count (.single name) none none, .root⟩)
      (.compare (.projection ⟨0, (countKey name none).name⟩) op (.int n)) := by
  refine hr.compiles_aggregate none ?_ hn
  rw [FilterKey.ofName_aggregate hname hcond, FilterEntry.ofDocument?]
  rfl

lemma compiles_countingWhere (hname : name ≠ "") (op : CompareOp) {f : Filter}
    (hd : Filter.ofDocument? d = some f)
    (hn : (Document.int n).isInt64) :
    c.Compiles e (.countingWhere name op n d)
      (ProjectionSet.empty.insert ⟨countKey name (some d.fingerprint),
        .aggregate .count (.single name) none
          (f.predicate? c .empty (({ entity := e } : Scope).enter name target)), .root⟩)
      (.compare (.projection ⟨0, (countKey name (some d.fingerprint)).name⟩) op (.int n)) := by
  refine hr.compiles_aggregate (some (f, d.fingerprint)) ?_ hn
  have hmember : Filter.ofMember? "condition" [("count", .bound op n), ("condition", d)] =
      some (some f) := by
    simp only [Filter.ofMember?, String.reduceEq, if_false, if_true]
    cases d <;> simp_all [Filter.ofDocument?, Filter.optionalOfDocument?]
  rw [FilterKey.ofName_conditionalAggregate hname, FilterEntry.ofDocument?, hmember]
  rfl

end Relates

end Compiler

/-! ## Numbers of related rows -/

lemma ProjectionExpr.compute?_count (row : Document) (name : String) :
    (count (.single name)).compute? row = some (.int (row.rowsAt name).length) := by
  rw [compute?, ← row.related_single name]
  rfl

lemma ProjectionExpr.compute?_countWhere (row : Document) (name : String) (p : Option Predicate) :
    (aggregate .count (.single name) none p).compute? row =
      some (.int ((row.rowsAt name).countP fun x => p.all (·.holdsOf x))) := by
  have hrows : row.related (RelationPath.single name).segments = row.rowsAt name :=
    row.related_single name
  rw [compute?, hrows, AggregateFunction.compute]
  simp [column, List.countP_eq_length_filter, Document.isNull]

namespace Predicate

variable {row : Document} {name entity : String}

lemma holdsOf_existence (p : Option Predicate) :
    (existence (.single name) entity p).holdsOf row =
      decide (0 < (row.rowsAt name).countP fun x => p.all (·.holdsOf x)) := by
  have hrows : row.related (RelationPath.single name).segments = row.rowsAt name :=
    row.related_single name
  rw [Bool.eq_iff_iff, decide_eq_true_iff, List.countP_pos_iff]
  cases p <;> simp [holdsOf, holds, RowContext.ofRow, hrows, List.eq_nil_iff_forall_not_mem]

lemma holdsOf_existence_none :
    (existence (.single name) entity none).holdsOf row = decide (0 < (row.rowsAt name).length) := by
  rw [holdsOf_existence]
  simp

lemma holdsOf_none (p : Predicate) :
    (Quantifier.none.predicate (.single name) entity (some p)).holdsOf row =
      decide ((row.rowsAt name).countP p.holdsOf = 0) := by
  have hsome : (existence (.single name) entity (some p)).holdsOf row =
      decide (0 < (row.rowsAt name).countP p.holdsOf) := holdsOf_existence (some p)
  have hnot : (Quantifier.none.predicate (.single name) entity (some p)).holdsOf row =
      !(existence (.single name) entity (some p)).holdsOf row :=
    holds_not (existence (.single name) entity (some p))
  rw [hnot, hsome, Bool.eq_iff_iff]
  simp

/-- Every row satisfies a predicate if there are rows and the number of those that do is the number
of all. -/
lemma holdsOf_every (p : Predicate) :
    (Quantifier.every.predicate (.single name) entity (some p)).holdsOf row =
      decide (0 < (row.rowsAt name).length ∧
        (row.rowsAt name).countP p.holdsOf = (row.rowsAt name).length) := by
  have hsplit : (Quantifier.every.predicate (.single name) entity (some p)).holdsOf row =
      ((existence (.single name) entity none).holdsOf row &&
        (Quantifier.none.predicate (.single name) entity (some p.not)).holdsOf row) :=
    holds_andThen _ _
  have hfails : p.not.holdsOf = fun x => !p.holdsOf x := funext fun x => holds_not p
  have hall : (row.rowsAt name).countP p.not.holdsOf = 0 ↔
      (row.rowsAt name).countP p.holdsOf = (row.rowsAt name).length := by
    rw [hfails, List.countP_eq_zero, List.countP_eq_length]
    simp
  rw [hsplit, holdsOf_existence_none, holdsOf_none, Bool.eq_iff_iff]
  simp [hall]

end Predicate

/-! ## The ways agree -/

namespace Compiler

variable {c : Compiler} {e target : Entity} {name : String} {d row : Document} {f : Filter}
  {p : Predicate} {op : CompareOp} {n : Int}

/-- The number of related rows, as it is stored. -/
def storedCount (c : Compiler) (e : Entity) (name : String) (row : Document) : Option Document :=
  (c.annotated e (.counting name .gte 1) row).get? (ProjectionKey.count (.single name)).name

/-- The number of related rows that satisfy a filter, as it is stored. -/
def storedCountWhere (c : Compiler) (e : Entity) (name : String) (d row : Document) :
    Option Document :=
  (c.annotated e (.countingWhere name .gte 1 d) row).get?
    (ProjectionKey.conditionalAggregate (.single name) none .count d.fingerprint).name

namespace Relates

variable (hr : c.Relates e name target)
include hr

lemma keeps_existing : c.keeps e (.existing name) row = decide (0 < (row.rowsAt name).length) := by
  rw [hr.compiles_existing.keeps_eq, ← Predicate.holdsOf_existence_none]
  rfl

variable (hname : name ≠ "")
include hname

/-- A filter without constraints asks whether there are rows. -/
lemma keeps_quantifying_empty {quantifier : Quantifier} (hq : quantifier ≠ .none) :
    c.keeps e (.quantifying name quantifier (.object [])) row =
      decide (0 < (row.rowsAt name).length) := by
  have hd : Filter.ofDocument? (.object []) = some (.node []) := by
    rw [Filter.ofDocument?, FilterEntry.ofMembers]
  have hplain : (Filter.node []).collect c (({ entity := e } : Scope).enter name target) .empty =
      .empty := rfl
  rw [(hr.compiles_quantifying hname quantifier hd hplain).keeps_eq,
    ← Predicate.holdsOf_existence_none]
  cases quantifier with
  | some => rfl
  | every => rfl
  | none => exact absurd rfl hq

lemma storedCount_eq (hfield : ¬e.hasField (name ++ "_count")) (hrow : row.isObject) :
    c.storedCount e name row = some (.int (row.rowsAt name).length) :=
  (hr.compiles_counting hname .gte hfield (by decide)).get?_annotated hrow
    (ProjectionExpr.compute?_count row name)

lemma storedCountWhere_eq (hd : Filter.ofDocument? d = some f)
    (hp : f.predicate? c .empty (({ entity := e } : Scope).enter name target) = some p)
    (hrow : row.isObject) :
    c.storedCountWhere e name d row = some (.int ((row.rowsAt name).countP p.holdsOf : Nat)) := by
  have hcompiles := hr.compiles_countingWhere (n := 1) hname .gte hd (by decide)
  rw [hp] at hcompiles
  exact hcompiles.get?_annotated hrow (ProjectionExpr.compute?_countWhere row name (some p))

variable (hrow : row.isObject) (hlength : (Document.int (row.rowsAt name).length).isInt64)
include hrow hlength

lemma keeps_counting (hop : op.asksPositive n) (hfield : ¬e.hasField (name ++ "_count")) :
    c.keeps e (.counting name op n) row = decide (0 < (row.rowsAt name).length) := by
  have hn := CompareOp.isInt64_of_asksPositive hop
  have hcompiles := hr.compiles_counting hname op hfield hn
  rw [hcompiles.keeps_bound hrow (ProjectionExpr.compute?_count row name) hlength]
  exact CompareOp.admits_of_asksPositive hop _

lemma keeps_aggregating (hop : op.asksPositive n)
    (hcond : Text.withoutEnding? name "_cond" = none) :
    c.keeps e (.aggregating name op n) row = decide (0 < (row.rowsAt name).length) := by
  have hn := CompareOp.isInt64_of_asksPositive hop
  have hcompiles := hr.compiles_aggregating hname op hcond hn
  have hall : (row.rowsAt name).countP (fun x => (none : Option Predicate).all (·.holdsOf x)) =
      (row.rowsAt name).length := by simp
  have hvalue := ProjectionExpr.compute?_countWhere row name none
  rw [hall] at hvalue
  rw [hcompiles.keeps_bound hrow hvalue hlength]
  exact CompareOp.admits_of_asksPositive hop _

lemma keeps_countingWhere (hn : (Document.int n).isInt64) (hd : Filter.ofDocument? d = some f)
    (hp : f.predicate? c .empty (({ entity := e } : Scope).enter name target) = some p) :
    c.keeps e (.countingWhere name op n d) row =
      op.admits n ((row.rowsAt name).countP p.holdsOf : Nat) := by
  have hcompiles := hr.compiles_countingWhere hname op hd hn
  rw [hp] at hcompiles
  exact hcompiles.keeps_bound hrow (ProjectionExpr.compute?_countWhere row name (some p))
    (Document.isInt64_of_le List.countP_le_length hlength)

end Relates

/-- **Quantifiers, counts and conditional aggregates agree.**  The filter in question plans no
projection and constrains the rows behind a relation of the entity. -/
theorem quantifiers_count (hr : c.Relates e name target) (hname : name ≠ "")
    (hfield : ¬e.hasField (name ++ "_count")) (hd : Filter.ofDocument? d = some f)
    (hplain : f.collect c (({ entity := e } : Scope).enter name target) .empty = .empty)
    (hp : (f.predicate? c .empty (({ entity := e } : Scope).enter name target)).isSome)
    (hrow : row.isObject) (hlength : (Document.int (row.rowsAt name).length).isInt64) :
    c.keeps e (.quantifying name .some d) row = c.keeps e (.countingWhere name .gte 1 d) row ∧
    c.keeps e (.quantifying name .none d) row = c.keeps e (.countingWhere name .eq 0 d) row ∧
    (∃ k m : Nat, c.storedCountWhere e name d row = some (.int k) ∧
      c.storedCount e name row = some (.int m) ∧
      (c.keeps e (.quantifying name .every d) row ↔
        c.keeps e (.counting name .gte 1) row ∧ k = m)) ∧
    c.keeps e (.quantifying name .some (.object [])) row = !(row.rowsAt name).isEmpty ∧
    c.keeps e (.quantifying name .every (.object [])) row = !(row.rowsAt name).isEmpty ∧
    c.keeps e (.counting name .gt 0) row = !(row.rowsAt name).isEmpty ∧
    (Text.withoutEnding? name "_cond" = none →
      c.keeps e (.aggregating name .gt 0) row = !(row.rowsAt name).isEmpty) ∧
    c.keeps e (.existing name) row = !(row.rowsAt name).isEmpty := by
  obtain ⟨p, hp⟩ := Option.isSome_iff_exists.mp hp
  have hthere : (!(row.rowsAt name).isEmpty) = decide (0 < (row.rowsAt name).length) := by
    cases row.rowsAt name <;> simp
  have hgte : CompareOp.asksPositive .gte 1 := .inl ⟨rfl, rfl⟩
  have hgt : CompareOp.asksPositive .gt 0 := .inr ⟨rfl, rfl⟩
  rw [hthere]
  refine ⟨?_, ?_, ⟨_, _, hr.storedCountWhere_eq hname hd hp hrow,
      hr.storedCount_eq hname hfield hrow, ?_⟩,
    hr.keeps_quantifying_empty hname (by decide), hr.keeps_quantifying_empty hname (by decide),
    hr.keeps_counting hname hrow hlength hgt hfield,
    fun hcond => hr.keeps_aggregating hname hrow hlength hgt hcond, hr.keeps_existing⟩
  · rw [(hr.compiles_quantifying hname .some hd hplain).keeps_eq,
      hr.keeps_countingWhere hname hrow hlength (by decide) hd hp,
      CompareOp.admits_of_asksPositive hgte, hp]
    exact Predicate.holdsOf_existence (some p)
  · rw [(hr.compiles_quantifying hname .none hd hplain).keeps_eq,
      hr.keeps_countingWhere hname hrow hlength (by decide) hd hp, CompareOp.eq_admits_zero, hp]
    exact Predicate.holdsOf_none p
  · rw [(hr.compiles_quantifying hname .every hd hplain).keeps_eq,
      hr.keeps_counting hname hrow hlength hgte hfield, hp]
    show (Quantifier.every.predicate (.single name) target.name (some p)).holdsOf row = true ↔ _
    rw [Predicate.holdsOf_every, decide_eq_true_iff, decide_eq_true_iff]

end Compiler

/-! ## Reviews of a product, and a house -/

namespace Shop

/-- What reviews that praise are asked for. -/
def praise : Document := .object [("text", .object [("eq", .text "good")])]

/-- A product with two reviews; one of them praises it. -/
def reviewedRow : Document :=
  .object [("id", .int 1), ("reviews", .array [
    .object [("id", .int 2), ("text", .text "good")],
    .object [("id", .int 3), ("text", .text "bad")]])]

end Shop

theorem Compiler.quantifiers_count_shop :
    Shop.compiler.keeps Shop.product (.quantifying "reviews" .some Shop.praise) Shop.reviewedRow =
      Shop.compiler.keeps Shop.product (.countingWhere "reviews" .gte 1 Shop.praise)
        Shop.reviewedRow ∧
    Shop.compiler.storedCountWhere Shop.product "reviews" Shop.praise Shop.reviewedRow =
      some (.int 1) ∧
    Shop.compiler.storedCount Shop.product "reviews" Shop.reviewedRow = some (.int 2) ∧
    Shop.compiler.keeps Shop.product (.quantifying "reviews" .every Shop.praise)
      Shop.reviewedRow = false ∧
    Shop.compiler.keeps Shop.product (.aggregating "reviews" .gt 0) Shop.reviewedRow = true := by
  have hr : Shop.compiler.Relates Shop.product "reviews" Shop.review :=
    ⟨rfl, by decide, ⟨_, rfl, rfl⟩⟩
  have hfield : ¬Shop.product.hasField ("reviews" ++ "_count") := by decide
  have hrow : Shop.reviewedRow.isObject := rfl
  have hd : Filter.ofDocument? Shop.praise =
      some (.node [("text", .field "text" (Shop.leaf "eq" (.text "good")))]) := by
    have hkey : FilterKey.ofName "text" = .field "text" := by decide
    rw [Shop.praise, Filter.ofDocument?, FilterEntry.ofMembers, hkey, FilterEntry.ofDocument?,
      FilterEntry.ofMembers]
    rfl
  obtain ⟨hsome, -, ⟨k, m, hk, hm, hevery⟩, -, -, -, hagg, -⟩ :=
    quantifiers_count hr (by decide) hfield hd rfl rfl hrow rfl
  have hk1 : Shop.compiler.storedCountWhere Shop.product "reviews" Shop.praise Shop.reviewedRow =
      some (.int 1) := hr.storedCountWhere_eq (by decide) hd rfl rfl
  have hm2 : Shop.compiler.storedCount Shop.product "reviews" Shop.reviewedRow = some (.int 2) :=
    hr.storedCount_eq (by decide) hfield rfl
  have hne : k ≠ m := by
    intro hkm
    rw [hk] at hk1
    rw [hm, ← hkm] at hm2
    cases hk1.symm.trans hm2
  refine ⟨hsome, hk1, hm2, ?_, hagg (by decide)⟩
  exact Bool.eq_false_iff.mpr fun hkeeps => hne (hevery.mp hkeeps).2

namespace House

/-- A house has units of air conditioning, and others under a name without characters. -/
def house : Entity :=
  ((Entity.withField { name := "House" } { name := "id", kind := .id }).withRelation
    { name := "air_cond", cardinality := .many, target := "Unit" }).withRelation
      { name := "", cardinality := .many, target := "Unit" }

def unit : Entity := Entity.withField { name := "Unit" } { name := "id", kind := .id }

def compiler : Compiler :=
  { catalog := (Catalog.withEntity {} house).withEntity unit
    settings := { features := .all }
    now := ⟨0, 0⟩ }

/-- A house without any unit. -/
def empty : Document := .object [("air_cond", .array []), ("", .array [])]

end House

/-- The key `air_cond_agg` asks for a relation `air`, which is not there, so nothing is constrained;
and a key that is nothing but an ending is the name of a field. -/
theorem Compiler.quantifiers_count_not_always :
    House.compiler.Relates House.house "air_cond" House.unit ∧
    ¬House.house.hasField ("air_cond" ++ "_count") ∧
    (House.compiler.keeps House.house (.counting "air_cond" .gt 0) House.empty = false ∧
      House.compiler.keeps House.house (.aggregating "air_cond" .gt 0) House.empty = true) ∧
    House.compiler.Relates House.house "" House.unit ∧
    ¬House.house.hasField ("" ++ "_count") ∧
    (House.compiler.keeps House.house (.existing "") House.empty = false ∧
      House.compiler.keeps House.house (.quantifying "" .some (.object [])) House.empty = true) := by
  have hr : House.compiler.Relates House.house "air_cond" House.unit :=
    ⟨rfl, by decide, ⟨_, rfl, rfl⟩⟩
  have hfield : ¬House.house.hasField ("air_cond" ++ "_count") := by decide
  have hgt : CompareOp.asksPositive .gt 0 := .inr ⟨rfl, rfl⟩
  have hcount : House.compiler.keeps House.house (.counting "air_cond" .gt 0) House.empty =
      false := hr.keeps_counting (by decide) rfl rfl hgt hfield
  have hempty : House.compiler.Relates House.house "" House.unit :=
    ⟨rfl, by decide, ⟨_, rfl, rfl⟩⟩
  refine ⟨hr, hfield, ⟨hcount, ?_⟩, hempty, by decide, hempty.keeps_existing, ?_⟩
  · have hkey : FilterKey.ofName ("air_cond" ++ "_agg") = .conditionalAggregate "air" := by decide
    have hread : Filter.ofDocument? (.aggregating "air_cond" .gt 0) = some (.node []) := by
      rw [Document.aggregating, Filter.ofDocument?, FilterEntry.ofMembers, hkey,
        FilterEntry.ofDocument?, Filter.ofMember?, Filter.ofMember?, FilterEntry.ofMembers]
      rfl
    rw [keeps_eq hread]
    rfl
  · have hkey : FilterKey.ofName ("" ++ Quantifier.some.ending) = .field "_some" := by decide
    have hread : Filter.ofDocument? (.quantifying "" .some (.object [])) =
        some (.node [("_some", .field "_some" ⟨.ofList []⟩)]) := by
      rw [Document.quantifying, Filter.ofDocument?, FilterEntry.ofMembers, hkey,
        FilterEntry.ofDocument?, FilterEntry.ofMembers]
      rfl
    rw [keeps_eq hread]
    rfl

end EntityFilter
