import EntityFilter.Proofs.NodeAddresses
import Mathlib.Algebra.Order.BigOperators.Group.List
import Mathlib.Data.List.Forall2
import Mathlib.Logic.Relation

/-!
# Limits and smaller filters

A filter keeps its limits exactly if its nodes do: each regular expression in a leaf of a node is
allowed, no address is too long, and the nodes do not have too many keys in all (`Limits.Keeps`).
Otherwise the error tells the first limit that is exceeded, a regular expression before the depth
and the depth before the number of clauses, with the depth or the number as it is
(`Limits.FirstViolation`).

What is left of an accepted filter is accepted.  One step takes away one element of one list,
wherever it stands: an entry, a filter, a test, an operator, an item of an operand
(`Filter.Deletes`).  Such a step adds no regular expression, no level and no clause
(`Filter.Deletes.smaller`), and neither do many of them.  The same is true of the filter at an
address.  With larger limits, everything that was accepted is accepted (`Limits.check_exact`).
-/

namespace EntityFilter

/-! ## Taking something away -/

/-- One element of a list is missing. -/
inductive OneLess {α : Type} : List α → List α → Prop
  | intro (before : List α) (x : α) (after : List α) :
    OneLess (before ++ x :: after) (before ++ after)

/-- One element of a list is missing, or one element has changed. -/
inductive OneLessOrChanged {α : Type} (R : α → α → Prop) : List α → List α → Prop
  | less {xs ys : List α} (h : OneLess xs ys) : OneLessOrChanged R xs ys
  | changed (before : List α) {x y : α} (after : List α) (h : R x y) :
    OneLessOrChanged R (before ++ x :: after) (before ++ y :: after)

/-- An item or a member is taken away, at any level. -/
inductive Document.Deletes : Document → Document → Prop
  | item {ds ds' : List Document} (h : OneLess ds ds') : Deletes (array ds) (array ds')
  | member {ms ms' : List (String × Document)} (h : OneLess ms ms') :
    Deletes (object ms) (object ms')
  | insideItem (before : List Document) {d d' : Document} (after : List Document)
    (h : Deletes d d') : Deletes (array (before ++ d :: after)) (array (before ++ d' :: after))
  | insideMember (before : List (String × Document)) (key : String) {d d' : Document}
    (after : List (String × Document)) (h : Deletes d d') :
    Deletes (object (before ++ (key, d) :: after)) (object (before ++ (key, d') :: after))

/-- An item is taken away, at any level. -/
inductive Literal.Deletes : Literal → Literal → Prop
  | item {vs vs' : List Literal} (h : OneLess vs vs') : Deletes (list vs) (list vs')
  | insideItem (before : List Literal) {v v' : Literal} (after : List Literal) (h : Deletes v v') :
    Deletes (list (before ++ v :: after)) (list (before ++ v' :: after))
  | document {d d' : Document} (h : d.Deletes d') : Deletes (document d) (document d')

/-- An operator is taken away, or something inside of an operand. -/
def Leaf.Deletes (l l' : Leaf) : Prop :=
  OneLessOrChanged (fun p q => q.1 = p.1 ∧ p.2.Deletes q.2) l.operators.entries l'.operators.entries

/-- A field of a ranking is taken away, or something in its constraint. -/
inductive WindowFilter.Deletes (w : WindowFilter) : WindowFilter → Prop
  | partition {names : List String} (h : OneLess w.spec.partitionBy names) :
    Deletes w { w with spec := { w.spec with partitionBy := names } }
  | order {ks : List OrderKey} (h : OneLess w.spec.orderBy ks) :
    Deletes w { w with spec := { w.spec with orderBy := ks } }
  | filter {l : Leaf} (h : w.filter.Deletes l) : Deletes w { w with filter := l }

/-- A key of the order is taken away, or something in the constraint. -/
inductive SubqueryFilter.Deletes (s : SubqueryFilter) : SubqueryFilter → Prop
  | order {ks : List OrderKey} (h : OneLess s.orderBy ks) : Deletes s { s with orderBy := ks }
  | filter {l : Leaf} (h : s.filter.Deletes l) : Deletes s { s with filter := l }

/-- Something is taken away from an entry, but nothing inside of the filters that it holds. -/
inductive FilterEntry.Deletes : FilterEntry → FilterEntry → Prop
  | all {fs fs' : List Filter} (h : OneLess fs fs') : Deletes (all fs) (all fs')
  | any {fs fs' : List Filter} (h : OneLess fs fs') : Deletes (any fs) (any fs')
  | id {l l' : Leaf} (h : l.Deletes l') : Deletes (id l) (id l')
  | included {vs vs' : List Literal} (h : OneLessOrChanged Literal.Deletes vs vs') :
    Deletes (included vs) (included vs')
  | search {s : SearchFilter} {names : List String} (h : OneLess s.fields names) :
    Deletes (search s) (search { s with fields := names })
  | window {ws ws' : List WindowFilter} (h : OneLessOrChanged WindowFilter.Deletes ws ws') :
    Deletes (window ws) (window ws')
  | subquery {ss ss' : List SubqueryFilter} (h : OneLessOrChanged SubqueryFilter.Deletes ss ss') :
    Deletes (subquery ss) (subquery ss')
  | existence {items items' : List (ExistenceTest × Option Filter)} (h : OneLess items items') :
    Deletes (existence items) (existence items')
  | compare {cs cs' : List FieldComparison} (h : OneLess cs cs') :
    Deletes (compare cs) (compare cs')
  | aggregate {a : Aggregation} {functions : List (AggregateFunction × Leaf)}
    {condition : Option (Filter × UInt32)}
    (h : OneLessOrChanged (fun p q => q.1 = p.1 ∧ p.2.Deletes q.2) a.functions functions) :
    Deletes (aggregate a condition) (aggregate { a with functions := functions } condition)
  | trunc {t : TruncFilter} {l : Leaf} (h : t.filter.Deletes l) :
    Deletes (trunc t) (trunc { t with filter := l })
  | extract {t : ExtractFilter} {l : Leaf} (h : t.filter.Deletes l) :
    Deletes (extract t) (extract { t with filter := l })
  | count {relation : String} {l l' : Leaf} (h : l.Deletes l') :
    Deletes (count relation l) (count relation l')
  | field {name : String} {l l' : Leaf} (h : l.Deletes l') : Deletes (field name l) (field name l')

/-- One of the filters that an entry holds is another one.  A condition then has another
fingerprint. -/
inductive FilterEntry.Exchanges (f f' : Filter) : FilterEntry → FilterEntry → Prop
  | all (before after : List Filter) :
    Exchanges f f' (all (before ++ f :: after)) (all (before ++ f' :: after))
  | any (before after : List Filter) :
    Exchanges f f' (any (before ++ f :: after)) (any (before ++ f' :: after))
  | negation : Exchanges f f' (negation f) (negation f')
  | existence (before : List (ExistenceTest × Option Filter)) (t : ExistenceTest)
    (after : List (ExistenceTest × Option Filter)) :
    Exchanges f f' (existence (before ++ (t, some f) :: after))
      (existence (before ++ (t, some f') :: after))
  | related (relation : String) : Exchanges f f' (related relation f) (related relation f')
  | quantified (relation : String) (q : Quantifier) :
    Exchanges f f' (quantified relation q f) (quantified relation q f')
  | condition (a : Aggregation) (n n' : UInt32) :
    Exchanges f f' (aggregate a (some (f, n))) (aggregate a (some (f', n')))

/-- An entry or an element of a list is taken away, at any level. -/
inductive Filter.Deletes : Filter → Filter → Prop
  | entry {es es' : List (String × FilterEntry)} (h : OneLess es es') : Deletes (node es) (node es')
  | inEntry (before : List (String × FilterEntry)) (key : String) {e e' : FilterEntry}
    (after : List (String × FilterEntry)) (h : e.Deletes e') :
    Deletes (node (before ++ (key, e) :: after)) (node (before ++ (key, e') :: after))
  | inFilter (before : List (String × FilterEntry)) (key : String) {f f' : Filter}
    {e e' : FilterEntry} (after : List (String × FilterEntry)) (hf : Deletes f f')
    (he : e.Exchanges f f' e') :
    Deletes (node (before ++ (key, e) :: after)) (node (before ++ (key, e') :: after))

/-- One filter is what is left of another one when elements are taken away, one by one. -/
def Filter.PrunedTo : Filter → Filter → Prop := Relation.ReflTransGen Filter.Deletes

/-! ## Smaller filters -/

/-- A filter that asks for no more than another one. -/
structure Filter.Smaller (g f : Filter) : Prop where
  patterns : g.patterns ⊆ f.patterns
  depth : g.depth ≤ f.depth
  clauses : g.clauses ≤ f.clauses

/-- An entry that asks for no more than another one. -/
structure FilterEntry.Smaller (e' e : FilterEntry) : Prop where
  patterns : e'.patterns ⊆ e.patterns
  children : List.SublistForall₂ Filter.Smaller e'.children e.children

section Lists

variable {α β : Type} {R S : α → α → Prop} {xs ys : List α}

lemma exists_of_sublistForall₂ {x : α} (h : List.SublistForall₂ R xs ys) (hx : x ∈ xs) :
    ∃ y ∈ ys, R x y := by
  induction h with
  | nil => cases hx
  | cons hxy _ ih =>
    rcases List.mem_cons.mp hx with rfl | hx
    · exact ⟨_, List.mem_cons_self, hxy⟩
    · obtain ⟨y, hy, hR⟩ := ih hx
      exact ⟨y, List.mem_cons_of_mem _ hy, hR⟩
  | cons_right _ ih =>
    obtain ⟨y, hy, hR⟩ := ih hx
    exact ⟨y, List.mem_cons_of_mem _ hy, hR⟩

lemma sum_le_sum_of_sublistForall₂ {f : α → Nat} (h : List.SublistForall₂ R xs ys)
    (hR : ∀ x y, R x y → f x ≤ f y) : (xs.map f).sum ≤ (ys.map f).sum := by
  induction h with
  | nil => exact Nat.zero_le _
  | cons hxy _ ih => exact Nat.add_le_add (hR _ _ hxy) ih
  | cons_right _ ih => exact ih.trans (Nat.le_add_left _ _)

lemma sublistForall₂_of_sublist (h : xs.Sublist ys) (hS : ∀ x, S x x) :
    List.SublistForall₂ S xs ys :=
  List.sublistForall₂_iff.mpr ⟨xs, List.forall₂_same.mpr fun x _ => hS x, h⟩

lemma sublistForall₂_of_changed {x y : α} (before after : List α) (hxy : S y x) (hS : ∀ x, S x x) :
    List.SublistForall₂ S (before ++ y :: after) (before ++ x :: after) := by
  refine List.sublistForall₂_iff.mpr ⟨_, ?_, List.Sublist.refl _⟩
  exact List.rel_append (List.forall₂_same.mpr fun x _ => hS x)
    (.cons hxy (List.forall₂_same.mpr fun x _ => hS x))

lemma OneLess.sublist (h : OneLess xs ys) : ys.Sublist xs := by
  obtain ⟨before, x, after⟩ := h
  exact (List.sublist_cons_self x after).append_left before

/-- A change to less, and an element that is missing, lead to less. -/
lemma OneLessOrChanged.flatMap_subset {f : α → List β} (h : OneLessOrChanged R xs ys)
    (hR : ∀ x y, R x y → f y ⊆ f x) : ys.flatMap f ⊆ xs.flatMap f := by
  cases h with
  | less h => exact (h.sublist.flatMap f).subset
  | changed before after hxy =>
    intro b
    simp only [List.flatMap_append, List.flatMap_cons, List.mem_append]
    exact Or.imp_right (Or.imp_left fun hb => hR _ _ hxy hb)

end Lists

variable {f f' g : Filter} {e e' : FilterEntry} {l l' : Leaf} {v v' : Literal} {d d' : Document}
  {a : List (String × Nat)}

lemma Filter.Smaller.refl (f : Filter) : f.Smaller f := ⟨List.Subset.refl _, le_refl _, le_refl _⟩

lemma Filter.Smaller.trans {h : Filter} (hgf : g.Smaller f) (hfh : f.Smaller h) : g.Smaller h :=
  ⟨List.Subset.trans hgf.patterns hfh.patterns, hgf.depth.trans hfh.depth,
    hgf.clauses.trans hfh.clauses⟩

lemma FilterEntry.Smaller.refl (e : FilterEntry) : e.Smaller e :=
  ⟨List.Subset.refl _, sublistForall₂_of_sublist (.refl _) Filter.Smaller.refl⟩

/-- **Fewer and smaller entries make a smaller filter.** -/
lemma Filter.smaller_of_entries
    (h : List.SublistForall₂ (fun m m' => m.2.Smaller m'.2) g.entries f.entries) : g.Smaller f where
  patterns x hx := by
    obtain ⟨m, hm, hx⟩ := mem_patterns_iff.mp hx
    obtain ⟨m', hm', hle⟩ := exists_of_sublistForall₂ h hm
    refine mem_patterns_iff.mpr ⟨m', hm', hx.imp (fun hx => hle.patterns hx) ?_⟩
    rintro ⟨inner, hinner, hx⟩
    obtain ⟨inner', hinner', hsmaller⟩ := exists_of_sublistForall₂ hle.children hinner
    exact ⟨inner', hinner', hsmaller.patterns hx⟩
  depth := by
    refine depth_le_iff.mpr fun m hm inner hinner => ?_
    obtain ⟨m', hm', hle⟩ := exists_of_sublistForall₂ h hm
    obtain ⟨inner', hinner', hsmaller⟩ := exists_of_sublistForall₂ hle.children hinner
    have hdepth := depth_le_iff.mp (le_refl f.depth) m' hm' inner' hinner'
    have hle := hsmaller.depth
    omega
  clauses := by
    rw [clauses_eq, clauses_eq]
    refine sum_le_sum_of_sublistForall₂ h fun m m' hle => Nat.add_le_add_left ?_ 1
    exact sum_le_sum_of_sublistForall₂ hle.children fun _ _ hsmaller => hsmaller.clauses

/-! ## One step -/

lemma Document.Deletes.eq_of_text {s : String} (h : d.Deletes d') : d' ≠ text s := by
  cases h <;> simp

/-- An operand from which something is taken away has no other regular expressions. -/
lemma Literal.Deletes.operandPatterns_subset (h : v.Deletes v') (operator : String) :
    Leaf.operandPatterns operator v' ⊆ Leaf.operandPatterns operator v := by
  cases h with
  | item | insideItem => exact List.nil_subset _
  | document h =>
    cases h with
    | item | insideItem => exact List.nil_subset _
    | member h => exact (h.sublist.filterMap _).subset
    | insideMember before key after h =>
      intro x hx
      rcases Leaf.mem_operandPatterns_iff.mp hx with ⟨-, heq⟩ | ⟨ms, inner, heq, hinner, hmem⟩
      · cases heq
      · cases heq
        refine Leaf.mem_operandPatterns_iff.mpr (.inr ⟨_, inner, rfl, hinner, ?_⟩)
        simp only [List.mem_append, List.mem_cons, Prod.mk.injEq] at hmem ⊢
        rcases hmem with hmem | ⟨-, heq⟩ | hmem
        · exact .inl hmem
        · exact absurd heq.symm h.eq_of_text
        · exact .inr (.inr hmem)

lemma Leaf.Deletes.patterns_subset (h : l.Deletes l') : l'.patterns ⊆ l.patterns := by
  refine OneLessOrChanged.flatMap_subset h ?_
  rintro ⟨operator, v⟩ ⟨operator', v'⟩ ⟨hname, hv⟩
  obtain rfl : operator' = operator := hname
  exact hv.operandPatterns_subset operator'

/-- What is taken away from an entry takes no regular expression with it but its own. -/
lemma FilterEntry.Deletes.patterns_subset (h : e.Deletes e') : e'.patterns ⊆ e.patterns := by
  cases h with
  | all | any | included | search | existence | compare => exact List.nil_subset _
  | id h | trunc h | extract h | count h | field h =>
    simpa [patterns, leaves] using h.patterns_subset
  | window h =>
    simp only [patterns, leaves, List.flatMap_map]
    refine h.flatMap_subset fun w w' hw => ?_
    cases hw with
    | partition | order => exact List.Subset.refl _
    | filter h => exact h.patterns_subset
  | subquery h =>
    simp only [patterns, leaves, List.flatMap_map]
    refine h.flatMap_subset fun s s' hs => ?_
    cases hs with
    | order => exact List.Subset.refl _
    | filter h => exact h.patterns_subset
  | aggregate h =>
    simp only [patterns, leaves, List.flatMap_map]
    exact h.flatMap_subset fun p q hpq => hpq.2.patterns_subset

lemma FilterEntry.Deletes.children_sublist (h : e.Deletes e') :
    e'.children.Sublist e.children := by
  cases h with
  | all h | any h => exact h.sublist
  | existence h => exact h.sublist.filterMap _
  | @aggregate a functions condition h => cases condition <;> exact .refl _
  | _ => exact .refl _

/-- What is taken away from an entry makes it smaller. -/
lemma FilterEntry.Deletes.smaller (h : e.Deletes e') : e'.Smaller e :=
  ⟨h.patterns_subset, sublistForall₂_of_sublist h.children_sublist Filter.Smaller.refl⟩

/-- An entry with a smaller filter is smaller. -/
lemma FilterEntry.Exchanges.smaller (h : e.Exchanges f f' e') (hf : f'.Smaller f) :
    e'.Smaller e := by
  have hrefl : ∀ f : Filter, f.Smaller f := Filter.Smaller.refl
  refine ⟨?_, ?_⟩
  · cases h <;> exact List.Subset.refl _
  · cases h with
    | all before after | any before after => exact sublistForall₂_of_changed before after hf hrefl
    | existence before t after =>
      simp only [children, List.filterMap_append, List.filterMap_cons]
      exact sublistForall₂_of_changed _ _ hf hrefl
    | negation | related | quantified | condition => exact .cons hf .nil

/-- **One step takes away, and adds nothing.** -/
theorem Filter.Deletes.smaller (h : f.Deletes f') : f'.Smaller f := by
  have hrefl : ∀ m : String × FilterEntry, m.2.Smaller m.2 := fun m => .refl m.2
  induction h with
  | entry h => exact smaller_of_entries (sublistForall₂_of_sublist h.sublist hrefl)
  | inEntry before key after h =>
    exact smaller_of_entries (sublistForall₂_of_changed before after h.smaller hrefl)
  | inFilter before key after _ he ih =>
    exact smaller_of_entries (sublistForall₂_of_changed before after (he.smaller ih) hrefl)

/-! ## Many steps -/

/-- What is left after many steps is smaller. -/
theorem Filter.PrunedTo.smaller (h : f.PrunedTo g) : g.Smaller f := by
  induction h with
  | refl => exact .refl f
  | tail _ hstep ih => exact hstep.smaller.trans ih

/-- A filter in an entry is smaller than the filter that the entry belongs to. -/
lemma Filter.smaller_of_mem_children {m : String × FilterEntry} (hm : m ∈ f.entries)
    (hg : g ∈ m.2.children) : g.Smaller f where
  patterns _ hx := mem_patterns_iff.mpr ⟨m, hm, .inr ⟨g, hg, hx⟩⟩
  depth := (Nat.le_add_left _ _).trans (depth_le_iff.mp (le_refl f.depth) m hm g hg)
  clauses :=
    calc g.clauses ≤ (m.2.children.map Filter.clauses).sum :=
          List.le_sum_of_mem (List.mem_map_of_mem hg)
      _ ≤ 1 + (m.2.children.map Filter.clauses).sum := Nat.le_add_left _ _
      _ ≤ (f.entries.map fun m => 1 + (m.2.children.map Filter.clauses).sum).sum :=
          List.le_sum_of_mem (List.mem_map.mpr ⟨m, hm, rfl⟩)
      _ = f.clauses := clauses_eq.symm

/-- The filter at an address is smaller than the whole. -/
theorem Filter.smaller_of_at? (h : f.at? a = some g) : g.Smaller f := by
  induction a generalizing f with
  | nil =>
    obtain rfl := Option.some.inj h
    exact .refl f
  | cons step a ih =>
    obtain ⟨e, he, inner, hinner, h⟩ := at?_cons.mp h
    exact (ih h).trans (smaller_of_mem_children (Entries.mem_of_get? he)
      (List.mem_of_getElem? hinner))

namespace Limits

variable {limits limits' : Limits}

/-- Limits of which none is smaller. -/
structure Within (limits limits' : Limits) : Prop where
  maxPatternLength : limits.maxPatternLength ≤ limits'.maxPatternLength
  maxDepth : limits.maxDepth ≤ limits'.maxDepth
  maxClauses : limits.maxClauses ≤ limits'.maxClauses

/-- What a smaller filter asks for is within larger limits. -/
lemma error?_eq_none_of_smaller (h : limits.error? f = none) (hg : g.Smaller f)
    (hlimits : limits.Within limits') : limits'.error? g = none := by
  obtain ⟨hpatterns, hdepth, hclauses⟩ := error?_eq_none_iff.mp h
  refine error?_eq_none_iff.mpr ⟨fun x hx => ?_, hg.depth.trans (hdepth.trans hlimits.maxDepth),
    hg.clauses.trans (hclauses.trans hlimits.maxClauses)⟩
  have hx := hpatterns x (hg.patterns hx)
  unfold patternError? at hx ⊢
  split at hx
  · cases hx
  · next hlength =>
    rw [if_neg (by have := hlimits.maxPatternLength; omega)]
    exact hx

lemma check_eq_ok_iff : limits.check f = .ok () ↔ limits.error? f = none := by
  unfold check
  cases limits.error? f <;> simp

lemma check_eq_error_iff {err : LimitError} :
    limits.check f = .error err ↔ limits.error? f = some err := by
  unfold check
  cases limits.error? f <;> simp

/-! ## What the limits say about nodes -/

/-- The nodes of a filter keep the limits. -/
structure Keeps (limits : Limits) (f : Filter) : Prop where
  /-- Each regular expression is allowed. -/
  patterns : ∀ x, f.HasPattern x → limits.patternError? x = none
  /-- No node is too deep. -/
  depth : ∀ n ∈ f.levels, n ≤ limits.maxDepth
  /-- The nodes do not have too many keys. -/
  clauses : f.places.encard ≤ limits.maxClauses

/-- The error for the first limit that a filter exceeds: the limits on regular expressions come
first, then the depth, then the number of clauses. -/
inductive FirstViolation (limits : Limits) (f : Filter) : LimitError → Prop
  | pattern {x : String} {err : LimitError} (hx : f.HasPattern x)
    (herror : limits.patternError? x = some err) : FirstViolation limits f err
  | depth {n : Nat} (hpatterns : ∀ x, f.HasPattern x → limits.patternError? x = none)
    (hn : IsGreatest f.levels n) (hmax : limits.maxDepth < n) :
    FirstViolation limits f (.tooDeep n limits.maxDepth)
  | clauses {n : Nat} (hpatterns : ∀ x, f.HasPattern x → limits.patternError? x = none)
    (hdepth : ∀ n ∈ f.levels, n ≤ limits.maxDepth) (hn : f.places.encard = n)
    (hmax : limits.maxClauses < n) :
    FirstViolation limits f (.tooManyClauses n limits.maxClauses)

lemma error?_eq_none_iff_keeps (h : f.HasDistinctKeys) :
    limits.error? f = none ↔ limits.Keeps f := by
  have hpatterns : (∀ x ∈ f.patterns, limits.patternError? x = none) ↔
      ∀ x, f.HasPattern x → limits.patternError? x = none := by
    simp only [Filter.mem_patterns_iff_hasPattern h]
  have hdepth : f.depth ≤ limits.maxDepth ↔ ∀ n ∈ f.levels, n ≤ limits.maxDepth :=
    isLUB_le_iff (Filter.isGreatest_depth h).isLUB
  have hclauses : f.clauses ≤ limits.maxClauses ↔ f.places.encard ≤ limits.maxClauses := by
    rw [Filter.encard_places h, Nat.cast_le]
  rw [error?_eq_none_iff, hpatterns, hdepth, hclauses]
  exact ⟨fun ⟨h₁, h₂, h₃⟩ => ⟨h₁, h₂, h₃⟩, fun h => ⟨h.patterns, h.depth, h.clauses⟩⟩

lemma firstViolation_of_error? {err : LimitError} (h : f.HasDistinctKeys)
    (herror : limits.error? f = some err) : limits.FirstViolation f err := by
  unfold error? at herror
  split at herror
  · next hfind =>
    obtain rfl := Option.some.inj herror
    obtain ⟨x, hx, herror⟩ := List.exists_of_findSome?_eq_some hfind
    exact .pattern ((Filter.mem_patterns_iff_hasPattern h).mp hx) herror
  · next hfind =>
    have hpatterns : ∀ x, f.HasPattern x → limits.patternError? x = none := fun x hx =>
      List.findSome?_eq_none_iff.mp hfind x ((Filter.mem_patterns_iff_hasPattern h).mpr hx)
    have hgreatest := Filter.isGreatest_depth h
    split at herror
    · next hmax =>
      obtain rfl := Option.some.inj herror
      exact .depth hpatterns hgreatest hmax
    · next hdepth =>
      split at herror
      · next hmax =>
        obtain rfl := Option.some.inj herror
        exact .clauses hpatterns (fun n hn => (hgreatest.2 hn).trans (Nat.not_lt.mp hdepth))
          (Filter.encard_places h) hmax
      · cases herror

/-- **The limits are checked exactly, and what is left of an accepted filter is accepted.**  A
filter is accepted exactly if its nodes keep the limits; otherwise the error is that of the first
limit that is exceeded.  Of an accepted filter, every node is accepted, everything that is left when
elements are taken away, and the filter itself under limits of which none is smaller. -/
theorem check_exact (limits : Limits) (h : f.HasDistinctKeys) :
    (limits.check f = .ok () ↔ limits.Keeps f) ∧
    (∀ err, limits.check f = .error err → limits.FirstViolation f err) ∧
    (limits.check f = .ok () →
      (∀ a g, f.at? a = some g → limits.check g = .ok ()) ∧
      (∀ g, f.PrunedTo g → limits.check g = .ok ()) ∧
      ∀ limits', limits.Within limits' → limits'.check f = .ok ()) := by
  refine ⟨?_, fun err herror => ?_, fun hok => ?_⟩
  · rw [check_eq_ok_iff, error?_eq_none_iff_keeps h]
  · exact firstViolation_of_error? h (check_eq_error_iff.mp herror)
  · have hnone := check_eq_ok_iff.mp hok
    have hsame : limits.Within limits := ⟨le_refl _, le_refl _, le_refl _⟩
    refine ⟨fun a g hg => ?_, fun g hg => ?_, fun limits' hlimits => ?_⟩
    · exact check_eq_ok_iff.mpr
        (error?_eq_none_of_smaller hnone (Filter.smaller_of_at? hg) hsame)
    · exact check_eq_ok_iff.mpr (error?_eq_none_of_smaller hnone hg.smaller hsame)
    · exact check_eq_ok_iff.mpr (error?_eq_none_of_smaller hnone (.refl f) hlimits)

/-- A filter with two nodes below its root, under limits that it just keeps.  It is still accepted
without the second of the two nodes, and if no node below the root is allowed, the error tells the
depth. -/
theorem check_exact_branches :
    let first : Filter := .node [("name", .field "name" ⟨.ofList [("regex", .text "^a")]⟩)]
    let second : Filter := .node [("price", .field "price" ⟨.ofList [("gt", .int 1)]⟩)]
    let f : Filter := .node [("OR", .any [first, second])]
    let limits : Limits := { maxPatternLength := 2, maxDepth := 1, maxClauses := 3 }
    f.HasDistinctKeys ∧ limits.check f = .ok () ∧ limits.Keeps f ∧
      limits.check (.node [("OR", .any [first])]) = .ok () ∧
      FirstViolation { limits with maxDepth := 0, maxClauses := 0 } f (.tooDeep 1 0) := by
  intro first second f limits
  have hleaf : ∀ key e, e.children = [] → (Filter.node [(key, e)]).HasDistinctKeys := by
    intro key e he
    refine Filter.hasDistinctKeys_of_children (List.nodup_singleton key) fun m hm g hg => ?_
    rw [List.mem_singleton.mp hm, he] at hg
    cases hg
  have hf : f.HasDistinctKeys := by
    refine Filter.hasDistinctKeys_of_children (List.nodup_singleton _) fun m hm g hg => ?_
    rw [List.mem_singleton.mp hm] at hg
    rcases List.mem_cons.mp hg with rfl | hg
    · exact hleaf _ _ rfl
    · exact List.mem_singleton.mp hg ▸ hleaf _ _ rfl
  have hok : limits.check f = .ok () := by decide
  have hpruned : f.PrunedTo (.node [("OR", .any [first])]) :=
    .single (.inEntry [] "OR" [] (.any (.intro [first] second [])))
  obtain ⟨hkeeps, -, hless⟩ := check_exact limits hf
  obtain ⟨-, herror, -⟩ := check_exact { limits with maxDepth := 0, maxClauses := 0 } hf
  exact ⟨hf, hok, hkeeps.mp hok, (hless hok).2.1 _ hpruned, herror _ (by decide)⟩

end Limits

end EntityFilter
