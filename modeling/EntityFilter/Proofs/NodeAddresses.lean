import EntityFilter.Proofs.AnnotatedRows
import EntityFilter.Proofs.FilterKeys
import EntityFilter.Proofs.PatternSafety
import Mathlib.Algebra.BigOperators.Ring.Finset
import Mathlib.Data.Set.Card
import Mathlib.Order.CompletePartialOrder

/-!
# The nodes of a filter

Every filter inside of a filter has an address: level by level, the key of an entry and the place
among the filters that the entry holds (`Filter.at?`).  The length of an address is the number of
levels below the root.

The limits on filters look at three measures, each with its own recursion over the kinds of entries
(`Filter.patterns`, `Filter.depth`, `Filter.clauses`).  All three are about the same nodes, those
with an address, if no key is written twice in a node: the regular expressions are those in the
leaves of the nodes (`Filter.mem_patterns_iff_hasPattern`), the depth is the length of the longest
address (`Filter.isGreatest_depth`), and the clauses are the keys of all nodes
(`Filter.encard_places`).  In filters that are read from documents no key is written twice
(`Filter.IsRead.hasDistinctKeys`).
-/

namespace EntityFilter

/-! ## One level -/

namespace Filter

variable {f g : Filter} {e : FilterEntry} {es : List (String × FilterEntry)} {fs : List Filter}
  {items : List (ExistenceTest × Option Filter)} {n : Nat} {x : String}

lemma depthBelow_le_iff : depthBelow fs ≤ n ↔ ∀ g ∈ fs, 1 + g.depth ≤ n := by
  induction fs with
  | nil => simp [depthBelow]
  | cons f fs ih => rw [depthBelow, Nat.max_le, ih, List.forall_mem_cons]

lemma depthOfTests_eq : depthOfTests items = depthBelow (items.filterMap Prod.snd) := by
  induction items with
  | nil => rfl
  | cons item items ih =>
    obtain ⟨t, _ | f⟩ := item
    · exact ih
    · exact congrArg (max (1 + f.depth)) ih

end Filter

namespace FilterEntry

variable {e : FilterEntry} {fs : List Filter} {items : List (ExistenceTest × Option Filter)}
  {es : List (String × FilterEntry)} {n : Nat}

/-- The depth of an entry is that of the filters that it holds. -/
lemma depth_le_iff : e.depth ≤ n ↔ ∀ g ∈ e.children, 1 + g.depth ≤ n := by
  cases e with
  | all fs | any fs => exact Filter.depthBelow_le_iff
  | negation f | related _ f | quantified _ _ f => simp [depth, children]
  | existence items => rw [depth, Filter.depthOfTests_eq, Filter.depthBelow_le_iff, children]
  | aggregate a condition =>
    cases condition with
    | none => simp [depth, children]
    | some condition => simp [depth, children]
  | _ => simp [depth, children]

lemma allOfFilters_eq : allOfFilters fs = fs.flatMap Filter.allEntries := by
  induction fs with
  | nil => rfl
  | cons f fs ih => rw [allOfFilters, ih, List.flatMap_cons]

lemma allOfTests_eq : allOfTests items = allOfFilters (items.filterMap Prod.snd) := by
  induction items with
  | nil => rfl
  | cons item items ih =>
    obtain ⟨t, _ | f⟩ := item
    · exact ih
    · exact congrArg (f.allEntries ++ ·) ih

/-- The entries below an entry are those of the filters that it holds. -/
lemma nested_eq : e.nested = e.children.flatMap Filter.allEntries := by
  cases e with
  | all fs | any fs => exact allOfFilters_eq
  | existence items => rw [nested, allOfTests_eq, allOfFilters_eq, children]
  | aggregate a condition =>
    cases condition with
    | none => rfl
    | some condition => simp [nested, children]
  | negation | related | quantified => simp [nested, children]
  | _ => rfl

lemma allOfEntries_eq : allOfEntries es = es.flatMap fun m => m.2 :: m.2.nested := by
  induction es with
  | nil => rfl
  | cons m es ih => rw [allOfEntries, ih, List.flatMap_cons]

end FilterEntry

namespace Filter

variable {f g : Filter} {n : Nat} {x : String}

/-- A filter is deeper than the filters in its entries. -/
lemma depth_le_iff : f.depth ≤ n ↔ ∀ m ∈ f.entries, ∀ g ∈ m.2.children, 1 + g.depth ≤ n := by
  obtain ⟨es⟩ := f
  rw [depth, entries]
  induction es with
  | nil => simp [depthOfEntries]
  | cons m es ih => rw [depthOfEntries, Nat.max_le, ih, List.forall_mem_cons,
      FilterEntry.depth_le_iff]

lemma allEntries_eq : f.allEntries = f.entries.flatMap fun m => m.2 :: m.2.nested := by
  obtain ⟨es⟩ := f
  exact FilterEntry.allOfEntries_eq

/-- Each entry counts once, and then the entries of the filters that it holds. -/
lemma clauses_eq : f.clauses = (f.entries.map fun m => 1 + (m.2.children.map clauses).sum).sum := by
  rw [clauses, allEntries_eq, List.length_flatMap]
  refine congrArg List.sum (List.map_congr_left fun m _ => ?_)
  rw [FilterEntry.nested_eq, List.length_cons, List.length_flatMap, Nat.add_comm]
  rfl

/-- The regular expressions of each entry, and then those of the filters that it holds. -/
lemma patterns_eq :
    f.patterns = f.entries.flatMap fun m => m.2.patterns ++ m.2.children.flatMap patterns := by
  rw [patterns, allEntries_eq, List.flatMap_assoc]
  refine List.flatMap_congr fun m _ => ?_
  rw [FilterEntry.nested_eq, List.flatMap_cons, List.flatMap_assoc]
  rfl

lemma mem_patterns_iff : x ∈ f.patterns ↔
    ∃ m ∈ f.entries, x ∈ m.2.patterns ∨ ∃ g ∈ m.2.children, x ∈ g.patterns := by
  rw [patterns_eq]
  simp only [List.mem_flatMap, List.mem_append]

end Filter

/-! ## Addresses -/

namespace Filter

/-- The filter at an address: at each level, the key of an entry and the place of one of the filters
that the entry holds. -/
def at? : Filter → List (String × Nat) → Option Filter
  | f, [] => some f
  | f, (key, i) :: rest => do
    let e ← f.get? key
    let g ← e.children[i]?
    g.at? rest

/-- No node has two entries under one key. -/
def HasDistinctKeys (f : Filter) : Prop :=
  ∀ a g, f.at? a = some g → (Entries.keys g.entries).Nodup

/-- The entries of all nodes, by the address of the node and the key. -/
def places (f : Filter) : Set (List (String × Nat) × String) :=
  {p | ∃ g, f.at? p.1 = some g ∧ (g.get? p.2).isSome}

/-- How many levels below the root there are nodes. -/
def levels (f : Filter) : Set Nat := {n | ∃ a g, f.at? a = some g ∧ a.length = n}

end Filter

/-- A regular expression of a leaf: the operand of an operator that matches regular expressions, or
that of such an operator in an operand that has operators itself. -/
inductive Leaf.HasPattern (l : Leaf) (x : String) : Prop
  | operand {operator : String} (hname : operator = "regex" ∨ operator = "iregex")
    (h : l.get? operator = some (.text x))
  | inside {operator inner : String} {ms : List (String × Document)}
    (h : l.get? operator = some (.document (.object ms)))
    (hname : inner = "regex" ∨ inner = "iregex") (hx : (inner, .text x) ∈ ms)

/-- A regular expression of a filter stands in a leaf of one of its nodes. -/
def Filter.HasPattern (f : Filter) (x : String) : Prop :=
  ∃ a g key e, ∃ l ∈ e.leaves, f.at? a = some g ∧ g.get? key = some e ∧ l.HasPattern x

namespace Leaf

variable {l : Leaf} {operator x : String} {v : Literal}

lemma isPatternOperator_iff :
    isPatternOperator operator ↔ operator = "regex" ∨ operator = "iregex" := by
  simp [isPatternOperator]

lemma mem_operandPatterns_iff : x ∈ operandPatterns operator v ↔
    (isPatternOperator operator ∧ v = .text x) ∨
      ∃ ms inner, v = .document (.object ms) ∧ isPatternOperator inner ∧ (inner, .text x) ∈ ms := by
  cases v with
  | text s =>
    have heq : s = x ↔ x = s := eq_comm
    by_cases h : isPatternOperator operator <;> simp [operandPatterns, h, heq]
  | document d =>
    cases d with
    | object ms =>
      simp only [operandPatterns, List.mem_filterMap]
      constructor
      · rintro ⟨⟨inner, d⟩, hmem, hx⟩
        cases d with
        | text s =>
          obtain ⟨hinner, rfl⟩ : isPatternOperator inner ∧ s = x := by simpa using hx
          exact .inr ⟨ms, inner, rfl, hinner, hmem⟩
        | _ => cases hx
      · rintro (⟨-, h⟩ | ⟨ms', inner, h, hinner, hx⟩)
        · cases h
        · cases h
          exact ⟨_, hx, by simp [hinner]⟩
    | _ => simp [operandPatterns]
  | _ => simp [operandPatterns]

/-- The regular expressions of a leaf are those of its operands. -/
lemma mem_patterns_iff_hasPattern : x ∈ l.patterns ↔ l.HasPattern x := by
  rw [patterns, List.mem_flatMap]
  constructor
  · rintro ⟨⟨operator, v⟩, hmem, hx⟩
    have hget : l.get? operator = some v := Entries.get?_of_mem l.operators.nodup hmem
    rcases mem_operandPatterns_iff.mp hx with ⟨hname, rfl⟩ | ⟨ms, inner, rfl, hname, hx⟩
    · exact .operand (isPatternOperator_iff.mp hname) hget
    · exact .inside hget (isPatternOperator_iff.mp hname) hx
  · rintro (⟨hname, hget⟩ | ⟨hget, hname, hx⟩)
    · exact ⟨_, Entries.mem_of_get? hget, mem_operandPatterns_iff.mpr
        (.inl ⟨isPatternOperator_iff.mpr hname, rfl⟩)⟩
    · exact ⟨_, Entries.mem_of_get? hget, mem_operandPatterns_iff.mpr
        (.inr ⟨_, _, rfl, isPatternOperator_iff.mpr hname, hx⟩)⟩

end Leaf

/-! ## The measures by addresses -/

namespace Filter

variable {f g : Filter} {e : FilterEntry} {a : List (String × Nat)} {key x : String} {i n : Nat}
  {P : Filter → Prop}

lemma sizeOf_lt_of_mem_children {m : String × FilterEntry} (hm : m ∈ f.entries)
    (hg : g ∈ m.2.children) : sizeOf g < sizeOf f := by
  obtain ⟨es⟩ := f
  obtain ⟨key, e⟩ := m
  have hlist := List.sizeOf_lt_of_mem hm
  have hentry : sizeOf g < sizeOf e := by
    cases e with
    | all fs | any fs =>
      have hitem : sizeOf g < sizeOf fs := List.sizeOf_lt_of_mem hg
      simp only [FilterEntry.all.sizeOf_spec, FilterEntry.any.sizeOf_spec]
      omega
    | negation f | related _ f | quantified _ _ f =>
      obtain rfl := List.mem_singleton.mp hg
      simp only [FilterEntry.negation.sizeOf_spec, FilterEntry.related.sizeOf_spec,
        FilterEntry.quantified.sizeOf_spec]
      omega
    | existence items =>
      obtain ⟨⟨t, condition⟩, hitem, rfl⟩ := List.mem_filterMap.mp hg
      have hitem := List.sizeOf_lt_of_mem hitem
      simp only [Prod.mk.sizeOf_spec, Option.some.sizeOf_spec,
        FilterEntry.existence.sizeOf_spec] at hitem ⊢
      omega
    | aggregate a condition =>
      obtain _ | ⟨f, n⟩ := condition
      · cases hg
      · obtain rfl := List.mem_singleton.mp hg
        simp only [FilterEntry.aggregate.sizeOf_spec, Option.some.sizeOf_spec,
          Prod.mk.sizeOf_spec]
        omega
    | _ => cases hg
  simp only [entries, Prod.mk.sizeOf_spec, node.sizeOf_spec] at hlist ⊢
  omega

/-- What holds of every filter if it holds of the filters in its entries holds of all. -/
theorem of_children (h : ∀ f : Filter, (∀ m ∈ f.entries, ∀ g ∈ m.2.children, P g) → P f)
    (f : Filter) : P f :=
  h f fun _ hm g hg => 
    have := sizeOf_lt_of_mem_children hm hg
    of_children h g
termination_by sizeOf f

lemma at?_cons : f.at? ((key, i) :: a) = some g ↔
    ∃ e, f.get? key = some e ∧ ∃ h, e.children[i]? = some h ∧ h.at? a = some g := by
  simp only [at?, Option.bind_eq_bind, Option.bind_eq_some_iff]

lemma HasDistinctKeys.nodup (h : f.HasDistinctKeys) : (Entries.keys f.entries).Nodup :=
  h [] f rfl

/-- An entry of a filter with distinct keys is found under its key. -/
lemma HasDistinctKeys.get? (h : f.HasDistinctKeys) (hm : (key, e) ∈ f.entries) :
    f.get? key = some e :=
  Entries.get?_of_mem h.nodup hm

lemma HasDistinctKeys.child {m : String × FilterEntry} (h : f.HasDistinctKeys) (hm : m ∈ f.entries)
    (hg : g ∈ m.2.children) : g.HasDistinctKeys := by
  obtain ⟨i, hi⟩ := List.getElem?_of_mem hg
  exact fun a inner ha => h ((m.1, i) :: a) inner (at?_cons.mpr ⟨m.2, h.get? hm, g, hi, ha⟩)

/-- Keys are distinct in every node if they are distinct here and in the filters inside. -/
lemma hasDistinctKeys_of_children (hkeys : (Entries.keys f.entries).Nodup)
    (hchildren : ∀ m ∈ f.entries, ∀ g ∈ m.2.children, g.HasDistinctKeys) : f.HasDistinctKeys := by
  intro a g ha
  cases a with
  | nil => exact Option.some.inj ha ▸ hkeys
  | cons step a =>
    obtain ⟨e, he, inner, hinner, ha⟩ := at?_cons.mp ha
    exact hchildren _ (Entries.mem_of_get? he) inner (List.mem_of_getElem? hinner) a g ha

/-- **The regular expressions of a filter are those of its nodes.** -/
lemma mem_patterns_iff_hasPattern (h : f.HasDistinctKeys) : x ∈ f.patterns ↔ f.HasPattern x := by
  induction f using of_children with
  | h f ih =>
    rw [mem_patterns_iff]
    constructor
    · rintro ⟨⟨key, e⟩, hm, hx | ⟨g, hg, hx⟩⟩
      · obtain ⟨l, hl, hx⟩ := List.mem_flatMap.mp hx
        exact ⟨[], f, key, e, l, hl, rfl, h.get? hm, Leaf.mem_patterns_iff_hasPattern.mp hx⟩
      · obtain ⟨a, inner, key', e', l, hl, ha, hrest⟩ := (ih _ hm g hg (h.child hm hg)).mp hx
        obtain ⟨i, hi⟩ := List.getElem?_of_mem hg
        exact ⟨(key, i) :: a, inner, key', e', l, hl,
          at?_cons.mpr ⟨e, h.get? hm, g, hi, ha⟩, hrest⟩
    · rintro ⟨a, inner, key, e, l, hl, ha, hkey, hx⟩
      cases a with
      | nil =>
        obtain rfl := Option.some.inj ha
        exact ⟨_, Entries.mem_of_get? hkey, .inl (List.mem_flatMap.mpr
          ⟨l, hl, Leaf.mem_patterns_iff_hasPattern.mpr hx⟩)⟩
      | cons step a =>
        obtain ⟨e', he', g, hg, ha⟩ := at?_cons.mp ha
        have hm := Entries.mem_of_get? he'
        have hg := List.mem_of_getElem? hg
        exact ⟨_, hm, .inr ⟨g, hg, (ih _ hm g hg (h.child hm hg)).mpr
          ⟨a, inner, key, e, l, hl, ha, hkey, hx⟩⟩⟩

/-- No address is longer than the filter is deep. -/
lemma length_le_depth (ha : f.at? a = some g) : a.length ≤ f.depth := by
  induction a generalizing f with
  | nil => exact Nat.zero_le _
  | cons step a ih =>
    obtain ⟨e, he, inner, hinner, ha⟩ := at?_cons.mp ha
    have hstep := depth_le_iff.mp (le_refl f.depth) _ (Entries.mem_of_get? he) inner
      (List.mem_of_getElem? hinner)
    have hrest := ih ha
    rw [List.length_cons]
    omega

/-- **The depth is the length of the longest address.** -/
lemma isGreatest_depth (h : f.HasDistinctKeys) : IsGreatest f.levels f.depth := by
  refine ⟨?_, fun n ⟨a, g, ha, hn⟩ => hn ▸ length_le_depth ha⟩
  induction f using of_children with
  | h f ih =>
    by_cases hchildren : ∃ m ∈ f.entries, ∃ g ∈ m.2.children, f.depth = 1 + g.depth
    · obtain ⟨m, hm, g, hg, hdepth⟩ := hchildren
      obtain ⟨a, inner, ha, hlength⟩ := ih m hm g hg (h.child hm hg)
      obtain ⟨i, hi⟩ := List.getElem?_of_mem hg
      refine ⟨(m.1, i) :: a, inner, at?_cons.mpr ⟨m.2, h.get? hm, g, hi, ha⟩, ?_⟩
      rw [List.length_cons, hlength, hdepth, Nat.add_comm]
    · -- no filter is at the next level, or one of them would give the depth
      have hzero : f.depth ≤ f.depth - 1 := by
        refine depth_le_iff.mpr fun m hm g hg => ?_
        have hle := depth_le_iff.mp (le_refl f.depth) m hm g hg
        have hne : f.depth ≠ 1 + g.depth := fun heq => hchildren ⟨m, hm, g, hg, heq⟩
        omega
      have hdepth : f.depth = 0 := by omega
      exact ⟨[], f, rfl, hdepth.symm⟩

/-! ### Counting places -/

/-- The places of an entry under a key: the key itself, and those in the filters that it holds. -/
def placesAt (key : String) (e : FilterEntry) : Set (List (String × Nat) × String) :=
  {([], key)} ∪ ⋃ p ∈ e.children.zipIdx, (fun q => ((key, p.2) :: q.1, q.2)) '' p.1.places

lemma mem_placesAt_cons {p : List (String × Nat) × String} :
    p ∈ placesAt key e ↔ p = ([], key) ∨ ∃ i g, e.children[i]? = some g ∧
      ∃ q ∈ g.places, ((key, i) :: q.1, q.2) = p := by
  simp only [placesAt, Set.mem_union, Set.mem_singleton_iff, Set.mem_iUnion, Set.mem_image,
    List.mk_mem_zipIdx_iff_getElem?, Prod.exists, exists_prop]
  rw [exists_comm]

lemma places_eq (h : f.HasDistinctKeys) : f.places = ⋃ m ∈ f.entries, placesAt m.1 m.2 := by
  ext ⟨a, key⟩
  simp only [Set.mem_iUnion, mem_placesAt_cons, exists_prop]
  constructor
  · rintro ⟨g, ha, hkey⟩
    cases a with
    | nil =>
      obtain rfl := Option.some.inj ha
      obtain ⟨e, he⟩ := Option.isSome_iff_exists.mp hkey
      exact ⟨(key, e), Entries.mem_of_get? he, .inl rfl⟩
    | cons step a =>
      obtain ⟨e, he, inner, hinner, ha⟩ := at?_cons.mp ha
      exact ⟨_, Entries.mem_of_get? he, .inr ⟨_, inner, hinner, (a, key), ⟨g, ha, hkey⟩, rfl⟩⟩
  · rintro ⟨⟨key', e⟩, hm, heq | ⟨i, inner, hinner, ⟨a', key''⟩, ⟨g, ha, hkey⟩, heq⟩⟩
    · cases heq
      exact ⟨f, rfl, Option.isSome_iff_exists.mpr ⟨e, h.get? hm⟩⟩
    · cases heq
      exact ⟨g, at?_cons.mpr ⟨e, h.get? hm, inner, hinner, ha⟩, hkey⟩

/-- Sets that have nothing in common are counted one by one. -/
lemma encard_biUnion_list {α β : Type} {s : α → Set β} : ∀ {as : List α},
    as.Pairwise (fun x y => Disjoint (s x) (s y)) →
      (⋃ x ∈ as, s x).encard = (as.map fun x => (s x).encard).sum
  | [], _ => by simp
  | x :: as, h => by
    obtain ⟨hx, has⟩ := List.pairwise_cons.mp h
    have hunion : (⋃ y ∈ x :: as, s y) = s x ∪ ⋃ y ∈ as, s y := by
      ext b
      simp
    rw [hunion, Set.encard_union_eq, encard_biUnion_list has, List.map_cons, List.sum_cons]
    simpa using hx

/-- Places of entries under different keys are different. -/
lemma disjoint_placesAt {key key' : String} {e e' : FilterEntry} (h : key ≠ key') :
    Disjoint (placesAt key e) (placesAt key' e') := by
  rw [Set.disjoint_left]
  intro p hp hp'
  rcases mem_placesAt_cons.mp hp with rfl | ⟨i, g, -, q, -, rfl⟩ <;>
    rcases mem_placesAt_cons.mp hp' with heq | ⟨i', g', -, q', -, heq⟩
  · exact h (congrArg Prod.snd heq)
  · cases heq
  · cases heq
  · simp only [Prod.mk.injEq, List.cons.injEq] at heq
    exact h heq.1.1.1.symm

/-- An entry has one place for its key, and those in the filters that it holds. -/
lemma encard_placesAt (key : String) (e : FilterEntry) :
    (placesAt key e).encard = 1 + (e.children.map fun g => g.places.encard).sum := by
  have hsum : (e.children.zipIdx.map fun p => p.1.places.encard) =
      e.children.map fun g => g.places.encard := by
    conv_rhs => rw [← List.zipIdx_map_fst 0 e.children, List.map_map]
    rfl
  have hplaces : e.children.zipIdx.Pairwise fun p q => p.2 ≠ q.2 := by
    rw [← List.pairwise_map, List.zipIdx_map_snd]
    exact List.nodup_range'
  rw [placesAt, Set.encard_union_eq, Set.encard_singleton, encard_biUnion_list]
  · refine congrArg (1 + ·) ?_
    rw [← hsum]
    refine congrArg List.sum (List.map_congr_left fun p _ => ?_)
    refine Function.Injective.encard_image (fun q q' heq => ?_) _
    simp only [Prod.mk.injEq, List.cons.injEq, true_and] at heq
    exact Prod.ext heq.1 heq.2
  · refine hplaces.imp fun {p q} hne => ?_
    rw [Set.disjoint_left]
    rintro _ ⟨x, -, rfl⟩ ⟨y, -, heq⟩
    simp only [Prod.mk.injEq, List.cons.injEq] at heq
    exact hne heq.1.1.2.symm
  · simp

/-- **The clauses are the keys of all nodes.** -/
lemma encard_places (h : f.HasDistinctKeys) : f.places.encard = f.clauses := by
  induction f using of_children with
  | h f ih =>
    have hkeys : f.entries.Pairwise fun m m' => m.1 ≠ m'.1 := List.pairwise_map.mp h.nodup
    have hplaces : f.entries.Pairwise
        fun m m' => Disjoint (placesAt m.1 m.2) (placesAt m'.1 m'.2) :=
      hkeys.imp disjoint_placesAt
    rw [places_eq h, encard_biUnion_list hplaces, clauses_eq,
      Nat.cast_list_sum, List.map_map]
    refine congrArg List.sum (List.map_congr_left fun m hm => ?_)
    rw [encard_placesAt, Function.comp_apply, Nat.cast_add, Nat.cast_list_sum, List.map_map,
      Nat.cast_one]
    exact congrArg (1 + ·) (congrArg List.sum (List.map_congr_left fun g hg =>
      ih m hm g hg (h.child hm hg)))

end Filter

/-! ## Filters that are read -/

/-- A filter that a well-formed document writes. -/
def Filter.IsRead (f : Filter) : Prop :=
  ∃ d : Document, d.WellFormed ∧ Filter.ofDocument? d = some f

section

variable {d : Document} {ds : List Document} {ms : List (String × Document)} {key : String}
  {f g : Filter} {fs : List Filter} {item : ExistenceTest × Option Filter}

lemma Filter.isRead_object (hd : (Document.object ms).WellFormed) :
    (Filter.node (FilterEntry.ofMembers ms)).IsRead :=
  ⟨.object ms, hd, by rw [Filter.ofDocument?]⟩

lemma Filter.isRead_of_optionalOfDocument? (hd : d.WellFormed)
    (h : Filter.optionalOfDocument? d = some (some g)) : g.IsRead := by
  cases d with
  | object ms =>
    rw [Filter.optionalOfDocument?] at h
    exact Option.some.inj (Option.some.inj h) ▸ isRead_object hd
  | _ => simp [Filter.optionalOfDocument?] at h

lemma Filter.isRead_of_ofMember? (hms : ∀ m ∈ ms, m.2.WellFormed)
    (h : Filter.ofMember? key ms = some (some g)) : g.IsRead := by
  rw [Filter.ofMember?_eq] at h
  split at h
  · next d hd => exact isRead_of_optionalOfDocument? (hms _ (Entries.mem_of_get? hd)) h
  · simp at h

lemma Filter.isRead_of_mem_listOfItems (hds : ∀ d ∈ ds, d.WellFormed) :
    ∀ g ∈ Filter.listOfItems ds, g.IsRead := by
  induction ds with
  | nil => simp [Filter.listOfItems]
  | cons d ds ih =>
    obtain ⟨hd, hrest⟩ := List.forall_mem_cons.mp hds
    rw [Filter.listOfItems]
    split
    · next f hf => exact List.forall_mem_cons.mpr ⟨⟨d, hd, hf⟩, ih hrest⟩
    · exact ih hrest

lemma Filter.isRead_of_listOfDocument? (hd : d.WellFormed)
    (h : Filter.listOfDocument? d = some fs) : ∀ g ∈ fs, g.IsRead := by
  cases d with
  | array items =>
    rw [Filter.listOfDocument?, Option.some.injEq] at h
    exact h ▸ isRead_of_mem_listOfItems (Document.itemsWellFormed_iff.mp hd)
  | object ms =>
    rw [Filter.listOfDocument?, Option.some.injEq] at h
    exact h ▸ List.forall_mem_singleton.mpr (isRead_object hd)
  | _ => simp [Filter.listOfDocument?] at h

namespace ExistenceTest

lemma isRead_of_ofMembers? (hms : ∀ m ∈ ms, m.2.WellFormed) (h : ofMembers? ms = some item)
    (hg : item.2 = some g) : g.IsRead := by
  rw [ofMembers?] at h
  split at h
  · next hcondition _ =>
    obtain rfl := Option.some.inj h
    dsimp only at hg
    exact Filter.isRead_of_ofMember? hms (hg ▸ hcondition)
  · cases h

lemma isRead_of_ofFields? (hds : ∀ d ∈ ds, d.WellFormed) (h : ofFields? ds = some item)
    (hg : item.2 = some g) : g.IsRead := by
  unfold ofFields? at h
  split at h
  · obtain rfl := Option.some.inj h
    cases hg
  iterate 2
    · obtain ⟨condition, hcondition, rfl⟩ := Option.map_eq_some_iff.mp h
      dsimp only at hg
      rw [hg] at hcondition
      exact Filter.isRead_of_optionalOfDocument? (hds _ (List.mem_cons_of_mem _ List.mem_cons_self))
        hcondition
  · cases h

lemma isRead_of_mem_listOfItems (hds : ∀ d ∈ ds, d.WellFormed) :
    ∀ item ∈ listOfItems ds, ∀ g, item.2 = some g → g.IsRead := by
  induction ds with
  | nil => simp [listOfItems]
  | cons d ds ih =>
    obtain ⟨hd, hrest⟩ := List.forall_mem_cons.mp hds
    have ih := ih hrest
    cases d with
    | object ms =>
      rw [listOfItems]
      split
      · next item hitem =>
        exact List.forall_mem_cons.mpr ⟨fun g => isRead_of_ofMembers?
          (Document.membersWellFormed_iff.mp hd.2) hitem, ih⟩
      · exact ih
    | array fields =>
      rw [listOfItems]
      split
      · next item hitem =>
        exact List.forall_mem_cons.mpr ⟨fun g => isRead_of_ofFields?
          (Document.itemsWellFormed_iff.mp hd) hitem, ih⟩
      · exact ih
    | _ =>
      simp only [listOfItems]
      exact ih

lemma isRead_of_mem_listOfDocument (hd : d.WellFormed) (hitem : item ∈ listOfDocument d)
    (hg : item.2 = some g) : g.IsRead := by
  cases d with
  | array items =>
    rw [listOfDocument] at hitem
    exact isRead_of_mem_listOfItems (Document.itemsWellFormed_iff.mp hd) item hitem g hg
  | object ms =>
    rw [listOfDocument, Option.mem_toList] at hitem
    exact isRead_of_ofMembers? (Document.membersWellFormed_iff.mp hd.2) hitem hg
  | _ => simp [listOfDocument] at hitem

end ExistenceTest

/-- What an entry holds is read from a part of what the entry is read from. -/
lemma FilterEntry.isRead_of_mem_children {k : FilterKey} {e : FilterEntry} (hd : d.WellFormed)
    (h : FilterEntry.ofDocument? k d = some e) : ∀ g ∈ e.children, g.IsRead := by
  cases k with
  | all | any =>
    rw [FilterEntry.ofDocument?] at h
    obtain ⟨fs, hfs, rfl⟩ := Option.map_eq_some_iff.mp h
    exact Filter.isRead_of_listOfDocument? hd hfs
  | negation | related | quantified =>
    rw [FilterEntry.ofDocument?] at h
    obtain ⟨f, hf, rfl⟩ := Option.map_eq_some_iff.mp h
    exact List.forall_mem_singleton.mpr ⟨d, hd, hf⟩
  | existence =>
    rw [FilterEntry.ofDocument?] at h
    split at h
    · cases h
    · obtain rfl := Option.some.inj h
      intro g hg
      obtain ⟨item, hitem, hg⟩ := List.mem_filterMap.mp hg
      exact ExistenceTest.isRead_of_mem_listOfDocument hd hitem hg
  | conditionalAggregate relation =>
    cases d with
    | object ms =>
      rw [FilterEntry.ofDocument?] at h
      split at h
      · next hcondition _ =>
        obtain rfl := Option.some.inj h
        exact List.forall_mem_singleton.mpr
          (Filter.isRead_of_ofMember? (Document.membersWellFormed_iff.mp hd.2) hcondition)
      · cases h
    | _ => simp [FilterEntry.ofDocument?] at h
  | aggregate relation =>
    cases d with
    | object ms =>
      rw [FilterEntry.ofDocument?] at h
      obtain ⟨a, -, rfl⟩ := Option.map_eq_some_iff.mp h
      exact List.forall_mem_nil _
    | _ => simp [FilterEntry.ofDocument?] at h
  | quick | search | window | subquery | compare | trunc | extract =>
    rw [FilterEntry.ofDocument?] at h
    obtain ⟨_, -, rfl⟩ := Option.map_eq_some_iff.mp h
    exact List.forall_mem_nil _
  | id | included | count | field =>
    rw [FilterEntry.ofDocument?] at h
    obtain rfl := Option.some.inj h
    exact List.forall_mem_nil _

/-- Members that cannot be read are left out. -/
lemma FilterEntry.keys_ofMembers (ms : List (String × Document)) :
    (Entries.keys (FilterEntry.ofMembers ms)).Sublist (Entries.keys ms) := by
  induction ms with
  | nil => simp [FilterEntry.ofMembers]
  | cons m ms ih =>
    rw [FilterEntry.ofMembers]
    split
    · exact ih.cons_cons _
    · exact ih.cons _

lemma FilterEntry.isRead_of_mem_ofMembers (hms : ∀ m ∈ ms, m.2.WellFormed) :
    ∀ m ∈ FilterEntry.ofMembers ms, ∀ g ∈ m.2.children, g.IsRead := by
  induction ms with
  | nil => simp [FilterEntry.ofMembers]
  | cons m ms ih =>
    obtain ⟨hm, hrest⟩ := List.forall_mem_cons.mp hms
    rw [FilterEntry.ofMembers]
    split
    · next e he => exact List.forall_mem_cons.mpr ⟨isRead_of_mem_children hm he, ih hrest⟩
    · exact ih hrest

/-- **No key is written twice in a filter that is read.** -/
theorem Filter.IsRead.hasDistinctKeys (h : f.IsRead) : f.HasDistinctKeys := by
  induction f using Filter.of_children with
  | h f ih =>
    obtain ⟨d, hd, h⟩ := h
    cases d with
    | object ms =>
      rw [Filter.ofDocument?] at h
      obtain rfl := Option.some.inj h
      have hms := Document.membersWellFormed_iff.mp hd.2
      refine Filter.hasDistinctKeys_of_children ?_ fun m hm g hg => ih m hm g hg ?_
      · exact hd.1.sublist (FilterEntry.keys_ofMembers ms)
      · exact FilterEntry.isRead_of_mem_ofMembers hms m hm g hg
    | _ => simp [Filter.ofDocument?] at h

end

end EntityFilter
