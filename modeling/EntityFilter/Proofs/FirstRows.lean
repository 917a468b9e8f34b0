import EntityFilter.Proofs.AnnotationOrder
import EntityFilter.Proofs.RowOrder
import Mathlib.Data.List.Induction

/-!
# The first of the related rows

A subquery looks up a field of the first related row.  The rows are sorted by insertion from the
end, so what counts of the sort is which row is in front: a new row comes to the front only past all
others (`Document.getLast?_insertRow`).  The row in front is the earliest one that no other row
comes before (`OrderKey.IsFirst`), as long as the order is a total preorder on the rows: one more
row keeps this (`OrderKey.IsFirst.concat`), and so do all of them (`OrderKey.isFirst_sortRows`).

`ProjectionExpr.subquery_selects` says what is looked up in rows where each key finds values of one
type.  A row without a value comes after the rows with one in both directions, and a tie is left to
the keys that follow and at last to the order of the rows.
-/

namespace EntityFilter

namespace OrderKey

open Document

variable {k : OrderKey} {ks : List OrderKey} {a b c row first first' : Document}
  {rows sorted : List Document}

/-! ## Coming before -/

/-- A row comes before another one: the first key that tells them apart says so. -/
inductive Before : List OrderKey → Document → Document → Prop
  /-- The key tells the rows apart. -/
  | key {k : OrderKey} {ks : List OrderKey} {a b : Document} (h : k.Precedes a b) :
    Before (k :: ks) a b
  /-- The key leaves it to the others. -/
  | tie {k : OrderKey} {ks : List OrderKey} {a b : Document} (h : k.Ties a b)
      (h' : Before ks a b) : Before (k :: ks) a b

lemma compareRowsBy_eq_lt_iff : compareRowsBy ks a b = .lt ↔ Before ks a b := by
  induction ks with
  | nil =>
    constructor <;> intro h <;> cases h
  | cons k ks ih =>
    rw [compareRowsBy_cons_eq_lt_iff, ih]
    constructor
    · rintro (h | ⟨h, h'⟩)
      · exact .key h
      · exact .tie h h'
    · intro h
      cases h with
      | key h => exact .inl h
      | tie h h' => exact .inr ⟨h, h'⟩

instance (ks : List OrderKey) (a b : Document) : Decidable (Before ks a b) :=
  decidable_of_iff _ compareRowsBy_eq_lt_iff

lemma isLE_of_not_before (h : ¬Before ks a b) : (compareRowsBy ks b a).isLE := by
  rw [← compareRowsBy_eq_lt_iff] at h
  rw [compareRowsBy_swap ks a b]
  cases hab : compareRowsBy ks a b <;> simp [hab] at h ⊢

lemma Before.not_isLE (h : Before ks a b) : ¬(compareRowsBy ks b a).isLE := by
  rw [compareRowsBy_swap ks a b, compareRowsBy_eq_lt_iff.mpr h]
  decide

lemma Before.asymm (h : Before ks a b) : ¬Before ks b a := fun h' =>
  h.not_isLE (Ordering.isLE_of_eq_lt (compareRowsBy_eq_lt_iff.mpr h'))

lemma not_before_self (ks : List OrderKey) (a : Document) : ¬Before ks a a := fun h => h.asymm h

/-- What comes before a first row comes before what is not before that row. -/
lemma Orders.before_trans {S : Set Document} (hS : Orders ks S) (ha : a ∈ S) (hb : b ∈ S)
    (hc : c ∈ S) (hab : Before ks a b) (hcb : ¬Before ks c b) : Before ks a c := by
  by_contra hac
  exact hab.not_isLE (hS.le_trans b hb c hc a ha (isLE_of_not_before hcb) (isLE_of_not_before hac))

/-! ## The row in front -/

/-- A row is the earliest of some rows that no row comes before. -/
def IsFirst (ks : List OrderKey) (rows : List Document) (first : Document) : Prop :=
  ∃ front rest, rows = front ++ first :: rest ∧ (∀ r ∈ rows, ¬Before ks r first) ∧
    ∀ r ∈ front, ∃ r' ∈ rows, Before ks r' r

lemma IsFirst.ne_nil (h : IsFirst ks rows first) : rows ≠ [] := by
  obtain ⟨front, rest, rfl, -⟩ := h
  simp

lemma IsFirst.mem (h : IsFirst ks rows first) : first ∈ rows := by
  obtain ⟨front, rest, rfl, -⟩ := h
  simp

lemma IsFirst.not_before (h : IsFirst ks rows first) : ∀ r ∈ rows, ¬Before ks r first := by
  obtain ⟨front, rest, -, hfirst, -⟩ := h
  exact hfirst

lemma IsFirst.eq (h : IsFirst ks rows first) (h' : IsFirst ks rows first') : first = first' := by
  obtain ⟨front, rest, hrows, hfirst, hfront⟩ := h
  obtain ⟨front', rest', hrows', hfirst', hfront'⟩ := h'
  rw [hrows] at hrows'
  -- of two different places one would be in front of the other
  rcases List.append_eq_append_iff.mp hrows' with ⟨as, rfl, has⟩ | ⟨bs, rfl, hbs⟩
  · cases as with
    | nil => simpa using congrArg List.head? has
    | cons d as =>
      obtain ⟨rfl, -⟩ := List.cons_eq_cons.mp has
      obtain ⟨r, hr, hbefore⟩ := hfront' first (by simp)
      exact absurd hbefore (hfirst r hr)
  · cases bs with
    | nil => simpa using (congrArg List.head? hbs).symm
    | cons d bs =>
      obtain ⟨rfl, -⟩ := List.cons_eq_cons.mp hbs
      obtain ⟨r, hr, hbefore⟩ := hfront first' (by simp)
      exact absurd hbefore (hfirst' r hr)

/-! ## Sorting -/

lemma getLast?_insertRow (ks : List OrderKey) (row : Document) (sorted : List Document) :
    (insertRow ks row sorted).getLast? =
      if ∀ x ∈ sorted, Before ks row x then some row else sorted.getLast? := by
  induction sorted with
  | nil => simp [insertRow]
  | cons last others ih =>
    simp only [insertRow, compareRowsBy_eq_lt_iff, List.forall_mem_cons]
    by_cases hlast : Before ks row last
    · rw [if_pos hlast, List.getLast?_cons, ih]
      by_cases hothers : ∀ x ∈ others, Before ks row x
      · rw [if_pos hothers, if_pos ⟨hlast, hothers⟩]
        rfl
      · rw [if_neg hothers, if_neg fun h => hothers h.2, List.getLast?_cons]
    · rw [if_neg hlast, if_neg fun h => hlast h.1, List.getLast?_cons_cons]

/-- A new row comes to the front past all others. -/
lemma head?_sortRows_concat (ks : List OrderKey) (rows : List Document) (row : Document) :
    (sortRows ks (rows ++ [row])).head? =
      if ∀ x ∈ sortRows ks rows, Before ks row x then some row else (sortRows ks rows).head? := by
  have hsort : sortRows ks (rows ++ [row]) =
      (insertRow ks row (sortRows ks rows).reverse).reverse := by
    simp [sortRows]
  rw [hsort, List.head?_reverse, getLast?_insertRow, List.getLast?_reverse]
  simp only [List.mem_reverse]

/-- **A new row is first** if it comes before the row that is. -/
lemma IsFirst.concat (hS : Orders ks {r | r ∈ rows ++ [row]}) (h : IsFirst ks rows first) :
    IsFirst ks (rows ++ [row]) (if Before ks row first then row else first) := by
  have hmem : first ∈ rows := h.mem
  obtain ⟨front, rest, hrows, hfirst, hfront⟩ := h
  by_cases hrow : Before ks row first
  · have hall : ∀ r ∈ rows, Before ks row r := fun r hr =>
      hS.before_trans (by simp) (by simp [hmem]) (by simp [hr]) hrow (hfirst r hr)
    rw [if_pos hrow]
    refine ⟨rows, [], rfl, fun r hr => ?_, fun r hr => ⟨row, by simp, hall r hr⟩⟩
    rcases List.mem_append.mp hr with hr | hr
    · exact (hall r hr).asymm
    · rw [List.mem_singleton.mp hr]
      exact not_before_self ks row
  · rw [if_neg hrow]
    refine ⟨front, rest ++ [row], by simp [hrows], fun r hr => ?_, fun r hr => ?_⟩
    · rcases List.mem_append.mp hr with hr | hr
      · exact hfirst r hr
      · rwa [List.mem_singleton.mp hr]
    · obtain ⟨r', hr', hbefore⟩ := hfront r hr
      exact ⟨r', List.mem_append_left _ hr', hbefore⟩

/-- **The row in front of sorted rows** is the first one. -/
lemma isFirst_sortRows (hS : Orders ks {r | r ∈ rows}) (hne : rows ≠ []) :
    ∃ first, (sortRows ks rows).head? = some first ∧ IsFirst ks rows first := by
  induction rows using List.reverseRecOn with
  | nil => contradiction
  | append_singleton rows row ih =>
    by_cases hrows : rows = []
    · subst hrows
      exact ⟨row, rfl, [], [], rfl, by simpa using not_before_self ks row, by simp⟩
    · have hS' : Orders ks {r | r ∈ rows} := hS.mono fun r hr => List.mem_append_left _ hr
      obtain ⟨first, hhead, hfirst⟩ := ih hS' hrows
      refine ⟨_, ?_, hfirst.concat hS⟩
      rw [head?_sortRows_concat, hhead]
      by_cases hrow : Before ks row first
      · have hall : ∀ x ∈ sortRows ks rows, Before ks row x := fun x hx => by
          have hx := mem_of_mem_sortRows hx
          exact hS.before_trans (by simp) (by simp [hfirst.mem]) (by simp [hx]) hrow
            (hfirst.not_before x hx)
        rw [if_pos hall, if_pos hrow]
      · rw [if_neg fun h => hrow (h first (List.mem_of_mem_head? hhead)), if_neg hrow]

end OrderKey

namespace ProjectionExpr

open Document OrderKey

lemma valueAt_eq_null_iff {row : Document} {name : String} :
    row.valueAt name = .null ↔ row.get? name = none ∨ row.get? name = some .null := by
  rw [valueAt]
  cases row.get? name <;> simp

lemma isFirst_nil_iff {rows : List Document} {first : Document} :
    IsFirst [] rows first ↔ rows.head? = some first := by
  have hnone : ∀ a b, ¬Before [] a b := fun a b h => nomatch h
  constructor
  · rintro ⟨front, rest, rfl, -, hfront⟩
    cases front with
    | nil => rfl
    | cons r front =>
      obtain ⟨r', -, hbefore⟩ := hfront r (by simp)
      exact absurd hbefore (hnone r' r)
  · intro h
    obtain ⟨rest, rfl⟩ := List.head?_eq_some_iff.mp h
    exact ⟨[], rest, rfl, fun r _ => hnone r first, by simp⟩

/-- **A subquery selects the first of the related rows**, where each key finds values of one type:
the value is what the earliest row that no other row comes before has under the field, and null if
there is no row or the row has no value.  Without keys the first row is the one in front. -/
theorem subquery_selects (row : Document) (relation : RelationPath) (field : String)
    (ks : List OrderKey)
    (h : ∀ k ∈ ks, OneType {r | r ∈ row.related relation.segments} k.field) :
    let rows := row.related relation.segments
    ∃ value, (subquery relation field ks).compute? row = some value ∧
      (rows ≠ [] → ∃ first, IsFirst ks rows first) ∧
      (∀ first, IsFirst ks rows first → value = first.valueAt field) ∧
      (value = .null ↔ rows = [] ∨ ∃ first, IsFirst ks rows first ∧
        (first.get? field = none ∨ first.get? field = some .null)) ∧
      (ks = [] → ∀ first, rows.head? = some first → value = first.valueAt field) := by
  intro rows
  have hcompute : (subquery relation field ks).compute? row =
      some (((sortRows ks rows).head?.map fun first => first.valueAt field).getD .null) := rfl
  refine ⟨_, hcompute, ?_⟩
  by_cases hrows : rows = []
  · have hnone : ∀ first, ¬IsFirst ks rows first := fun first hfirst => hfirst.ne_nil hrows
    rw [hrows] at hnone ⊢
    exact ⟨fun hne => absurd rfl hne, fun first hfirst => absurd hfirst (hnone first),
      ⟨fun _ => .inl rfl, fun _ => rfl⟩, fun _ first hhead => nomatch hhead⟩
  · obtain ⟨first, hhead, hfirst⟩ := isFirst_sortRows (orders_of_oneType h) hrows
    have hvalue : ∀ first', IsFirst ks rows first' → first.valueAt field = first'.valueAt field :=
      fun first' hfirst' => by rw [hfirst.eq hfirst']
    rw [hhead, Option.map_some, Option.getD_some]
    refine ⟨fun _ => ⟨first, hfirst⟩, hvalue, ?_, ?_⟩
    · rw [valueAt_eq_null_iff]
      constructor
      · exact fun hnull => .inr ⟨first, hfirst, hnull⟩
      · rintro (hnil | ⟨first', hfirst', hnull⟩)
        · exact absurd hnil hrows
        · rwa [hfirst.eq hfirst']
    · rintro rfl first' hhead'
      exact hvalue first' (isFirst_nil_iff.mpr hhead')

/-- Reviews of a lamp, some of them without a day or a rating. -/
def lampReviews : List Document :=
  [.object [("rating", .int 4)],
    .object [("posted", .text "2024-01-09"), ("rating", .int 1)],
    .object [("posted", .text "2024-02-20"), ("rating", .null)],
    .object [("posted", .text "2024-02-20"), ("rating", .int 3), ("title", .text "dim")],
    .object [("posted", .text "2024-02-20"), ("rating", .int 5), ("title", .text "bright")],
    .object [("posted", .text "2024-02-20"), ("rating", .int 3), ("title", .text "pale")]]

/-- The last day has four reviews, of which two have the least rating. -/
theorem subquery_selects_lampReviews :
    let lamp : Document := .object [("reviews", .array lampReviews)]
    let ks : List OrderKey := [⟨"posted", true⟩, ⟨"rating", false⟩]
    (∀ k ∈ ks, OneType {r | r ∈ lamp.related ["reviews"]} k.field) ∧
      (subquery ⟨["reviews"]⟩ "title" ks).compute? lamp = some (.text "dim") := by
  intro lamp ks
  have hrelated : lamp.related ["reviews"] = lampReviews := rfl
  have htypes : ∀ k ∈ ks, OneType {r | r ∈ lamp.related ["reviews"]} k.field := by
    rw [hrelated]
    refine List.forall_mem_cons.mpr ⟨.inr (.inl ?_), List.forall_mem_cons.mpr ⟨.inl ?_, by simp⟩⟩
    · simp [lampReviews, valueAt, get?, Entries.get?, isNull]
    · simp [lampReviews, valueAt, get?, Entries.get?, isNull]
  have hfirst : IsFirst ks lampReviews lampReviews[3] :=
    ⟨lampReviews.take 3, lampReviews.drop 4, rfl, by decide +kernel, by decide +kernel⟩
  obtain ⟨value, hvalue, -, hselects, -⟩ :=
    subquery_selects lamp ⟨["reviews"]⟩ "title" ks htypes
  rw [hrelated] at hselects
  exact ⟨htypes, hvalue.trans (congrArg some (hselects _ hfirst))⟩

end ProjectionExpr

end EntityFilter
