import EntityFilter.Proofs.ExtremeValues
import EntityFilter.Row.Annotation
import Mathlib.Data.Set.Basic

/-!
# The order of rows

Rows are ordered by the first key that tells them apart.  By one key, a row precedes another one if
it has a value and the other row has none, or if its value is ahead in the direction of the key
(`OrderKey.Precedes`).  Values are ordered within their type, numbers by the doubles nearest to
them.  Values of different types are not ordered, and two rows that have such values tie.

A sort asks for a total preorder (`OrderKey.Orders`).  The order of rows always turns around with
its rows, but ties between values of different types are not transitive: a text ties with every
number.  Where this does harm is `OrderKey.Tangled`.  Up to some key three rows tie, and by this key
two of them are ordered while the value of the third row is of another type; then the other keys
must not lead from the later one of the two back to the earlier one.  `OrderKey.orders_iff` says
that the order is a total preorder on a set of rows exactly if no three of them are tangled.  So it
is one if each key finds values of one type, and it is one on all rows only if there are no keys.
-/

namespace EntityFilter

namespace Document

variable {a b c : Document} {o o' : Ordering}

/-! ## Ordered documents -/

lemma Ordered.symm (h : Ordered a b o) : Ordered b a o.swap := by
  cases h with
  | text h => exact .text (h ▸ Std.OrientedCmp.eq_swap)
  | bool h => exact .bool (h ▸ Std.OrientedCmp.eq_swap)
  | number ha hb h => exact .number hb ha (h ▸ Std.OrientedCmp.eq_swap)

lemma Ordered.exists_trans (h : Ordered a b o) (h' : Ordered b c o') : ∃ o, Ordered a c o := by
  cases h with
  | text =>
    cases h' with
    | text => exact ⟨_, .text rfl⟩
    | number hb => simp [numberKey?] at hb
  | bool =>
    cases h' with
    | bool => exact ⟨_, .bool rfl⟩
    | number hb => simp [numberKey?] at hb
  | number ha hb =>
    cases h' with
    | number _ hc => exact ⟨_, .number ha hc rfl⟩
    | _ => simp [numberKey?] at hb

/-- Turned around, two documents compare the other way. -/
lemma compare?_swap (a b : Document) : b.compare? a = (a.compare? b).map Ordering.swap := by
  cases hab : a.compare? b with
  | some o => exact compare?_eq_some_iff.mpr (compare?_eq_some_iff.mp hab).symm
  | none =>
    cases hba : b.compare? a with
    | none => rfl
    | some o =>
      rw [compare?_eq_some_iff.mpr (compare?_eq_some_iff.mp hba).symm] at hab
      contradiction

lemma compare?_eq_some_comm : a.compare? b = some o ↔ b.compare? a = some o.swap := by
  rw [compare?_swap a b, Option.map_eq_some_iff]
  constructor
  · exact fun h => ⟨o, h, rfl⟩
  · rintro ⟨o', h, ho⟩
    rw [h, ← Ordering.swap_swap (o := o), ← ho, Ordering.swap_swap]

lemma compare?_eq_none_comm : a.compare? b = none ↔ b.compare? a = none := by
  rw [compare?_swap a b, Option.map_eq_none_iff]

/-- Documents that are ordered with a third one are ordered with each other. -/
lemma exists_compare?_trans (hab : a.compare? b = some o) (hbc : b.compare? c = some o') :
    ∃ o, a.compare? c = some o := by
  obtain ⟨o, h⟩ := (compare?_eq_some_iff.mp hab).exists_trans (compare?_eq_some_iff.mp hbc)
  exact ⟨o, compare?_eq_some_iff.mpr h⟩

/-- Null is not ordered with anything. -/
lemma isNull_of_compare? (h : a.compare? b = some o) : a.isNull = false ∧ b.isNull = false := by
  cases compare?_eq_some_iff.mp h with
  | text | bool => exact ⟨rfl, rfl⟩
  | number ha hb =>
    constructor
    · cases a <;> simp [numberKey?, isNull] at ha ⊢
    · cases b <;> simp [numberKey?, isNull] at hb ⊢

end Document

namespace OrderKey

open Document

variable {k : OrderKey} {ks : List OrderKey} {a b c : Document} {S : Set Document}

/-! ## One key -/

/-- How a value compares with one that comes later. -/
def ahead (k : OrderKey) : Ordering := if k.descending then .gt else .lt

lemma ahead_eq (k : OrderKey) : k.ahead = .lt ∨ k.ahead = .gt := by
  unfold ahead
  cases k.descending <;> simp

/-- A row precedes another one by a key. -/
inductive Precedes (k : OrderKey) (a b : Document) : Prop
  /-- Only the first row has a value. -/
  | present (ha : (a.valueAt k.field).isNull = false) (hb : (b.valueAt k.field).isNull = true)
  /-- Both have one, and that of the first row is ahead. -/
  | ahead (h : (a.valueAt k.field).compare? (b.valueAt k.field) = some k.ahead)

/-- A key does not tell two rows apart. -/
inductive Ties (k : OrderKey) (a b : Document) : Prop
  /-- Neither has a value. -/
  | missing (ha : (a.valueAt k.field).isNull = true) (hb : (b.valueAt k.field).isNull = true)
  /-- The values compare as equal. -/
  | equal (h : (a.valueAt k.field).compare? (b.valueAt k.field) = some .eq)
  /-- The values are not ordered. -/
  | unordered (ha : (a.valueAt k.field).isNull = false) (hb : (b.valueAt k.field).isNull = false)
      (h : (a.valueAt k.field).compare? (b.valueAt k.field) = none)

/-- Of two rows one precedes the other, or they tie. -/
lemma trichotomy (k : OrderKey) (a b : Document) :
    k.Precedes a b ∨ k.Ties a b ∨ k.Precedes b a := by
  cases ha : (a.valueAt k.field).isNull <;> cases hb : (b.valueAt k.field).isNull
  · cases h : (a.valueAt k.field).compare? (b.valueAt k.field) with
    | none => exact .inr (.inl (.unordered ha hb h))
    | some o =>
      have hswap := compare?_eq_some_comm.mp h
      rcases k.ahead_eq with hk | hk <;> cases o
      · exact .inl (.ahead (hk ▸ h))
      · exact .inr (.inl (.equal h))
      · exact .inr (.inr (.ahead (hk ▸ hswap)))
      · exact .inr (.inr (.ahead (hk ▸ hswap)))
      · exact .inr (.inl (.equal h))
      · exact .inl (.ahead (hk ▸ h))
  · exact .inl (.present ha hb)
  · exact .inr (.inr (.present hb ha))
  · exact .inr (.inl (.missing ha hb))

lemma compareRows_of_compare? {o : Ordering}
    (h : (a.valueAt k.field).compare? (b.valueAt k.field) = some o) :
    k.compareRows a b = if k.descending then o.swap else o := by
  obtain ⟨ha, hb⟩ := isNull_of_compare? h
  simp only [compareRows, ha, hb, h, Option.getD_some]

lemma Precedes.compareRows_eq_lt (h : k.Precedes a b) : k.compareRows a b = .lt := by
  cases h with
  | present ha hb => simp only [compareRows, ha, hb]
  | ahead h =>
    rw [compareRows_of_compare? h, OrderKey.ahead]
    cases k.descending <;> rfl

lemma Precedes.compareRows_eq_gt (h : k.Precedes a b) : k.compareRows b a = .gt := by
  cases h with
  | present ha hb => simp only [compareRows, ha, hb]
  | ahead h =>
    rw [compareRows_of_compare? (compare?_eq_some_comm.mp h), OrderKey.ahead]
    cases k.descending <;> rfl

lemma Ties.compareRows_eq (h : k.Ties a b) : k.compareRows a b = .eq := by
  cases h with
  | missing ha hb => simp only [compareRows, ha, hb]
  | equal h =>
    rw [compareRows_of_compare? h]
    cases k.descending <;> rfl
  | unordered ha hb h =>
    simp only [compareRows, ha, hb, h, Option.getD_none]
    cases k.descending <;> rfl

lemma Ties.symm (h : k.Ties a b) : k.Ties b a := by
  cases h with
  | missing ha hb => exact .missing hb ha
  | equal h => exact .equal (compare?_eq_some_comm.mp h)
  | unordered ha hb h => exact .unordered hb ha (compare?_eq_none_comm.mp h)

/-- Turned around, two rows compare the other way. -/
lemma compareRows_swap (k : OrderKey) (a b : Document) :
    k.compareRows b a = (k.compareRows a b).swap := by
  rcases k.trichotomy a b with h | h | h
  · rw [h.compareRows_eq_gt, h.compareRows_eq_lt, Ordering.swap_lt]
  · rw [h.symm.compareRows_eq, h.compareRows_eq, Ordering.swap_eq]
  · rw [h.compareRows_eq_lt, h.compareRows_eq_gt, Ordering.swap_gt]

/-- **By one key, preceding is transitive.** -/
lemma Precedes.trans (hab : k.Precedes a b) (hbc : k.Precedes b c) : k.Precedes a c := by
  cases hab with
  | present ha hb =>
    cases hbc with
    | present hb' => simp [hb] at hb'
    | ahead h =>
      have hpresent := (isNull_of_compare? h).1
      simp [hb] at hpresent
  | ahead h =>
    cases hbc with
    | present _ hc => exact .present (isNull_of_compare? h).1 hc
    | ahead h' => exact .ahead (compare?_trans h h')

/-- Two rows are ordered by a key, and the value of a third one is of another type. -/
structure Mixes (k : OrderKey) (a b c : Document) : Prop where
  /-- The first row precedes the last one by its value. -/
  ahead : (a.valueAt k.field).compare? (c.valueAt k.field) = some k.ahead
  /-- The row between them has a value. -/
  present : (b.valueAt k.field).isNull = false
  /-- It is not ordered with the first value. -/
  left : (a.valueAt k.field).compare? (b.valueAt k.field) = none
  /-- It is not ordered with the last value. -/
  right : (b.valueAt k.field).compare? (c.valueAt k.field) = none

lemma Precedes.isNull_eq_false (h : k.Precedes a b) : (a.valueAt k.field).isNull = false := by
  cases h with
  | present ha => exact ha
  | ahead h => exact (isNull_of_compare? h).1

lemma Ties.isNull_eq (h : k.Ties a b) :
    (b.valueAt k.field).isNull = (a.valueAt k.field).isNull := by
  cases h with
  | missing ha hb => rw [ha, hb]
  | equal h =>
    obtain ⟨ha, hb⟩ := isNull_of_compare? h
    rw [ha, hb]
  | unordered ha hb => rw [ha, hb]

/-- A row that ties with two rows that do not tie has a value of another type. -/
lemma Precedes.mixes (hac : k.Precedes a c) (hab : k.Ties a b) (hbc : k.Ties b c) :
    k.Mixes a b c := by
  have ha := hac.isNull_eq_false
  have hb := hab.isNull_eq.trans ha
  have hc := hbc.isNull_eq.trans hb
  have hahead : (a.valueAt k.field).compare? (c.valueAt k.field) = some k.ahead := by
    cases hac with
    | present _ hc' => simp [hc] at hc'
    | ahead h => exact h
  -- an equal value would be ordered with the third one, and then the three would all be equal
  have hleft : (a.valueAt k.field).compare? (b.valueAt k.field) = none := by
    cases hab with
    | missing ha' => simp [ha] at ha'
    | unordered _ _ h => exact h
    | equal h =>
      obtain ⟨o, ho⟩ := exists_compare?_trans (compare?_eq_some_comm.mp h) hahead
      cases hbc with
      | missing hb' => simp [hb] at hb'
      | unordered _ _ h' => simp [h'] at ho
      | equal h' =>
        have heq := compare?_trans h h'
        rw [hahead] at heq
        rcases k.ahead_eq with hk | hk <;> simp [hk] at heq
  refine ⟨hahead, hb, hleft, ?_⟩
  cases hbc with
  | missing hb' => simp [hb] at hb'
  | unordered _ _ h => exact h
  | equal h =>
    obtain ⟨o, ho⟩ := exists_compare?_trans hahead (compare?_eq_some_comm.mp h)
    simp [hleft] at ho

lemma Mixes.precedes (h : k.Mixes a b c) : k.Precedes a c := .ahead h.ahead

lemma Mixes.ties_left (h : k.Mixes a b c) : k.Ties a b :=
  .unordered (isNull_of_compare? h.ahead).1 h.present h.left

lemma Mixes.ties_right (h : k.Mixes a b c) : k.Ties b c :=
  .unordered h.present (isNull_of_compare? h.ahead).2 h.right

lemma Precedes.not_ties (h : k.Precedes a b) : ¬k.Ties a b := fun h' => by
  have heq := h'.compareRows_eq
  rw [h.compareRows_eq_lt] at heq
  contradiction

lemma Precedes.asymm (h : k.Precedes a b) : ¬k.Precedes b a := fun h' => by
  have hgt := h'.compareRows_eq_gt
  rw [h.compareRows_eq_lt] at hgt
  contradiction

/-! ## Several keys -/

/-- Turned around, two rows compare the other way by any keys. -/
lemma compareRowsBy_swap (ks : List OrderKey) (a b : Document) :
    compareRowsBy ks b a = (compareRowsBy ks a b).swap := by
  induction ks with
  | nil => rfl
  | cons k ks ih =>
    rw [compareRowsBy, compareRowsBy, compareRows_swap, ih, Ordering.swap_then]

lemma compareRowsBy_cons_of_ties (h : k.Ties a b) :
    compareRowsBy (k :: ks) a b = compareRowsBy ks a b := by
  rw [compareRowsBy, h.compareRows_eq]
  rfl

lemma compareRowsBy_cons_of_precedes (h : k.Precedes a b) :
    compareRowsBy (k :: ks) a b = .lt := by
  rw [compareRowsBy, h.compareRows_eq_lt]
  rfl

lemma compareRowsBy_cons_of_precedes_swap (h : k.Precedes b a) :
    compareRowsBy (k :: ks) a b = .gt := by
  rw [compareRowsBy, h.compareRows_eq_gt]
  rfl

/-- The first key decides, or leaves it to the others. -/
lemma compareRowsBy_cons_iff (P : Ordering → Prop) (hlt : P .lt) (hgt : ¬P .gt) :
    P (compareRowsBy (k :: ks) a b) ↔
      k.Precedes a b ∨ k.Ties a b ∧ P (compareRowsBy ks a b) := by
  rcases k.trichotomy a b with h | h | h
  · simp [compareRowsBy_cons_of_precedes h, h, hlt]
  · have hnot : ¬k.Precedes a b := fun h' => h'.not_ties h
    simp [compareRowsBy_cons_of_ties h, h, hnot]
  · have hnot : ¬k.Ties a b := fun h' => h.not_ties h'.symm
    simp [compareRowsBy_cons_of_precedes_swap h, h.asymm, hnot, hgt]

lemma compareRowsBy_cons_eq_lt_iff : compareRowsBy (k :: ks) a b = .lt ↔
    k.Precedes a b ∨ k.Ties a b ∧ compareRowsBy ks a b = .lt :=
  compareRowsBy_cons_iff (· = .lt) rfl (by decide)

lemma isLE_compareRowsBy_cons_iff : (compareRowsBy (k :: ks) a b).isLE ↔
    k.Precedes a b ∨ k.Ties a b ∧ (compareRowsBy ks a b).isLE :=
  compareRowsBy_cons_iff (·.isLE) rfl (by decide)

/-- Three rows go in a circle: the first one is before the last one by a key, but ties with the row
between them, as that one does with the last, and the other keys lead back from the last row to the
first. -/
inductive Tangled : List OrderKey → Document → Document → Document → Prop
  /-- The key tells none of the rows apart. -/
  | later {k : OrderKey} {ks : List OrderKey} {a b c : Document} (hab : k.Ties a b)
      (hbc : k.Ties b c) (hac : k.Ties a c) (h : Tangled ks a b c) : Tangled (k :: ks) a b c
  /-- The key finds values of different types. -/
  | mixed {k : OrderKey} {ks : List OrderKey} {a b c : Document} (h : k.Mixes a b c)
      (hcb : (compareRowsBy ks c b).isLE) (hba : (compareRowsBy ks b a).isLE) :
      Tangled (k :: ks) a b c

/-- Tangled rows go in a circle. -/
lemma Tangled.circle (h : Tangled ks a b c) : (compareRowsBy ks c b).isLE ∧
    (compareRowsBy ks b a).isLE ∧ compareRowsBy ks a c = .lt := by
  induction h with
  | later hab hbc hac _ ih =>
    rwa [compareRowsBy_cons_of_ties hbc.symm, compareRowsBy_cons_of_ties hab.symm,
      compareRowsBy_cons_of_ties hac]
  | mixed h hcb hba =>
    rw [compareRowsBy_cons_of_ties h.ties_right.symm, compareRowsBy_cons_of_ties h.ties_left.symm,
      compareRowsBy_cons_of_precedes h.precedes]
    exact ⟨hcb, hba, rfl⟩

/-- **Rows that go in a circle are tangled**, from one of them on. -/
lemma tangled_of_circle (hcb : (compareRowsBy ks c b).isLE) (hba : (compareRowsBy ks b a).isLE)
    (hac : compareRowsBy ks a c = .lt) :
    Tangled ks a b c ∨ Tangled ks b c a ∨ Tangled ks c a b := by
  induction ks with
  | nil => contradiction
  | cons k ks ih =>
    rw [isLE_compareRowsBy_cons_iff] at hcb hba
    rw [compareRowsBy_cons_eq_lt_iff] at hac
    -- a key that tells one pair of the three apart must tie the other two pairs
    rcases hcb with hcb | ⟨hcb, hcb'⟩ <;> rcases hba with hba | ⟨hba, hba'⟩ <;>
      rcases hac with hac | ⟨hac, hac'⟩
    · exact absurd (hcb.trans hba) hac.asymm
    · exact absurd hac.symm (hcb.trans hba).not_ties
    · exact absurd hba.symm (hac.trans hcb).not_ties
    · have hac'' := Ordering.isLE_of_eq_lt hac'
      exact .inr (.inr (.mixed (hcb.mixes hac.symm hba.symm) hba' hac''))
    · exact absurd hcb.symm (hba.trans hac).not_ties
    · have hac'' := Ordering.isLE_of_eq_lt hac'
      exact .inr (.inl (.mixed (hba.mixes hcb.symm hac.symm) hac'' hcb'))
    · exact .inl (.mixed (hac.mixes hba.symm hcb.symm) hcb' hba')
    · rcases ih hcb' hba' hac' with h | h | h
      · exact .inl (.later hba.symm hcb.symm hac h)
      · exact .inr (.inl (.later hcb.symm hac.symm hba h))
      · exact .inr (.inr (.later hac.symm hba.symm hcb h))

/-! ## Total preorders -/

/-- The order by some keys is a total preorder on a set of rows. -/
structure Orders (ks : List OrderKey) (S : Set Document) : Prop where
  /-- Turned around, rows compare the other way. -/
  swap : ∀ a ∈ S, ∀ b ∈ S, compareRowsBy ks b a = (compareRowsBy ks a b).swap
  /-- What is not after a row is not after what comes later than the row. -/
  le_trans : ∀ a ∈ S, ∀ b ∈ S, ∀ c ∈ S, (compareRowsBy ks a b).isLE →
    (compareRowsBy ks b c).isLE → (compareRowsBy ks a c).isLE
  /-- What ties with a row ties with what the row ties with. -/
  eq_trans : ∀ a ∈ S, ∀ b ∈ S, ∀ c ∈ S, compareRowsBy ks a b = .eq →
    compareRowsBy ks b c = .eq → compareRowsBy ks a c = .eq

lemma orders_of_le_trans (h : ∀ a ∈ S, ∀ b ∈ S, ∀ c ∈ S, (compareRowsBy ks a b).isLE →
    (compareRowsBy ks b c).isLE → (compareRowsBy ks a c).isLE) : Orders ks S := by
  refine ⟨fun a _ b _ => compareRowsBy_swap ks a b, h, fun a ha b hb c hc hab hbc => ?_⟩
  have hac := h a ha b hb c hc (hab ▸ rfl) (hbc ▸ rfl)
  have hba : compareRowsBy ks b a = .eq := by rw [compareRowsBy_swap, hab, Ordering.swap_eq]
  have hcb : compareRowsBy ks c b = .eq := by rw [compareRowsBy_swap, hbc, Ordering.swap_eq]
  have hca := h c hc b hb a ha (hcb ▸ rfl) (hba ▸ rfl)
  rw [compareRowsBy_swap ks a c] at hca
  cases hcompare : compareRowsBy ks a c <;> simp [hcompare] at hac hca ⊢

lemma Orders.mono {T : Set Document} (h : Orders ks T) (hST : S ⊆ T) : Orders ks S :=
  ⟨fun a ha b hb => h.swap a (hST ha) b (hST hb),
    fun a ha b hb c hc => h.le_trans a (hST ha) b (hST hb) c (hST hc),
    fun a ha b hb c hc => h.eq_trans a (hST ha) b (hST hb) c (hST hc)⟩

/-- **The order is a total preorder on rows of which no three are tangled.** -/
lemma orders_iff_not_tangled :
    Orders ks S ↔ ∀ a ∈ S, ∀ b ∈ S, ∀ c ∈ S, ¬Tangled ks a b c := by
  constructor
  · intro h a ha b hb c hc htangled
    obtain ⟨hcb, hba, hac⟩ := htangled.circle
    have hca := h.le_trans c hc b hb a ha hcb hba
    rw [compareRowsBy_swap ks a c, hac] at hca
    contradiction
  · intro h
    refine orders_of_le_trans fun a ha b hb c hc hab hbc => ?_
    by_contra hac
    have hca : compareRowsBy ks c a = .lt := by
      rw [compareRowsBy_swap ks a c]
      cases hcompare : compareRowsBy ks a c <;> simp [hcompare] at hac ⊢
    rcases tangled_of_circle hab hbc hca with h' | h' | h'
    · exact h c hc b hb a ha h'
    · exact h b hb a ha c hc h'
    · exact h a ha c hc b hb h'

/-- The values that rows have under a name are all numbers, all texts or all truth values. -/
def OneType (S : Set Document) (name : String) : Prop :=
  (∀ r ∈ S, (r.valueAt name).isNull ∨ (∃ i, r.valueAt name = .int i) ∨
    ∃ x, r.valueAt name = .float x) ∨
  (∀ r ∈ S, (r.valueAt name).isNull ∨ ∃ s, r.valueAt name = .text s) ∨
  ∀ r ∈ S, (r.valueAt name).isNull ∨ ∃ x, r.valueAt name = .bool x

lemma OneType.exists_compare? {name : String} (h : OneType S name) (ha : a ∈ S) (hb : b ∈ S)
    (hna : (a.valueAt name).isNull = false) (hnb : (b.valueAt name).isNull = false) :
    ∃ o, (a.valueAt name).compare? (b.valueAt name) = some o := by
  simp only [OneType] at h
  rcases h with h | h | h
  · have ha := (h a ha).resolve_left (by simp [hna])
    have hb := (h b hb).resolve_left (by simp [hnb])
    rcases ha with ⟨i, ha⟩ | ⟨x, ha⟩ <;> rcases hb with ⟨j, hb⟩ | ⟨y, hb⟩ <;> rw [ha, hb] <;>
      exact ⟨_, rfl⟩
  · obtain ⟨s, ha⟩ := (h a ha).resolve_left (by simp [hna])
    obtain ⟨t, hb⟩ := (h b hb).resolve_left (by simp [hnb])
    exact ⟨_, by rw [ha, hb]; rfl⟩
  · obtain ⟨x, ha⟩ := (h a ha).resolve_left (by simp [hna])
    obtain ⟨y, hb⟩ := (h b hb).resolve_left (by simp [hnb])
    exact ⟨_, by rw [ha, hb]; rfl⟩

lemma Tangled.exists_mixes (h : Tangled ks a b c) : ∃ k ∈ ks, k.Mixes a b c := by
  induction h with
  | later _ _ _ _ ih =>
    obtain ⟨k, hk, h⟩ := ih
    exact ⟨k, List.mem_cons_of_mem _ hk, h⟩
  | mixed h => exact ⟨_, List.mem_cons_self .., h⟩

/-- Where each key finds values of one type, the order is a total preorder. -/
lemma orders_of_oneType (h : ∀ k ∈ ks, OneType S k.field) : Orders ks S := by
  refine orders_iff_not_tangled.mpr fun a ha b hb c hc htangled => ?_
  obtain ⟨k, hk, hmixes⟩ := htangled.exists_mixes
  have hna := (isNull_of_compare? hmixes.ahead).1
  obtain ⟨o, ho⟩ := (h k hk).exists_compare? ha hb hna hmixes.present
  simp [hmixes.left] at ho

/-! ## All rows -/

/-- A row with one member. -/
def single (name : String) (value : Document) : Document := .object [(name, value)]

lemma valueAt_single_self (name : String) (value : Document) :
    (single name value).valueAt name = value := by
  simp [single, valueAt, get?, Entries.get?]

lemma valueAt_single_of_ne {name key : String} (h : name ≠ key) (value : Document) :
    (single name value).valueAt key = .null := by
  simp [single, valueAt, get?, Entries.get?, h]

lemma ties_number_text (k : OrderKey) (name s : String) (i : Int) :
    k.Ties (single name (.int i)) (single name (.text s)) := by
  by_cases h : name = k.field
  · refine .unordered ?_ ?_ ?_ <;> simp only [← h, valueAt_single_self] <;> rfl
  · refine .missing ?_ ?_ <;> simp only [valueAt_single_of_ne h] <;> rfl

/-- A number ties with every text, by any keys. -/
lemma compareRowsBy_number_text (ks : List OrderKey) (name s : String) (i : Int) :
    compareRowsBy ks (single name (.int i)) (single name (.text s)) = .eq := by
  induction ks with
  | nil => rfl
  | cons k ks ih => rw [compareRowsBy_cons_of_ties (ties_number_text k name s i), ih]

/-- All rows are in order only if there are no keys. -/
lemma orders_univ_iff : Orders ks Set.univ ↔ ks = [] := by
  constructor
  · intro h
    cases ks with
    | nil => rfl
    | cons k ks =>
      have htext : compareRowsBy (k :: ks) (single k.field (.text "")) (single k.field (.int 1)) =
          .eq := by rw [compareRowsBy_swap, compareRowsBy_number_text, Ordering.swap_eq]
      have heq := h.eq_trans _ trivial _ trivial _ trivial
        (compareRowsBy_number_text (k :: ks) k.field "" 0) htext
      have hlt : ((single k.field (.int 0)).valueAt k.field).compare?
          ((single k.field (.int 1)).valueAt k.field) = some .lt := by
        rw [valueAt_single_self, valueAt_single_self]
        decide
      rw [compareRowsBy, compareRows_of_compare? hlt] at heq
      cases hk : k.descending <;> simp [hk] at heq
  · rintro rfl
    exact orders_of_le_trans fun _ _ _ _ _ _ _ _ => rfl

/-- **When rows can be sorted.**  Turned around, two rows always compare the other way.  The order
is a total preorder on a set of rows exactly if no three of them are tangled, so it is one where
each key finds values of one type.  On all rows it is one only without keys. -/
theorem orders_iff (ks : List OrderKey) :
    (∀ a b, compareRowsBy ks b a = (compareRowsBy ks a b).swap) ∧
      (∀ S : Set Document, Orders ks S ↔ ∀ a ∈ S, ∀ b ∈ S, ∀ c ∈ S, ¬Tangled ks a b c) ∧
      (∀ S : Set Document, (∀ k ∈ ks, OneType S k.field) → Orders ks S) ∧
      (Orders ks Set.univ ↔ ks = []) :=
  ⟨compareRowsBy_swap ks, fun _ => orders_iff_not_tangled, fun _ => orders_of_oneType,
    orders_univ_iff⟩

/-- A number and a text can be sorted: it takes a second number to tangle them. -/
theorem orders_iff_twoRatings :
    let S : Set Document := {single "rating" (.int 1), single "rating" (.text "good")}
    (∀ a ∈ S, ∀ b ∈ S, ∀ c ∈ S, ¬Tangled [⟨"rating", true⟩] a b c) ∧
      Orders [⟨"rating", true⟩] S := by
  intro S
  have huntangled : ∀ a ∈ S, ∀ b ∈ S, ∀ c ∈ S, ¬Tangled [⟨"rating", true⟩] a b c := by
    intro a ha b hb c hc h
    obtain ⟨k, hk, hmixes⟩ := h.exists_mixes
    obtain rfl := List.mem_singleton.mp hk
    have hahead := hmixes.ahead
    rcases ha with rfl | rfl <;> rcases hc with rfl | rfl <;> revert hahead <;> decide
  exact ⟨huntangled, ((orders_iff [⟨"rating", true⟩]).2.1 S).mpr huntangled⟩

/-- A text ties with both 1 and 0. -/
theorem orders_not_always : ¬∀ ks : List OrderKey, Orders ks Set.univ := by
  intro h
  have htrans := (h [⟨"rating", false⟩]).le_trans (single "rating" (.int 1)) trivial
    (single "rating" (.text "good")) trivial (single "rating" (.int 0)) trivial
  revert htrans
  decide

end OrderKey

end EntityFilter
