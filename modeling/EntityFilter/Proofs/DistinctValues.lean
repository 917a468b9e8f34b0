import EntityFilter.Aggregate
import EntityFilter.Proofs.EqualDocuments
import EntityFilter.Proofs.PrintedDocuments
import Mathlib.Data.Set.Card

/-!
# Counting distinct values

Equality of documents is an equivalence (`Document.equality`), and the distinct values of a column
are its classes (`Document.classCount`).  The count of distinct values goes by the printed texts
instead, and two documents have the same text only if they are the same
(`AggregateFunction.compute_countDistinct`).  So equal documents count once exactly if they are
written alike (`AggregateFunction.countDistinct_exact_iff`): an object is counted again for every
order of its members, and so are the two zeros (`AggregateFunction.countDistinct_not_always_exact`).
Among documents with sorted members and without minus zero the count is right.
-/

namespace EntityFilter

namespace Document

variable {a b c d : Document} {ds : List Document}

/-! ## Equality as an equivalence -/

lemma equal_self (d : Document) : d.Equal d := by
  induction d using of_parts with
  | scalar d hscalar =>
    cases d with
    | null => exact .null
    | bool b => exact .bool b
    | int i => exact .int i
    | float x => exact .float rfl
    | text s => exact .text s
    | array | object => cases hscalar
  | array items ih => exact .array rfl fun i hi _ => ih _ (List.getElem_mem hi)
  | object ms ih =>
    refine .object (fun _ => rfl) fun key x y hx hy => ?_
    obtain rfl := Option.some.inj (hx.symm.trans hy)
    exact ih _ (Entries.mem_of_get? hx)

lemma Equal.symm (h : a.Equal b) : b.Equal a := by
  induction h with
  | null => exact .null
  | bool b => exact .bool b
  | int i => exact .int i
  | float hvalue => exact .float hvalue.symm
  | text s => exact .text s
  | array hlength _ ih => exact .array hlength.symm fun i hb ha => ih i ha hb
  | object hkeys _ ih =>
    exact .object (fun key => (hkeys key).symm) fun key y x hy hx => ih key x y hx hy

lemma Equal.trans (h : a.Equal b) (h' : b.Equal c) : a.Equal c := by
  induction h generalizing c with
  | null | bool | int | text => exact h'
  | float hvalue =>
    cases h' with
    | float hvalue' => exact .float (hvalue.trans hvalue')
  | array hlength _ ih =>
    cases h' with
    | array hlength' hitems' =>
      exact .array (hlength.trans hlength') fun i ha hc =>
        ih i ha (hlength ▸ ha) (hitems' i (hlength ▸ ha) hc)
  | object hkeys _ ih =>
    cases h' with
    | object hkeys' hmembers' =>
      refine .object (fun key => (hkeys key).trans (hkeys' key)) fun key x z hx hz => ?_
      obtain ⟨y, hy⟩ : ∃ y, Entries.get? key _ = some y :=
        Option.isSome_iff_exists.mp ((hkeys key).symm.trans (Option.isSome_iff_exists.mpr ⟨x, hx⟩))
      exact ih key x y hx hy (hmembers' key y z hy hz)

/-- Equality of documents. -/
def equality : Setoid Document := ⟨Equal, equal_self, Equal.symm, Equal.trans⟩

/-- The number of different documents in a list. -/
noncomputable def documentCount (ds : List Document) : Nat := {d | d ∈ ds}.ncard

/-- The number of documents in a list that are not equal. -/
noncomputable def classCount (ds : List Document) : Nat :=
  ((fun d => Quotient.mk equality d) '' {d | d ∈ ds}).ncard

lemma classCount_le (ds : List Document) : classCount ds ≤ documentCount ds :=
  Set.ncard_image_le ds.finite_toSet

lemma documentCount_le (ds : List Document) : documentCount ds ≤ ds.length := by
  induction ds with
  | nil => simp [documentCount]
  | cons d ds ih =>
    have hinsert : {x | x ∈ d :: ds} = Insert.insert d {x | x ∈ ds} := by
      ext x
      simp
    rw [documentCount, hinsert]
    exact (Set.ncard_insert_le _ _).trans (Nat.succ_le_succ ih)

/-- Both numbers are the same exactly if no two different documents are equal. -/
lemma documentCount_eq_iff :
    documentCount ds = classCount ds ↔ ∀ a ∈ ds, ∀ b ∈ ds, a.Equal b → a = b := by
  rw [eq_comm, classCount, documentCount, Set.ncard_image_iff ds.finite_toSet]
  constructor
  · intro hinj a ha b hb hequal
    exact hinj ha hb (Quotient.sound hequal)
  · intro hsame a ha b hb hclass
    exact hsame a ha b hb (Quotient.exact hclass)

/-! ## One way of writing a document -/

/-- No double of a document is minus zero, which is equal to zero. -/
def NoMinusZero (d : Document) : Prop := ∀ x, Within (float x) d → x.toBits.toNat ≠ Binary64.signBit

lemma NoMinusZero.item {items : List Document} (h : (array items).NoMinusZero) (hd : d ∈ items) :
    d.NoMinusZero :=
  fun x hx => h x (.item hd hx)

lemma NoMinusZero.member {m : String × Document} {ms : List (String × Document)}
    (h : (object ms).NoMinusZero) (hm : m ∈ ms) : m.2.NoMinusZero :=
  fun x hx => h x (.member hm hx)

lemma eq_of_orderKey_eq {x y : Float} (h : Binary64.orderKey x = Binary64.orderKey y)
    (hx : x.toBits.toNat ≠ Binary64.signBit) (hy : y.toBits.toNat ≠ Binary64.signBit) : x = y := by
  refine Binary64.eq_of_toBits ?_
  unfold Binary64.orderKey at h
  dsimp only at h
  split at h <;> split at h <;> omega

/-- Equal documents without minus zero differ in the order of members only. -/
lemma Equal.reordered (h : a.Equal b) (ha : a.WellFormed) (hb : b.WellFormed)
    (hza : a.NoMinusZero) (hzb : b.NoMinusZero) : a.Reordered b := by
  induction h with
  | null | bool | int | text => rfl
  | float hvalue =>
    have hsame := eq_of_orderKey_eq hvalue (hza _ (.self _)) (hzb _ (.self _))
    subst hsame
    rfl
  | @array as bs hlength _ ih =>
    rw [Reordered, itemsReordered_iff, List.forall₂_iff_get]
    refine ⟨hlength, fun i hi hj => ?_⟩
    have hmem : as[i] ∈ as := List.getElem_mem hi
    have hmem' : bs[i] ∈ bs := List.getElem_mem hj
    exact ih i hi hj (itemsWellFormed_iff.mp ha _ hmem) (itemsWellFormed_iff.mp hb _ hmem')
      (hza.item hmem) (hzb.item hmem')
  | @object as bs hkeys hmembers ih =>
    rw [Reordered, membersReordered_iff]
    refine ⟨length_eq_of_contains_eq ha.1 hb.1 hkeys, fun m hm => ?_⟩
    have hx := Entries.get?_of_mem ha.1 hm
    obtain ⟨y, hy⟩ : ∃ y, Entries.get? m.1 bs = some y :=
      Option.isSome_iff_exists.mp
        ((hkeys m.1).symm.trans (Option.isSome_iff_exists.mpr ⟨m.2, hx⟩))
    have hymem := Entries.mem_of_get? hy
    exact ⟨y, hy, ih m.1 m.2 y hx hy (membersWellFormed_iff.mp ha.2 m hm)
      (membersWellFormed_iff.mp hb.2 _ hymem) (hza.member hm) (hzb.member hymem)⟩

/-- What is written with sorted members and without minus zero. -/
structure InOrder (d : Document) : Prop where
  wellFormed : d.WellFormed
  canonical_eq : d.canonical = d
  noMinusZero : d.NoMinusZero

/-- **Sorted members leave one way of writing a document.** -/
lemma InOrder.eq_of_equal (ha : a.InOrder) (hb : b.InOrder) (h : a.Equal b) : a = b := by
  have hreordered :=
    h.reordered ha.wellFormed hb.wellFormed ha.noMinusZero hb.noMinusZero
  rw [← ha.canonical_eq, hreordered.canonical_eq ha.wellFormed hb.wellFormed, hb.canonical_eq]

end Document

namespace AggregateFunction

open Document

variable {values : List Document}

/-! ## Counting texts -/

lemma nodup_eraseDups : ∀ ss : List String, ss.eraseDups.Nodup
  | [] => List.nodup_nil
  | s :: ss => by
    rw [List.eraseDups_cons, List.nodup_cons, List.mem_eraseDups]
    exact ⟨by simp, nodup_eraseDups _⟩
termination_by ss => ss.length
decreasing_by exact Nat.lt_succ_of_le (List.length_filter_le ..)

lemma length_eraseDups (ss : List String) : ss.eraseDups.length = {s | s ∈ ss}.ncard := by
  have hmem : {s | s ∈ ss} = ss.eraseDups.toFinset := by
    ext s
    simp
  rw [hmem, Set.ncard_coe_finset, List.toFinset_card_of_nodup (nodup_eraseDups ss)]

/-- **The count of distinct values** is the number of different documents. -/
lemma compute_countDistinct (hfinite : ∀ d ∈ values, d.AllFinite) :
    countDistinct.compute values = .int (documentCount (values.filter (!·.isNull))) := by
  have himage : {s | s ∈ (values.filter (!·.isNull)).map Document.print} =
      Document.print '' {d | d ∈ values.filter (!·.isNull)} := by
    ext s
    simp
  have hinj : Set.InjOn Document.print {d | d ∈ values.filter (!·.isNull)} :=
    fun a ha b hb h => eq_of_print_eq (hfinite a (List.mem_of_mem_filter ha))
      (hfinite b (List.mem_of_mem_filter hb)) h
  rw [documentCount, ← hinj.ncard_image, ← himage, ← length_eraseDups]
  rfl

/-- **When the distinct values are counted.**  The count is the number of different documents that
are not null.  There are never fewer of them than classes of equal documents, and never more than
values; there are as many as classes exactly if equal documents are the same, which they are if all
members are sorted and no double is minus zero. -/
theorem countDistinct_exact_iff (hfinite : ∀ d ∈ values, d.AllFinite) :
    let present := values.filter (!·.isNull)
    ∃ n : Nat, countDistinct.compute values = .int n ∧ n = documentCount present ∧
      classCount present ≤ n ∧ n ≤ present.length ∧ count.compute values = .int present.length ∧
      (n = classCount present ↔ ∀ a ∈ present, ∀ b ∈ present, a.Equal b → a = b) ∧
      ((∀ d ∈ present, d.InOrder) → n = classCount present) := by
  intro present
  refine ⟨_, compute_countDistinct hfinite, rfl, classCount_le _, documentCount_le _, rfl,
    documentCount_eq_iff, fun horder => documentCount_eq_iff.mpr fun a ha b hb => ?_⟩
  exact (horder a ha).eq_of_equal (horder b hb)

/-- An integer, a double and a text are three values, and a null is none. -/
theorem countDistinct_exact_iff_numbers :
    let values := [.int 1, .null, .float 1.0, .text "1", .int 1]
    (∀ d ∈ values, d.AllFinite) ∧
      countDistinct.compute values = .int (classCount (values.filter (!·.isNull))) := by
  intro values
  have hscalar : ∀ d ∈ values, d.isScalar := by decide
  have hfloat : ∀ x : Float, .float x ∈ values → x = 1.0 := by simp [values]
  have hwithin : ∀ d ∈ values, ∀ x, Within (.float x) d → x = 1.0 := fun d hd x hx =>
    hfloat x (hx.eq_of_isScalar (hscalar d hd) ▸ hd)
  have hfinite : ∀ d ∈ values, d.AllFinite := fun d hd x hx => hwithin d hd x hx ▸ rfl
  have horder : ∀ d ∈ values.filter (!·.isNull), d.InOrder := fun d hd => by
    have hmem := List.mem_of_mem_filter hd
    have hd := hscalar d hmem
    refine ⟨?_, canonical_of_isScalar hd, fun x hx => hwithin d hmem x hx ▸ by decide⟩
    cases d with
    | array | object => cases hd
    | _ => trivial
  obtain ⟨n, hn, -, -, -, -, -, hclasses⟩ := countDistinct_exact_iff hfinite
  rw [hn, hclasses horder]
  exact ⟨hfinite, rfl⟩

/-- One object in two orders of its members. -/
def reversed : List Document :=
  [.object [("a", .int 1), ("b", .int 2)], .object [("b", .int 2), ("a", .int 1)]]

lemma wellFormed_and_allFinite_reversed : ∀ d ∈ reversed, d.WellFormed ∧ d.AllFinite := by
  have hobject : ∀ d ∈ reversed, ∃ ms, d = .object ms ∧ (Entries.keys ms).Nodup ∧
      ∀ m ∈ ms, ∃ i, m.2 = .int i := by
    simp [reversed, Entries.keys, or_imp, forall_and]
  intro d hd
  obtain ⟨ms, rfl, hkeys, hints⟩ := hobject d hd
  refine ⟨⟨hkeys, membersWellFormed_iff.mpr fun m hm => ?_⟩, fun x hx => ?_⟩
  · obtain ⟨i, hi⟩ := hints m hm
    rw [hi]
    trivial
  · cases hx with
    | member hm hx =>
      obtain ⟨i, hi⟩ := hints _ hm
      rw [hi] at hx
      cases hx

/-- An object counts once for each order of its members. -/
theorem countDistinct_not_always_exact :
    ¬∀ values : List Document, (∀ d ∈ values, d.WellFormed ∧ d.AllFinite) →
      countDistinct.compute values = .int (classCount (values.filter (!·.isNull))) := by
  intro h
  have hvalues := wellFormed_and_allFinite_reversed
  have hclasses := h reversed hvalues
  rw [compute_countDistinct fun d hd => (hvalues d hd).2, Document.int.injEq] at hclasses
  obtain ⟨hfirst, hsecond⟩ : reversed[0] ∈ reversed ∧ reversed[1] ∈ reversed :=
    ⟨List.getElem_mem _, List.getElem_mem _⟩
  have hequal : reversed[0].Equal reversed[1] :=
    (same_iff_equal (hvalues _ hfirst).1 (hvalues _ hsecond).1).mp (by decide)
  have hsame := documentCount_eq_iff.mp (Int.ofNat_inj.mp hclasses) _ hfirst _ hsecond hequal
  simp [reversed] at hsame

end AggregateFunction

end EntityFilter
