import EntityFilter.Aggregate
import EntityFilter.Proofs.WrittenDates

/-!
# The least and the greatest value of a column

A column can hold values of different types, and only values of one type are ordered: numbers by the
doubles nearest to them, texts, truth values.  The search for the best value keeps the first present
value until another one that is ordered with it beats it, so the type is settled by the first value.

What is found is a present value that no present value beats (`AggregateFunction.finds_extremes`).
The search is a fold, and what it ends with is the value it started with or beats it
(`AggregateFunction.Best`): this is where the order has to be transitive.  Among texts, and among
truth values, two values that do not beat each other are the same, so there the order of the column
does not count.
-/

namespace EntityFilter

namespace Document

variable {a b c d : Document} {o : Ordering}

/-! ## The order of documents -/

/-- Two documents of one type and how they are ordered. -/
inductive Ordered : Document → Document → Ordering → Prop
  | text {s t : String} {o : Ordering} (h : compare s.toList t.toList = o) :
    Ordered (text s) (text t) o
  | bool {x y : Bool} {o : Ordering} (h : compare x.toNat y.toNat = o) :
    Ordered (bool x) (bool y) o
  | number {a b : Document} {x y : Int} {o : Ordering} (ha : a.numberKey? = some x)
    (hb : b.numberKey? = some y) (h : compare x y = o) : Ordered a b o

lemma compare?_eq_some_iff : a.compare? b = some o ↔ Ordered a b o := by
  constructor
  · intro h
    unfold compare? at h
    split at h
    · rw [compareText_eq] at h
      exact .text (Option.some.inj h)
    · exact .bool (Option.some.inj h)
    · split at h
      · next ha hb => exact .number ha hb (Option.some.inj h)
      · contradiction
  · intro h
    cases h with
    | text h => rw [compare?, compareText_eq, h]
    | bool h => rw [compare?, h]
    | number ha hb h =>
      cases a with
      | int | float => simp only [compare?, ha, hb, h]
      | _ => simp [numberKey?] at ha

lemma compare_trans {α : Type} [Ord α] [Std.TransOrd α] {x y z : α} (hxy : compare x y = o)
    (hyz : compare y z = o) : compare x z = o := by
  cases o with
  | lt => exact Std.TransCmp.lt_trans hxy hyz
  | eq => exact Std.TransCmp.eq_trans hxy hyz
  | gt => exact Std.TransCmp.gt_trans hxy hyz

/-- **The order of documents is transitive**, in each of its three answers. -/
theorem compare?_trans (hab : a.compare? b = some o) (hbc : b.compare? c = some o) :
    a.compare? c = some o := by
  rw [compare?_eq_some_iff] at hab hbc ⊢
  cases hab with
  | text h =>
    cases hbc with
    | text h' => exact .text (compare_trans h h')
    | number hb => simp [numberKey?] at hb
  | bool h =>
    cases hbc with
    | bool h' => exact .bool (compare_trans h h')
    | number hb => simp [numberKey?] at hb
  | number ha hb h =>
    cases hbc with
    | number hb' hc h' =>
      obtain rfl := Option.some.inj (hb.symm.trans hb')
      exact .number ha hc (compare_trans h h')
    | _ => simp [numberKey?] at hb

/-- No document is before or after itself. -/
lemma compare?_self_ne (ho : o ≠ .eq) (d : Document) : d.compare? d ≠ some o := by
  rw [Ne, compare?_eq_some_iff]
  intro h
  cases h with
  | text h | bool h => exact ho (h.symm.trans Std.ReflCmp.compare_self)
  | number ha hb h =>
    obtain rfl := Option.some.inj (ha.symm.trans hb)
    exact ho (h.symm.trans Std.ReflCmp.compare_self)

lemma eq_of_compare_ne {α : Type} [Ord α] [Std.TransOrd α] [Std.LawfulEqOrd α] {x y : α}
    (ho : o ≠ .eq) (hxy : compare x y ≠ o) (hyx : compare y x ≠ o) : x = y := by
  have hswap : compare y x = (compare x y).swap := Std.OrientedCmp.eq_swap
  rw [hswap] at hyx
  cases hcompare : compare x y with
  | eq => exact Std.compare_eq_iff_eq.mp hcompare
  | lt | gt =>
    rw [hcompare] at hxy hyx
    cases o <;> contradiction

/-- Texts of which neither is before the other one are the same, and so are truth values. -/
lemma eq_of_compare?_ne (ho : o ≠ .eq) (hab : a.compare? b ≠ some o) (hba : b.compare? a ≠ some o)
    (htype : (∃ s t, a = text s ∧ b = text t) ∨ ∃ x y, a = bool x ∧ b = bool y) : a = b := by
  rw [Ne, compare?_eq_some_iff] at hab hba
  rcases htype with ⟨s, t, rfl, rfl⟩ | ⟨x, y, rfl, rfl⟩
  · have hst : s.toList = t.toList :=
      eq_of_compare_ne ho (fun h => hab (.text h)) fun h => hba (.text h)
    rw [String.toList_inj.mp hst]
  · have hxy : x.toNat = y.toNat :=
      eq_of_compare_ne ho (fun h => hab (.bool h)) fun h => hba (.bool h)
    cases x <;> cases y <;> simp at hxy ⊢

end Document

namespace AggregateFunction

open Document

variable {pick : Ordering} {d r v : Document} {ds values values' : List Document}

/-! ## The search -/

/-- The best value so far and the next one. -/
def keep (pick : Ordering) (best v : Document) : Document :=
  if v.compare? best = some pick then v else best

/-- What the search through a column ends with, when it starts with a value. -/
structure Best (pick : Ordering) (d : Document) (ds : List Document) (r : Document) : Prop where
  /-- It is the first value or beats it. -/
  beats : r = d ∨ r.compare? d = some pick
  /-- It stands in the column. -/
  mem : r ∈ d :: ds
  /-- No value beats it. -/
  unbeaten : ∀ v ∈ d :: ds, v.compare? r ≠ some pick

lemma best_foldl (hpick : pick ≠ .eq) (d : Document) (ds : List Document) :
    Best pick d ds (ds.foldl (keep pick) d) := by
  induction ds generalizing d with
  | nil => exact ⟨.inl rfl, List.mem_cons_self .., by simpa using compare?_self_ne hpick d⟩
  | cons v ds ih =>
    rw [List.foldl_cons]
    by_cases hv : v.compare? d = some pick
    · rw [keep, if_pos hv]
      obtain ⟨hbeats, hmem, hunbeaten⟩ := ih v
      have hd : (ds.foldl (keep pick) v).compare? d = some pick := by
        rcases hbeats with h | h
        · rwa [h]
        · exact compare?_trans h hv
      refine ⟨.inr hd, List.mem_cons_of_mem _ hmem,
        List.forall_mem_cons.mpr ⟨fun h => ?_, hunbeaten⟩⟩
      exact compare?_self_ne hpick d (compare?_trans h hd)
    · rw [keep, if_neg hv]
      obtain ⟨hbeats, hmem, hunbeaten⟩ := ih d
      rw [List.forall_mem_cons] at hunbeaten
      refine ⟨hbeats, ?_, ?_⟩
      · rcases List.mem_cons.mp hmem with h | h
        · exact List.mem_cons.mpr (.inl h)
        · exact List.mem_cons_of_mem _ (List.mem_cons_of_mem _ h)
      · refine List.forall_mem_cons.mpr
          ⟨hunbeaten.1, List.forall_mem_cons.mpr ⟨fun h => ?_, hunbeaten.2⟩⟩
        rcases hbeats with heq | hbeats
        · exact hv (heq ▸ h)
        · exact hv (compare?_trans h hbeats)

lemma mem_present : v ∈ values.filter (!·.isNull) ↔ v ∈ values ∧ v.isNull = false := by
  simp

lemma extreme_of_forall_isNull (h : ∀ v ∈ values, v.isNull) :
    extreme pick (values.filter (!·.isNull)) = .null := by
  have hnone : values.filter (!·.isNull) = [] :=
    List.filter_eq_nil_iff.mpr fun v hv => by simp [h v hv]
  rw [hnone]
  rfl

/-- The search through a column that has a present value. -/
lemma extreme_spec (hpick : pick ≠ .eq) (h : ∃ v ∈ values, v.isNull = false) :
    extreme pick (values.filter (!·.isNull)) ∈ values.filter (!·.isNull) ∧
      ∀ v ∈ values, v.isNull = false →
        v.compare? (extreme pick (values.filter (!·.isNull))) ≠ some pick := by
  obtain ⟨v, hv, hpresent⟩ := h
  have hmem : v ∈ values.filter (!·.isNull) := mem_present.mpr ⟨hv, hpresent⟩
  cases hvalues : values.filter (!·.isNull) with
  | nil => simp [hvalues] at hmem
  | cons d ds =>
    have hbest : Best pick d ds (extreme pick (d :: ds)) := best_foldl hpick d ds
    refine ⟨hbest.mem, fun w hw hpresent' => hbest.unbeaten w ?_⟩
    exact hvalues ▸ mem_present.mpr ⟨hw, hpresent'⟩

/-! ## Least and greatest values -/

/-- All present values are texts, or all are truth values. -/
def OfOneType (values : List Document) : Prop :=
  (∀ v ∈ values, v.isNull = false → ∃ s, v = .text s) ∨
    ∀ v ∈ values, v.isNull = false → ∃ b, v = .bool b

/-- A function finds a best value of each column. -/
structure FindsBest (f : AggregateFunction) (pick : Ordering) : Prop where
  /-- There is none exactly if no value is present. -/
  null_iff (values : List Document) : f.compute values = .null ↔ ∀ v ∈ values, v.isNull
  /-- It stands in the column. -/
  mem (values : List Document) : f.compute values ≠ .null → f.compute values ∈ values
  /-- No present value beats it. -/
  unbeaten (values : List Document) :
    ∀ v ∈ values, v.isNull = false → v.compare? (f.compute values) ≠ some pick
  /-- Among texts and among truth values the order of the column does not count. -/
  eq_of_perm (values values' : List Document) : OfOneType values → values.Perm values' →
    f.compute values = f.compute values'

lemma OfOneType.of_mem (h : OfOneType values) (hd : d ∈ values.filter (!·.isNull))
    (hr : r ∈ values.filter (!·.isNull)) :
    (∃ s t, d = .text s ∧ r = .text t) ∨ ∃ x y, d = .bool x ∧ r = .bool y := by
  obtain ⟨hd, hd'⟩ := mem_present.mp hd
  obtain ⟨hr, hr'⟩ := mem_present.mp hr
  rcases h with h | h
  · obtain ⟨s, rfl⟩ := h d hd hd'
    obtain ⟨t, rfl⟩ := h r hr hr'
    exact .inl ⟨s, t, rfl, rfl⟩
  · obtain ⟨x, rfl⟩ := h d hd hd'
    obtain ⟨y, rfl⟩ := h r hr hr'
    exact .inr ⟨x, y, rfl, rfl⟩

lemma extreme_eq_of_perm (hpick : pick ≠ .eq) (htype : OfOneType values)
    (hperm : values.Perm values') :
    extreme pick (values.filter (!·.isNull)) = extreme pick (values'.filter (!·.isNull)) := by
  by_cases hpresent : ∃ v ∈ values, v.isNull = false
  · have hpresent' : ∃ v ∈ values', v.isNull = false := by
      obtain ⟨v, hv, hnull⟩ := hpresent
      exact ⟨v, hperm.mem_iff.mp hv, hnull⟩
    obtain ⟨hmem, hunbeaten⟩ := extreme_spec hpick hpresent
    obtain ⟨hmem', hunbeaten'⟩ := extreme_spec hpick hpresent'
    -- each of the two stands in the other column, where it does not beat what was found
    have hin' := (hperm.filter (!·.isNull)).mem_iff.mpr hmem'
    have hin := (hperm.filter (!·.isNull)).mem_iff.mp hmem
    exact eq_of_compare?_ne hpick (hunbeaten' _ (mem_present.mp hin).1 (mem_present.mp hin).2)
      (hunbeaten _ (mem_present.mp hin').1 (mem_present.mp hin').2) (htype.of_mem hmem hin')
  · have hnull : ∀ v ∈ values, v.isNull := by simpa using hpresent
    rw [extreme_of_forall_isNull hnull,
      extreme_of_forall_isNull fun v hv => hnull v (hperm.mem_iff.mpr hv)]

lemma findsBest {f : AggregateFunction} (hpick : pick ≠ .eq)
    (hf : ∀ values, f.compute values = extreme pick (values.filter (!·.isNull))) :
    FindsBest f pick := by
  have hpresent : ∀ values, f.compute values ≠ .null → ∃ v ∈ values, v.isNull = false := by
    intro values h
    by_contra hnone
    exact h ((hf values).trans (extreme_of_forall_isNull (by simpa using hnone)))
  refine ⟨fun values => ⟨fun h => ?_, fun h => (hf values).trans (extreme_of_forall_isNull h)⟩,
    fun values h => ?_, fun values v hv hnull => ?_, fun values values' htype hperm => ?_⟩
  · by_contra hsome
    have hmem := (extreme_spec hpick (by simpa using hsome)).1
    rw [← hf, h] at hmem
    simpa [Document.isNull] using (mem_present.mp hmem).2
  · have hmem := (extreme_spec hpick (hpresent values h)).1
    rw [hf]
    exact (mem_present.mp hmem).1
  · rw [hf]
    exact (extreme_spec hpick ⟨v, hv, hnull⟩).2 v hv hnull
  · rw [hf, hf]
    exact extreme_eq_of_perm hpick htype hperm

/-- **The least and the greatest value**: a present value of the column, if there is one, that no
present value is less than, or greater than. -/
theorem finds_extremes : FindsBest min .lt ∧ FindsBest max .gt :=
  ⟨findsBest (by decide) fun _ => rfl, findsBest (by decide) fun _ => rfl⟩

/-- The first present value settles the type. -/
example : min.compute [.null, .text "b", .int 1, .text "a"] = .text "a" := by rfl

end AggregateFunction

end EntityFilter
