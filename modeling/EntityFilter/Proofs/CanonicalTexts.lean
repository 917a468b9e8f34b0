import EntityFilter.Proofs.DistinctValues

/-!
# What a canonical text says

A condition is named after the text of its canonical form.  The text depends on the condition only
up to the order of members, at every level (`Document.Rearranged`), and it tells everything else:
two conditions have one canonical text exactly if they differ in nothing but the order of members
(`Document.print_canonical_eq_iff`).  Numbers are the same if they are written alike.

One direction is that a printed document is read in one way only, and that members are found in the
canonical form under the keys they had.  The other one is that sorting leaves members one order.  A
canonical form is sorted, so it is its own canonical form (`Document.canonical_canonical`).
-/

namespace EntityFilter

namespace Document

/-- Two documents are the same up to the order of members: items in order, members by their keys,
numbers by their texts. -/
inductive Rearranged : Document → Document → Prop
  | null : Rearranged null null
  | bool (b : Bool) : Rearranged (bool b) (bool b)
  | number {x y : Document} (hx : x.kind = .number) (hy : y.kind = .number)
    (htext : x.print = y.print) : Rearranged x y
  | text (s : String) : Rearranged (text s) (text s)
  | array {as bs : List Document} (hlength : as.length = bs.length)
    (hitems : ∀ (i : Nat) (ha : i < as.length) (hb : i < bs.length), Rearranged as[i] bs[i]) :
    Rearranged (array as) (array bs)
  | object {as bs : List (String × Document)}
    (hkeys : ∀ key, Entries.contains key as = Entries.contains key bs)
    (hmembers : ∀ key a b, Entries.get? key as = some a → Entries.get? key bs = some b →
      Rearranged a b) :
    Rearranged (object as) (object bs)

variable {a b d : Document} {items : List Document} {ms ns : List (String × Document)}

/-! ## Finite numbers -/

lemma allFinite_array_iff : (array items).AllFinite ↔ ∀ d ∈ items, d.AllFinite := by
  refine ⟨fun h d hd => h.item hd, fun h x hx => ?_⟩
  cases hx with
  | item hd hx => exact h _ hd x hx

lemma allFinite_object_iff : (object ms).AllFinite ↔ ∀ m ∈ ms, m.2.AllFinite := by
  refine ⟨fun h m hm => h.member hm, fun h x hx => ?_⟩
  cases hx with
  | member hm hx => exact h _ hm x hx

lemma allFinite_float_iff {x : Float} : (float x).AllFinite ↔ Binary64.isFinite x := by
  refine ⟨fun h => h x (.self _), fun h y hy => ?_⟩
  cases hy
  exact h

lemma allFinite_of_isScalar (h : d.isScalar) (hd : ∀ x, d ≠ float x) : d.AllFinite :=
  fun x hx => absurd (hx.eq_of_isScalar h).symm (hd x)

/-! ## Canonical forms -/

/-- Whatever number stands in a canonical form stands in the document. -/
lemma allFinite_canonical (h : d.AllFinite) : d.canonical.AllFinite := by
  induction d using of_parts with
  | scalar d hscalar => rwa [canonical_of_isScalar hscalar]
  | array items ih =>
    rw [canonical, canonicalItems_eq_map, allFinite_array_iff, List.forall_mem_map]
    exact fun d hd => ih d hd (h.item hd)
  | object ms ih =>
    rw [canonical, allFinite_object_iff]
    intro p hp
    obtain ⟨m, hm, rfl⟩ := List.mem_map.mp ((perm_canonical ms).subset hp)
    exact ih m hm (h.member hm)

/-- **A canonical form is its own canonical form.** -/
theorem canonical_canonical (h : d.WellFormed) : d.canonical.canonical = d.canonical := by
  induction d using of_parts with
  | scalar d hscalar => rw [canonical_of_isScalar hscalar, canonical_of_isScalar hscalar]
  | array items ih =>
    have hitems := itemsWellFormed_iff.mp h
    rw [canonical, canonical, canonicalItems_eq_map, canonicalItems_eq_map, List.map_map]
    exact congrArg array (List.map_congr_left fun d hd => ih d hd (hitems d hd))
  | object ms ih =>
    have hmembers := membersWellFormed_iff.mp h.2
    rw [canonical, canonical]
    -- the members are canonical already, and they are those of the document in some order
    have hsame : canonicalMembers (sortMembers (canonicalMembers ms)) =
        sortMembers (canonicalMembers ms) := by
      rw [canonicalMembers_eq_map, List.map_congr_left, List.map_id]
      intro p hp
      obtain ⟨m, hm, rfl⟩ := List.mem_map.mp ((perm_canonical ms).subset hp)
      rw [ih m hm (hmembers m hm)]
      rfl
    have hkeys : (Entries.keys (canonicalMembers ms)).Nodup := by
      rw [keys_canonicalMembers]
      exact h.1
    rw [hsame]
    exact congrArg object (sortMembers_eq_of_perm hkeys (perm_sortMembers _).symm).symm

/-! ## From the canonical form back to the document -/

lemma rearranged_self_of_isScalar (h : d.isScalar) : d.Rearranged d := by
  cases d with
  | null => exact .null
  | bool b => exact .bool b
  | int | float => exact .number rfl rfl rfl
  | text s => exact .text s
  | array | object => cases h

lemma isScalar_canonical (d : Document) : d.canonical.isScalar = d.isScalar := by
  cases d <;> rfl

/-- Members that are the same in canonical form are rearranged if their values are. -/
lemma rearranged_object (hms : (Entries.keys ms).Nodup) (hns : (Entries.keys ns).Nodup)
    (h : sortMembers (canonicalMembers ms) = sortMembers (canonicalMembers ns))
    (hvalues : ∀ m ∈ ms, ∀ n ∈ ns, m.2.canonical = n.2.canonical → m.2.Rearranged n.2) :
    (object ms).Rearranged (object ns) := by
  have hget : ∀ key, (Entries.get? key ms).map canonical = (Entries.get? key ns).map canonical := by
    intro key
    rw [← get?_sorted hms, ← get?_sorted hns, h]
  refine .object (fun key => ?_) fun key x y hx hy => ?_
  · rw [Entries.contains, Entries.contains, ← Option.isSome_map (f := canonical), hget,
      Option.isSome_map]
  · have hcanonical := hget key
    rw [hx, hy] at hcanonical
    exact hvalues _ (Entries.mem_of_get? hx) _ (Entries.mem_of_get? hy) (Option.some.inj hcanonical)

/-- Documents with one canonical form differ in the order of members only. -/
lemma rearranged_of_canonical_eq (ha : a.WellFormed) (hb : b.WellFormed)
    (h : a.canonical = b.canonical) : a.Rearranged b := by
  induction a using of_parts generalizing b with
  | scalar a hscalar =>
    have hscalar' : b.isScalar := by
      rw [← isScalar_canonical, ← h, isScalar_canonical]
      exact hscalar
    rw [canonical_of_isScalar hscalar, canonical_of_isScalar hscalar'] at h
    exact h ▸ rearranged_self_of_isScalar hscalar
  | array items ih =>
    cases b with
    | array items' =>
      rw [canonical, canonical, array.injEq, canonicalItems_eq_map, canonicalItems_eq_map] at h
      refine .array (by simpa using congrArg List.length h) fun i hi hi' => ?_
      refine ih _ (List.getElem_mem hi) (itemsWellFormed_iff.mp ha _ (List.getElem_mem hi))
        (itemsWellFormed_iff.mp hb _ (List.getElem_mem hi')) ?_
      simpa [hi, hi'] using congrArg (·[i]?) h
    | _ => cases h
  | object ms ih =>
    cases b with
    | object ns =>
      rw [canonical, canonical, object.injEq] at h
      exact rearranged_object ha.1 hb.1 h fun m hm n hn =>
        ih m hm (membersWellFormed_iff.mp ha.2 m hm) (membersWellFormed_iff.mp hb.2 n hn)
    | _ => cases h

/-- Rearranged documents are the same with their members in another order. -/
lemma Rearranged.reordered (h : a.Rearranged b) (ha : a.WellFormed) (hb : b.WellFormed)
    (hfa : a.AllFinite) (hfb : b.AllFinite) : a.Reordered b := by
  induction h with
  | null | bool | text => rfl
  | @number x y hx hy htext =>
    obtain rfl := eq_of_print_eq hfa hfb htext
    cases x with
    | int | float => rfl
    | _ => cases hx
  | @array as bs hlength _ ih =>
    rw [Reordered, itemsReordered_iff, List.forall₂_iff_get]
    refine ⟨hlength, fun i hi hj => ?_⟩
    have hmem : as[i] ∈ as := List.getElem_mem hi
    have hmem' : bs[i] ∈ bs := List.getElem_mem hj
    exact ih i hi hj (itemsWellFormed_iff.mp ha _ hmem) (itemsWellFormed_iff.mp hb _ hmem')
      (hfa.item hmem) (hfb.item hmem')
  | @object as bs hkeys _ ih =>
    rw [Reordered, membersReordered_iff]
    refine ⟨length_eq_of_contains_eq ha.1 hb.1 hkeys, fun m hm => ?_⟩
    have hx := Entries.get?_of_mem ha.1 hm
    obtain ⟨y, hy⟩ : ∃ y, Entries.get? m.1 bs = some y :=
      Option.isSome_iff_exists.mp
        ((hkeys m.1).symm.trans (Option.isSome_iff_exists.mpr ⟨m.2, hx⟩))
    have hymem := Entries.mem_of_get? hy
    exact ⟨y, hy, ih m.1 m.2 y hx hy (membersWellFormed_iff.mp ha.2 m hm)
      (membersWellFormed_iff.mp hb.2 _ hymem) (hfa.member hm) (hfb.member hymem)⟩

/-- **The canonical text identifies a document up to the order of members.**  Two documents without
repeated keys have the same canonical text exactly if they are rearranged, and sorting members once
more changes nothing. -/
theorem print_canonical_eq_iff (ha : a.WellFormed) (hb : b.WellFormed) (hfa : a.AllFinite)
    (hfb : b.AllFinite) :
    (a.canonical.print = b.canonical.print ↔ a.Rearranged b) ∧
      a.canonical.canonical = a.canonical := by
  refine ⟨⟨fun h => ?_, fun h => ?_⟩, canonical_canonical ha⟩
  · have hsame := eq_of_print_eq (allFinite_canonical hfa) (allFinite_canonical hfb) h
    exact rearranged_of_canonical_eq ha hb hsame
  · rw [(h.reordered ha hb hfa hfb).canonical_eq ha hb]

/-- The order of the members of two nested objects does not show in the canonical text, the order
of items does. -/
theorem print_canonical_eq_iff_nested :
    let a : Document := .object [("b", .float 1.5), ("a", .array [.object [("y", .int 2),
      ("x", .text "it")], .null])]
    let b : Document := .object [("a", .array [.object [("x", .text "it"), ("y", .int 2)], .null]),
      ("b", .float 1.5)]
    let c : Document := .object [("a", .array [.null, .object [("x", .text "it"), ("y", .int 2)]]),
      ("b", .float 1.5)]
    (a.WellFormed ∧ b.WellFormed ∧ c.WellFormed) ∧ (a.AllFinite ∧ b.AllFinite ∧ c.AllFinite) ∧
      a.canonical.print = b.canonical.print ∧ a.Rearranged b ∧ ¬a.Rearranged c := by
  intro a b c
  have hwell : a.WellFormed ∧ b.WellFormed ∧ c.WellFormed := by
    simp [a, b, c, WellFormed, MembersWellFormed, ItemsWellFormed, Entries.keys]
  have hfinite : a.AllFinite ∧ b.AllFinite ∧ c.AllFinite := by
    have hfloat : (float 1.5).AllFinite := allFinite_float_iff.mpr rfl
    have hnull : null.AllFinite := allFinite_of_isScalar rfl (by simp)
    have hint : (int 2).AllFinite := allFinite_of_isScalar rfl (by simp)
    have htext : (text "it").AllFinite := allFinite_of_isScalar rfl (by simp)
    simp [a, b, c, allFinite_array_iff, allFinite_object_iff, hfloat, hnull, hint, htext]
  obtain ⟨⟨ha, hb, hc⟩, hfa, hfb, hfc⟩ := And.intro hwell hfinite
  have hsame : a.canonical.print = b.canonical.print := by decide
  have hother : a.canonical.print ≠ c.canonical.print := by decide
  exact ⟨hwell, hfinite, hsame, (print_canonical_eq_iff ha hb hfa hfb).1.mp hsame,
    fun h => hother ((print_canonical_eq_iff ha hc hfa hfc).1.mpr h)⟩

end Document

end EntityFilter
