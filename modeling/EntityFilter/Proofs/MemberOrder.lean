import EntityFilter.Document.Canonical
import EntityFilter.Proofs.AnnotationOrder
import Mathlib.Data.List.Perm.Subperm

/-!
# The order of members

A document may be written with the members of its objects in any order (`Document.Reordered`).  The
canonical form is the one way of writing it in which all members are sorted by key, so documents
that differ in the order of members have the same canonical form (`Document.Reordered.canonical_eq`)
and the same fingerprint (`Document.Reordered.fingerprint_eq`).

That something does not depend on the order of members is therefore said of one document and its
canonical form: whatever agrees on these two agrees on any two documents that have the same
canonical form.  The first such facts are here: members are found under the same keys
(`Document.get?_sorted`), and comparing with a document is comparing with its canonical form
(`Document.same_canonical`).
-/

namespace EntityFilter

namespace Document

/-- Whether a document holds no documents. -/
def isScalar : Document → Bool
  | array _ | object _ => false
  | _ => true

section

variable {P : Document → Prop}

mutual

/-- What holds of documents without parts, and of every document whose items or members it holds
of, holds of all. -/
theorem of_parts (scalar : ∀ d, d.isScalar → P d)
    (array : ∀ items, (∀ d ∈ items, P d) → P (.array items))
    (object : ∀ ms : List (String × Document), (∀ m ∈ ms, P m.2) → P (.object ms)) :
    ∀ d, P d
  | .array items => array items (of_parts_of_mem_items scalar array object items)
  | .object ms => object ms (of_parts_of_mem_members scalar array object ms)
  | .null => scalar _ rfl
  | .bool _ => scalar _ rfl
  | .int _ => scalar _ rfl
  | .float _ => scalar _ rfl
  | .text _ => scalar _ rfl

theorem of_parts_of_mem_items (scalar : ∀ d, d.isScalar → P d)
    (array : ∀ items, (∀ d ∈ items, P d) → P (.array items))
    (object : ∀ ms : List (String × Document), (∀ m ∈ ms, P m.2) → P (.object ms)) :
    ∀ items : List Document, ∀ d ∈ items, P d
  | [], _, hd => absurd hd List.not_mem_nil
  | d :: ds, x, hx => (List.mem_cons.mp hx).elim (fun h => h ▸ of_parts scalar array object d)
      (of_parts_of_mem_items scalar array object ds x)

theorem of_parts_of_mem_members (scalar : ∀ d, d.isScalar → P d)
    (array : ∀ items, (∀ d ∈ items, P d) → P (.array items))
    (object : ∀ ms : List (String × Document), (∀ m ∈ ms, P m.2) → P (.object ms)) :
    ∀ ms : List (String × Document), ∀ m ∈ ms, P m.2
  | [], _, hm => absurd hm List.not_mem_nil
  | (_, d) :: ms, m, hm => (List.mem_cons.mp hm).elim (fun h => h ▸ of_parts scalar array object d)
      (of_parts_of_mem_members scalar array object ms m)

end

end

/-! ## Documents in another order -/

mutual

/-- Whether a document is another one with its members in some order, at every level.  Items keep
their order, and numbers are the very same. -/
def Reordered : Document → Document → Prop
  | array items, array items' => ItemsReordered items items'
  | object ms, object ms' => ms.length = ms'.length ∧ MembersReordered ms ms'
  | d, d' => d = d'

/-- Item by item. -/
def ItemsReordered : List Document → List Document → Prop
  | [], [] => True
  | d :: ds, d' :: ds' => d.Reordered d' ∧ ItemsReordered ds ds'
  | _, _ => False

/-- Each member is found under its key. -/
def MembersReordered : List (String × Document) → List (String × Document) → Prop
  | [], _ => True
  | (key, d) :: ms, ms' =>
    (∃ d', Entries.get? key ms' = some d' ∧ d.Reordered d') ∧ MembersReordered ms ms'

end

variable {d d' x : Document} {items items' : List Document} {ms ms' : List (String × Document)}
  {key : String}

lemma itemsReordered_iff : ItemsReordered items items' ↔ List.Forall₂ Reordered items items' := by
  induction items generalizing items' with
  | nil => cases items' <;> simp [ItemsReordered]
  | cons d ds ih => cases items' <;> simp [ItemsReordered, ih]

lemma membersReordered_iff :
    MembersReordered ms ms' ↔
      ∀ m ∈ ms, ∃ d', Entries.get? m.1 ms' = some d' ∧ m.2.Reordered d' := by
  induction ms with
  | nil => simp [MembersReordered]
  | cons m ms ih =>
    obtain ⟨key, d⟩ := m
    rw [MembersReordered, ih, List.forall_mem_cons]

/-! ## Members in order -/

lemma perm_insertSorted (m : String × Document) (ms : List (String × Document)) :
    (insertSorted m ms).Perm (m :: ms) := by
  induction ms with
  | nil => exact .refl _
  | cons m' ms ih =>
    rw [insertSorted]
    split
    · exact .refl _
    · exact (ih.cons m').trans (.swap m m' ms)

lemma perm_sortMembers (ms : List (String × Document)) : (sortMembers ms).Perm ms := by
  induction ms with
  | nil => exact .refl _
  | cons m ms ih => exact (perm_insertSorted m (sortMembers ms)).trans (ih.cons m)

lemma pairwise_insertSorted {m : String × Document} (hn : m.1 ∉ Entries.keys ms)
    (h : ms.Pairwise (·.1 < ·.1)) : (insertSorted m ms).Pairwise (·.1 < ·.1) := by
  induction ms with
  | nil => exact List.pairwise_singleton _ _
  | cons m' ms ih =>
    rw [Entries.keys_cons, List.mem_cons, not_or] at hn
    obtain ⟨hm', hms⟩ := List.pairwise_cons.mp h
    rw [insertSorted]
    split
    · next hlt =>
      refine List.pairwise_cons.mpr ⟨fun x hx => ?_, h⟩
      rcases List.mem_cons.mp hx with rfl | hx
      · exact hlt
      · exact String.lt_trans hlt (hm' x hx)
    · next hlt =>
      refine List.pairwise_cons.mpr ⟨fun x hx => ?_, ih hn.2 hms⟩
      rcases List.mem_cons.mp ((perm_insertSorted m ms).subset hx) with rfl | hx
      · -- the keys differ, so the one that is not less is greater
        exact Decidable.byContradiction fun hge => hn.1 (String.le_antisymm hge hlt)
      · exact hm' x hx

lemma pairwise_sortMembers (h : (Entries.keys ms).Nodup) :
    (sortMembers ms).Pairwise (·.1 < ·.1) := by
  induction ms with
  | nil => exact List.Pairwise.nil
  | cons m ms ih =>
    obtain ⟨hm, hms⟩ := List.nodup_cons.mp h
    refine pairwise_insertSorted (fun hmem => hm ?_) (ih hms)
    exact ((perm_sortMembers ms).map Prod.fst).subset hmem

/-- **Members of distinct keys have one order only when they are sorted.** -/
theorem sortMembers_eq_of_perm (hn : (Entries.keys ms).Nodup) (h : ms.Perm ms') :
    sortMembers ms = sortMembers ms' := by
  have hn' : (Entries.keys ms').Nodup := (h.map Prod.fst).nodup_iff.mp hn
  have hperm : (sortMembers ms).Perm (sortMembers ms') :=
    (perm_sortMembers ms).trans (h.trans (perm_sortMembers ms').symm)
  exact hperm.eq_of_pairwise (fun _ _ _ _ hlt hgt => absurd hgt (String.lt_asymm hlt))
    (pairwise_sortMembers hn) (pairwise_sortMembers hn')

/-! ## Canonical forms -/

lemma canonicalItems_eq_map (items : List Document) :
    canonicalItems items = items.map canonical := by
  induction items with
  | nil => rfl
  | cons d ds ih => rw [canonicalItems, ih, List.map_cons]

lemma canonicalMembers_eq_map (ms : List (String × Document)) :
    canonicalMembers ms = ms.map fun m => (m.1, m.2.canonical) := by
  induction ms with
  | nil => rfl
  | cons m ms ih =>
    obtain ⟨key, d⟩ := m
    rw [canonicalMembers, ih, List.map_cons]

lemma keys_canonicalMembers (ms : List (String × Document)) :
    Entries.keys (canonicalMembers ms) = Entries.keys ms := by
  rw [canonicalMembers_eq_map, Entries.keys, List.map_map]
  rfl

lemma canonical_of_isScalar (h : d.isScalar) : d.canonical = d := by
  cases d with
  | array | object => simp [isScalar] at h
  | _ => rfl

/-- The members of the canonical form are the canonical members, in some order. -/
lemma perm_canonical (ms : List (String × Document)) :
    (sortMembers (canonicalMembers ms)).Perm (ms.map fun m => (m.1, m.2.canonical)) := by
  rw [← canonicalMembers_eq_map]
  exact perm_sortMembers _

/-- The canonical form has canonical members under the same keys. -/
lemma get?_sorted (hn : (Entries.keys ms).Nodup) (key : String) :
    Entries.get? key (sortMembers (canonicalMembers ms)) = (Entries.get? key ms).map canonical := by
  have hkeys : (Entries.keys (canonicalMembers ms)).Nodup := by
    rw [keys_canonicalMembers]
    exact hn
  rw [← Entries.get?_eq_of_perm hkeys (perm_sortMembers _).symm, canonicalMembers_eq_map,
    Entries.get?_map_snd]

/-- **Documents that differ in the order of members have one canonical form.** -/
theorem Reordered.canonical_eq (h : d.Reordered d') (hd : d.WellFormed) (hd' : d'.WellFormed) :
    d.canonical = d'.canonical := by
  induction d using of_parts generalizing d' with
  | scalar d hscalar =>
    have heq : d = d' := by
      cases d with
      | array | object => simp [isScalar] at hscalar
      | _ => simpa only [Reordered] using h
    rw [heq]
  | array items ih =>
    cases d' with
    | array items' =>
      rw [Reordered, itemsReordered_iff] at h
      rw [canonical, canonical, canonicalItems_eq_map, canonicalItems_eq_map]
      have hitems := itemsWellFormed_iff.mp hd
      have hitems' := itemsWellFormed_iff.mp hd'
      refine congrArg array ?_
      clear hd hd'
      induction h with
      | nil => rfl
      | cons hfirst _ ihrest =>
        rw [List.forall_mem_cons] at ih hitems hitems'
        rw [List.map_cons, List.map_cons, ih.1 hfirst hitems.1 hitems'.1,
          ihrest ih.2 hitems.2 hitems'.2]
    | _ => simp [Reordered] at h
  | object ms ih =>
    cases d' with
    | object ms' =>
      rw [Reordered, membersReordered_iff] at h
      obtain ⟨hlength, hmembers⟩ := h
      have hmem := membersWellFormed_iff.mp hd.2
      have hmem' := membersWellFormed_iff.mp hd'.2
      rw [canonical, canonical]
      have hkeys : (Entries.keys (canonicalMembers ms)).Nodup := by
        rw [keys_canonicalMembers]
        exact hd.1
      refine congrArg object (sortMembers_eq_of_perm hkeys ?_)
      have hsubset : canonicalMembers ms ⊆ canonicalMembers ms' := by
        rw [canonicalMembers_eq_map, canonicalMembers_eq_map]
        intro p hp
        obtain ⟨m, hm, rfl⟩ := List.mem_map.mp hp
        obtain ⟨x, hx, hreordered⟩ := hmembers m hm
        have hxmem := Entries.mem_of_get? hx
        rw [ih m hm hreordered (hmem m hm) (hmem' _ hxmem)]
        exact List.mem_map.mpr ⟨_, hxmem, rfl⟩
      refine (List.subperm_of_subset hkeys.of_map hsubset).perm_of_length_le ?_
      rw [canonicalMembers_eq_map, canonicalMembers_eq_map, List.length_map, List.length_map]
      exact Nat.le_of_eq hlength.symm
    | _ => simp [Reordered] at h

theorem Reordered.fingerprint_eq (h : d.Reordered d') (hd : d.WellFormed) (hd' : d'.WellFormed) :
    d.fingerprint = d'.fingerprint := by
  rw [fingerprint, fingerprint, h.canonical_eq hd hd']

/-! ## Comparing with a document -/

lemma sameMembers_eq_all :
    sameMembers ms ms' = ms.all fun m => (Entries.get? m.1 ms').any m.2.same := by
  induction ms with
  | nil => rfl
  | cons m ms ih =>
    obtain ⟨key, d⟩ := m
    rw [sameMembers, ih, List.all_cons]
    cases Entries.get? key ms' <;> rfl

/-- **To compare with a document is to compare with its canonical form.** -/
theorem same_canonical (h : d.WellFormed) (x : Document) : x.same d.canonical = x.same d := by
  induction d using of_parts generalizing x with
  | scalar d hscalar => rw [canonical_of_isScalar hscalar]
  | array items ih =>
    have hitems := itemsWellFormed_iff.mp h
    cases x with
    | array items' =>
      rw [canonical, same, same, canonicalItems_eq_map]
      clear h
      induction items generalizing items' with
      | nil => rfl
      | cons d ds ihds =>
        cases items' with
        | nil => rfl
        | cons d' ds' =>
          rw [List.forall_mem_cons] at ih hitems
          rw [List.map_cons, sameItems, sameItems, ih.1 hitems.1, ihds ih.2 hitems.2]
    | _ => rfl
  | object ms ih =>
    have hmem := membersWellFormed_iff.mp h.2
    cases x with
    | object ms' =>
      have hlength : (sortMembers (canonicalMembers ms)).length = ms.length := by
        rw [(perm_canonical ms).length_eq, List.length_map]
      have hsame : ∀ m : String × Document, ((Entries.get? m.1 ms).map canonical).any m.2.same =
          (Entries.get? m.1 ms).any m.2.same := by
        intro m
        cases hd : Entries.get? m.1 ms with
        | none => rfl
        | some d =>
          have hdmem := Entries.mem_of_get? hd
          exact ih _ hdmem (hmem _ hdmem) m.2
      rw [canonical, same, same, sameMembers_eq_all, sameMembers_eq_all, hlength]
      simp only [get?_sorted h.1, hsame]
    | _ => rfl

end Document

end EntityFilter
