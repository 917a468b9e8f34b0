import EntityFilter.OrderedMap
import Mathlib.Data.List.Nodup

/-!
# Entries and their keys

What is stored under which key, for bare lists of pairs and for maps in the order of insertion.  A
list grows at its end when a new key is stored (`Entries.insert_eq_append`); where no key occurs
twice, pairs are found in any order (`Entries.get?_eq_of_perm`), and storing them one after the other
changes nothing (`Entries.ofPairs_of_nodup`).
-/

namespace EntityFilter

namespace Entries

variable {κ : Type u} {α β : Type v} [DecidableEq κ] {k : κ} {v : α} {es fs : List (κ × α)}

/-! ## Pairs -/

lemma contains_iff_mem_keys : contains k es ↔ k ∈ keys es := by
  induction es with
  | nil => simp [contains, get?]
  | cons e es ih =>
    obtain ⟨k', v'⟩ := e
    simp only [contains] at ih
    by_cases h : k' = k
    · simp [contains, get?, h]
    · simp [contains, get?, h, ih, Ne.symm h]

lemma insert_eq_append (h : k ∉ keys es) : insert k v es = es ++ [(k, v)] := by
  induction es with
  | nil => rfl
  | cons e es ih =>
    obtain ⟨k', v'⟩ := e
    simp only [keys_cons, List.mem_cons, not_or] at h
    simp [insert, Ne.symm h.1, ih h.2]

lemma get?_append : get? k (es ++ fs) = (get? k es).or (get? k fs) := by
  induction es with
  | nil => simp [get?]
  | cons e es ih =>
    obtain ⟨k', v'⟩ := e
    by_cases h : k' = k
    · simp [get?, h]
    · simp [get?, h, ih]

/-- The place of a key is where its value stands. -/
lemma getElem?_of_indexOf? {i : Nat} (h : indexOf? k es = some i) :
    (es.map Prod.snd)[i]? = get? k es := by
  induction es generalizing i with
  | nil => simp [indexOf?] at h
  | cons e es ih =>
    obtain ⟨k', v'⟩ := e
    by_cases hk : k' = k
    · simp only [indexOf?, keys_cons, List.findIdx?_cons, hk, decide_true, if_true,
        Option.some.injEq] at h
      subst h
      simp [get?, hk]
    · simp only [indexOf?, keys_cons, List.findIdx?_cons, hk, decide_false, Bool.false_eq_true,
        if_false, Option.map_eq_some_iff] at h
      obtain ⟨j, hj, rfl⟩ := h
      simpa [get?, hk] using ih hj

lemma indexOf?_append_of_mem (h : k ∈ keys es) : indexOf? k (es ++ fs) = indexOf? k es := by
  have hfound : ((keys es).findIdx? (· = k)).isSome := by
    rw [List.findIdx?_isSome, List.any_eq_true]
    exact ⟨k, h, by simp⟩
  simp only [indexOf?, keys, List.map_append, List.findIdx?_append]
  exact Option.or_of_isSome hfound

lemma indexOf?_concat_of_notMem (h : k ∉ keys es) : indexOf? k (es ++ [(k, v)]) = some es.length := by
  have hnone : (keys es).findIdx? (· = k) = none := by
    rw [List.findIdx?_eq_none_iff]
    intro k' hk'
    exact decide_eq_false fun heq => h (heq ▸ hk')
  simp only [indexOf?, keys, List.map_append, List.findIdx?_append] at hnone ⊢
  simp [hnone]

lemma mem_of_get? (h : get? k es = some v) : (k, v) ∈ es := by
  induction es with
  | nil => simp [get?] at h
  | cons e es ih =>
    obtain ⟨k', v'⟩ := e
    by_cases hk : k' = k
    · simp only [get?, hk, if_true, Option.some.injEq] at h
      simp [hk, h]
    · simp only [get?, hk, if_false] at h
      exact List.mem_cons_of_mem _ (ih h)

lemma isSome_indexOf? (h : get? k es = some v) : (indexOf? k es).isSome := by
  rw [indexOf?, List.findIdx?_isSome, List.any_eq_true]
  exact ⟨k, List.mem_map.mpr ⟨_, mem_of_get? h, rfl⟩, by simp⟩

lemma get?_of_mem (hn : (keys es).Nodup) (h : (k, v) ∈ es) : get? k es = some v := by
  induction es with
  | nil => simp at h
  | cons e es ih =>
    obtain ⟨k', v'⟩ := e
    rw [keys_cons, List.nodup_cons] at hn
    rcases List.mem_cons.mp h with heq | h
    · obtain ⟨rfl, rfl⟩ := Prod.mk.inj heq
      simp [get?]
    · have hne : k' ≠ k := by
        rintro rfl
        exact hn.1 (List.mem_map.mpr ⟨_, h, rfl⟩)
      rw [get?, if_neg hne]
      exact ih hn.2 h

lemma get?_eq_none_iff : get? k es = none ↔ k ∉ keys es := by
  rw [← contains_iff_mem_keys, contains, Option.not_isSome_iff_eq_none]

lemma mem_insert {p : κ × α} (h : p ∈ insert k v es) : p = (k, v) ∨ p ∈ es := by
  induction es with
  | nil => exact .inl (List.mem_singleton.mp h)
  | cons e es ih =>
    obtain ⟨k', v'⟩ := e
    rw [insert] at h
    split at h
    · rcases List.mem_cons.mp h with h | h
      · exact .inl h
      · exact .inr (List.mem_cons_of_mem _ h)
    · rcases List.mem_cons.mp h with h | h
      · exact .inr (List.mem_cons.mpr (.inl h))
      · exact (ih h).imp_right (List.mem_cons_of_mem _)

/-- Pairs of distinct keys are found in any order. -/
lemma get?_eq_of_perm (hn : (keys es).Nodup) (h : es.Perm fs) : get? k es = get? k fs := by
  have hn' : (keys fs).Nodup := (h.map Prod.fst).nodup_iff.mp hn
  cases hv : get? k fs with
  | none =>
    rw [get?_eq_none_iff] at hv ⊢
    exact fun hmem => hv ((h.map Prod.fst).subset hmem)
  | some v => exact get?_of_mem hn (h.symm.subset (mem_of_get? hv))

lemma get?_map_snd (f : α → β) (k : κ) (es : List (κ × α)) :
    get? k (es.map fun e => (e.1, f e.2)) = (get? k es).map f := by
  induction es with
  | nil => rfl
  | cons e es ih =>
    obtain ⟨k', v⟩ := e
    by_cases hk : k' = k <;> simp [get?, hk, ih]

section Modify

variable {f : α → α}

lemma modify_append_of_notMem (h : k ∉ keys fs) : modify k f (es ++ fs) = modify k f es ++ fs := by
  have hfs : modify k f fs = fs := by
    induction fs with
    | nil => rfl
    | cons e fs ih =>
      obtain ⟨k', v'⟩ := e
      rw [keys_cons, List.mem_cons, not_or] at h
      rw [modify, if_neg (Ne.symm h.1), ih h.2]
  induction es with
  | nil => exact hfs
  | cons e es ih =>
    obtain ⟨k', v'⟩ := e
    rw [List.cons_append, modify, modify]
    split
    · rfl
    · rw [ih, List.cons_append]

/-- Where no key occurs twice, entries are modified one by one. -/
lemma modify_eq_map (h : (keys es).Nodup) :
    modify k f es = es.map fun e => if e.1 = k then (e.1, f e.2) else e := by
  induction es with
  | nil => rfl
  | cons e es ih =>
    obtain ⟨k', v'⟩ := e
    rw [keys_cons, List.nodup_cons] at h
    rw [modify, List.map_cons]
    by_cases hk : k' = k
    · subst hk
      have hrest : (es.map fun e => if e.1 = k' then (e.1, f e.2) else e) = es := by
        refine (List.map_congr_left fun e he => ?_).trans (List.map_id es)
        rw [if_neg]
        · rfl
        · rintro rfl
          exact h.1 (List.mem_map.mpr ⟨e, he, rfl⟩)
      simp only [if_true, hrest]
    · simp only [hk, if_false, ih h.2]

end Modify

lemma ofPairs_of_nodup (h : (keys es).Nodup) : ofPairs es = es := by
  have hfold : ∀ fs : List (κ × α), (keys (fs ++ es)).Nodup →
      es.foldl (fun es p => insert p.1 p.2 es) fs = fs ++ es := by
    clear h
    induction es with
    | nil => simp
    | cons e es ih =>
      intro fs hn
      have hk : e.1 ∉ keys fs := by
        rw [keys, List.map_append, List.map_cons, List.nodup_append] at hn
        exact fun hmem => hn.2.2 _ hmem _ List.mem_cons_self rfl
      rw [List.foldl_cons, insert_eq_append hk, ih]
      · simp
      · simpa using hn
  exact hfold [] h

end Entries

namespace OrderedMap

variable {κ : Type u} {α : Type v} [DecidableEq κ]

/-! ## Maps -/

lemma mem_entries_foldl_insert {pairs : List (κ × α)} {m : OrderedMap κ α} {p : κ × α}
    (h : p ∈ (pairs.foldl (fun m p => m.insert p.1 p.2) m).entries) : p ∈ m.entries ∨ p ∈ pairs := by
  induction pairs generalizing m with
  | nil => exact .inl h
  | cons q pairs ih =>
    rcases ih h with h | h
    · rcases Entries.mem_insert h with rfl | h
      · exact .inr List.mem_cons_self
      · exact .inl h
    · exact .inr (List.mem_cons_of_mem _ h)

lemma mem_of_mem_entries_ofList {pairs : List (κ × α)} {p : κ × α}
    (h : p ∈ (ofList pairs).entries) : p ∈ pairs :=
  (mem_entries_foldl_insert h).resolve_left List.not_mem_nil

/-- What is stored last under a key stays. -/
lemma get?_ofList_append {k : κ} {v : α} (before : List (κ × α)) {after : List (κ × α)}
    (h : ∀ p ∈ after, p.1 ≠ k) : (ofList (before ++ (k, v) :: after)).get? k = some v := by
  have hkeep : ∀ {after : List (κ × α)} {m : OrderedMap κ α}, (∀ p ∈ after, p.1 ≠ k) →
      (after.foldl (fun m p => m.insert p.1 p.2) m).get? k = m.get? k := by
    intro after
    induction after with
    | nil => exact fun _ => rfl
    | cons p after ih =>
      intro m h
      rw [List.forall_mem_cons] at h
      rw [List.foldl_cons, ih h.2, get?_insert_of_ne _ (Ne.symm h.1)]
  rw [ofList, List.foldl_append, List.foldl_cons, hkeep h, get?_insert_self]

/-- Pairs of distinct keys are stored as they are. -/
lemma entries_ofList {pairs : List (κ × α)} (h : (Entries.keys pairs).Nodup) :
    (ofList pairs).entries = pairs := by
  have hfold : ∀ (pairs : List (κ × α)) (m : OrderedMap κ α),
      (pairs.foldl (fun m p => m.insert p.1 p.2) m).entries =
        pairs.foldl (fun es p => Entries.insert p.1 p.2 es) m.entries := by
    intro pairs
    induction pairs with
    | nil => exact fun _ => rfl
    | cons p pairs ih => exact fun m => ih (m.insert p.1 p.2)
  exact (hfold pairs empty).trans (Entries.ofPairs_of_nodup h)

lemma keys_without (m : OrderedMap κ α) (ks : List κ) :
    (m.without ks).keys = m.keys.filter (· ∉ ks) := by
  simp [keys, without, Entries.keys, List.filter_map, Function.comp_def]

omit [DecidableEq κ] in
lemma size_eq_length_keys (m : OrderedMap κ α) : m.size = m.keys.length := by
  simp [size, keys, Entries.keys]

lemma get?_without {m : OrderedMap κ α} {ks : List κ} {k : κ} {v : α}
    (h : (m.without ks).get? k = some v) : m.get? k = some v := by
  have hmem := List.mem_filter.1 (Entries.mem_of_get? h)
  exact Entries.get?_of_mem m.nodup hmem.1

lemma size_insert_of_get?_eq_none {m : OrderedMap κ α} {k : κ} (v : α) (h : m.get? k = none) :
    (m.insert k v).size = m.size + 1 := by
  simp [size, insert, Entries.insert_eq_append (Entries.get?_eq_none_iff.1 h)]

end OrderedMap

end EntityFilter
