import EntityFilter.Proofs.AgreeingFilters
import EntityFilter.Proofs.FilterKeys
import EntityFilter.Row.Annotation
import Mathlib.Data.List.Induction

/-!
# Conditions of one fingerprint

The projection of a conditional aggregate is shared between all conditions of one fingerprint, and
the condition that is met first picks the rows for all of them.  Conditions that differ in the order
of members alone share their fingerprint, and sharing is sound for them: they pick the same rows
(`Document.Reordered.conditions_agree`).

A condition is read from a document.  So the question is whether a document and its canonical form
are read as filters, entries and existence tests that agree (`Document.ReadsAlike`), part by part.
-/

namespace EntityFilter

/-! ## Reading canonical documents -/

namespace Document

variable {d : Document}

lemma asText?_canonical (d : Document) : d.canonical.asText? = d.asText? := by cases d <;> rfl

lemma asBool?_canonical (d : Document) : d.canonical.asBool? = d.asBool? := by cases d <;> rfl

/-- An object of several members is no word. -/
lemma word?_object_cons_cons (m m' : String × Document) (ms : List (String × Document)) :
    (object (m :: m' :: ms)).word? = none := by
  obtain ⟨key, d⟩ := m
  cases d <;> rfl

lemma word?_canonical (d : Document) : d.canonical.word? = d.word? := by
  cases d with
  | object ms =>
    rcases ms with _ | ⟨⟨key, d⟩, _ | ⟨m, ms⟩⟩
    · rfl
    · cases d <;> rfl
    · -- there are as many members as before
      have hlength := (perm_canonical ((key, d) :: m :: ms)).length_eq
      rw [canonical]
      revert hlength
      generalize sortMembers (canonicalMembers ((key, d) :: m :: ms)) = sorted
      intro hlength
      rcases sorted with _ | ⟨m₁, _ | ⟨m₂, sorted⟩⟩
      · simp at hlength
      · simp at hlength
      · rw [word?_object_cons_cons, word?_object_cons_cons]
  | _ => rfl

/-- What a reader does not tell from its canonical form, it does not in arrays either. -/
lemma oneOrMany?_canonical {α : Type} {read? : Document → Option α}
    (hread : ∀ d : Document, d.WellFormed → read? d.canonical = read? d) (h : d.WellFormed) :
    d.canonical.oneOrMany? read? = d.oneOrMany? read? := by
  cases d with
  | array items =>
    have hitems := itemsWellFormed_iff.mp h
    have hsame : (canonicalItems items).filterMap read? = items.filterMap read? := by
      rw [canonicalItems_eq_map, List.filterMap_map]
      exact List.filterMap_congr fun d hd => hread d (hitems d hd)
    unfold oneOrMany?
    simp only [canonical, hsame]
  | object ms =>
    have hsame := hread _ h
    rw [canonical] at hsame
    unfold oneOrMany?
    simp only [canonical, hsame]
  | _ => rfl

end Document

namespace Record

variable {r : Record} {d : Document}

/-- A record of canonical documents. -/
def canonical : Record → Record
  | named ms => named (Document.sortMembers (Document.canonicalMembers ms))
  | positional items => positional (items.map Document.canonical)

/-- The documents of a record are well formed, and no two have one name. -/
def WellFormed : Record → Prop
  | named ms => (Document.object ms).WellFormed
  | positional items => ∀ d ∈ items, d.WellFormed

lemma get?_canonical (h : r.WellFormed) (place : Nat) (name : String) :
    r.canonical.get? place name = (r.get? place name).map Document.canonical := by
  cases r with
  | named ms => exact Document.get?_sorted h.1 name
  | positional items => exact List.getElem?_map

lemma ofDocument?_canonical (fields : Nat) (d : Document) :
    ofDocument? fields d.canonical = (ofDocument? fields d).map canonical := by
  cases d with
  | array items =>
    simp only [Document.canonical, ofDocument?, Document.canonicalItems_eq_map, List.length_map]
    split <;> rfl
  | _ => rfl

lemma wellFormed_of_ofDocument? {fields : Nat} (h : d.WellFormed)
    (hr : ofDocument? fields d = some r) : r.WellFormed := by
  cases d with
  | array items =>
    simp only [ofDocument?, Option.ite_none_right_eq_some, Option.some.injEq] at hr
    obtain ⟨-, rfl⟩ := hr
    exact Document.itemsWellFormed_iff.mp h
  | object ms => exact Option.some.inj hr ▸ h
  | _ => simp [ofDocument?] at hr

end Record

lemma FieldComparison.ofDocument?_canonical (d : Document) (h : d.WellFormed) :
    FieldComparison.ofDocument? d.canonical = FieldComparison.ofDocument? d := by
  unfold FieldComparison.ofDocument?
  rw [Record.ofDocument?_canonical]
  cases hr : Record.ofDocument? 3 d with
  | none => rfl
  | some r =>
    have hwell := Record.wellFormed_of_ofDocument? h hr
    simp only [Option.map_some, Option.bind_eq_bind, Option.bind_some,
      Record.get?_canonical hwell, Option.bind_map, Function.comp_def,
      Document.asText?_canonical, Document.word?_canonical]

/-! ## Filters of canonical documents -/

lemma FilterEntry.ofMembers_eq_filterMap (ms : List (String × Document)) :
    FilterEntry.ofMembers ms =
      ms.filterMap fun m => (FilterEntry.ofDocument? (.ofName m.1) m.2).map (m.1, ·) := by
  induction ms with
  | nil => rw [FilterEntry.ofMembers, List.filterMap_nil]
  | cons m ms ih =>
    obtain ⟨key, d⟩ := m
    rw [FilterEntry.ofMembers, ih, List.filterMap_cons]
    cases FilterEntry.ofDocument? (.ofName key) d <;> rfl

lemma Filter.listOfItems_eq_filterMap (items : List Document) :
    Filter.listOfItems items = items.filterMap Filter.ofDocument? := by
  induction items with
  | nil => rw [Filter.listOfItems, List.filterMap_nil]
  | cons d ds ih =>
    rw [Filter.listOfItems, ih, List.filterMap_cons]
    cases Filter.ofDocument? d <;> rfl

lemma Filter.optionalOfDocument?_eq (d : Document) :
    Filter.optionalOfDocument? d =
      if d.isNull then some none else (Filter.ofDocument? d).map some := by
  cases d <;> simp [Filter.optionalOfDocument?, Filter.ofDocument?, Document.isNull]

/-- The existence test that an item of an array writes. -/
def ExistenceTest.ofItem? : Document → Option (ExistenceTest × Option Filter)
  | .object ms => ExistenceTest.ofMembers? ms
  | .array fields => ExistenceTest.ofFields? fields
  | _ => none

lemma ExistenceTest.listOfItems_eq_filterMap (items : List Document) :
    ExistenceTest.listOfItems items = items.filterMap ExistenceTest.ofItem? := by
  induction items with
  | nil => rw [ExistenceTest.listOfItems, List.filterMap_nil]
  | cons d ds ih =>
    rw [List.filterMap_cons, ← ih]
    cases d with
    | object ms =>
      rw [ExistenceTest.listOfItems, ExistenceTest.ofItem?]
      cases ExistenceTest.ofMembers? ms <;> rfl
    | array fields =>
      rw [ExistenceTest.listOfItems, ExistenceTest.ofItem?]
      cases ExistenceTest.ofFields? fields <;> rfl
    | _ => simp [ExistenceTest.listOfItems, ExistenceTest.ofItem?]

section

variable {d : Document} {ms ms' : List (String × Document)} {items : List Document}

/-! ### Filters -/

lemma FilterEntry.predicates_ofMembers (c : Compiler) (set : ProjectionSet) (s : Scope)
    (ms : List (String × Document)) :
    FilterEntry.predicates c set s (FilterEntry.ofMembers ms) = ms.filterMap fun m =>
      (FilterEntry.ofDocument? (.ofName m.1) m.2).bind (·.predicate? c set s m.1) := by
  rw [FilterEntry.predicates_eq_filterMap, FilterEntry.ofMembers_eq_filterMap,
    List.filterMap_filterMap]
  refine congrArg (List.filterMap · ms) (funext fun m => ?_)
  cases FilterEntry.ofDocument? (.ofName m.1) m.2 <;> rfl

/-- One name only is about included identifiers. -/
lemma FilterEntry.name_of_included? {name : String} {d : Document} {e : FilterEntry}
    {values : List Literal} (h : FilterEntry.ofDocument? (.ofName name) d = some e)
    (hvalues : e.included? = some values) : name = "include" := by
  have hkey : e.key = .ofName name := (FilterEntry.readUnder_of_ofDocument? _ _ h).key_eq
  cases e with
  | included => rw [← FilterKey.written_ofName name, ← hkey]; rfl
  | _ => cases hvalues

/-- So of members with distinct names the last that is about them is the only one. -/
lemma FilterEntry.includedValues_ofMembers (h : (Entries.keys ms).Nodup) :
    FilterEntry.includedValues (FilterEntry.ofMembers ms) =
      ms.flatMap fun m => valuesOf (FilterEntry.ofDocument? (.ofName m.1) m.2) := by
  induction ms using List.reverseRecOn with
  | nil => rw [FilterEntry.ofMembers, List.flatMap_nil]; rfl
  | append_singleton ms m ih =>
    rw [Entries.keys, List.map_append, List.nodup_append] at h
    have hnew : ∀ m' ∈ ms, m'.1 ≠ m.1 := fun m' hm' =>
      h.2.2 _ (List.mem_map_of_mem hm') _ (List.mem_singleton_self _)
    rw [List.flatMap_append, List.flatMap_singleton]
    cases he : FilterEntry.ofDocument? (.ofName m.1) m.2 with
    | none =>
      have hmembers : FilterEntry.ofMembers (ms ++ [m]) = FilterEntry.ofMembers ms := by
        simp [FilterEntry.ofMembers_eq_filterMap, he]
      rw [hmembers, ih h.1]
      exact (List.append_nil _).symm
    | some e =>
      have hmembers : FilterEntry.ofMembers (ms ++ [m]) =
          FilterEntry.ofMembers ms ++ [(m.1, e)] := by
        simp [FilterEntry.ofMembers_eq_filterMap, he]
      rw [hmembers, FilterEntry.includedValues_concat, ih h.1,
        FilterEntry.valuesOf_some]
      cases hvalues : e.included? with
      | none => exact (List.append_nil _).symm
      | some values =>
        have hothers : (ms.flatMap fun m =>
            valuesOf (FilterEntry.ofDocument? (.ofName m.1) m.2)) = [] := by
          refine List.flatMap_eq_nil_iff.mpr fun m' hm' => ?_
          cases he' : FilterEntry.ofDocument? (.ofName m'.1) m'.2 with
          | none => rfl
          | some e' =>
            rw [FilterEntry.valuesOf_some]
            cases hvalues' : e'.included? with
            | none => rfl
            | some values' =>
              have hname := FilterEntry.name_of_included? he hvalues
              have hname' := FilterEntry.name_of_included? he' hvalues'
              exact absurd (hname'.trans hname.symm) (hnew m' hm')
        rw [hothers]
        rfl

/-- **A filter does not depend on the order of its members**, nor on the order inside them. -/
lemma Filter.agree_ofMembers (hnodup : (Entries.keys ms).Nodup)
    (hperm : ms'.Perm (ms.map fun m => (m.1, m.2.canonical)))
    (h : ∀ m ∈ ms, ∀ key, FilterEntry.Agree (FilterEntry.ofDocument? key m.2.canonical)
      (FilterEntry.ofDocument? key m.2)) :
    Filter.Agree (.node (FilterEntry.ofMembers ms')) (.node (FilterEntry.ofMembers ms)) := by
  intro c s
  have hpredicate : Predicate.Agree
      (Predicate.and? (FilterEntry.predicates c .empty s (FilterEntry.ofMembers ms')))
      (Predicate.and? (FilterEntry.predicates c .empty s (FilterEntry.ofMembers ms))) := by
    refine Predicate.agree_and? FilterEntry.isNormal_of_mem_predicates
      FilterEntry.isNormal_of_mem_predicates fun ctx => ?_
    rw [FilterEntry.predicates_ofMembers, FilterEntry.predicates_ofMembers]
    refine ((hperm.filterMap _).map _).trans (.of_eq ?_)
    refine Predicate.map_holds_filterMap ?_ ctx
    rw [List.forall₂_map_left_iff, List.forall₂_same]
    exact fun m hm => (h m hm (.ofName m.1)).predicate c s m.1
  have hvalues : ∀ value,
      (FilterEntry.includedValues (FilterEntry.ofMembers ms')).any (Literal.equals value) =
        (FilterEntry.includedValues (FilterEntry.ofMembers ms)).any (Literal.equals value) := by
    intro value
    have hnodup' : (Entries.keys ms').Nodup := by
      have hkeys := hperm.map Prod.fst
      rw [List.map_map] at hkeys
      exact hkeys.nodup_iff.mpr hnodup
    rw [FilterEntry.includedValues_ofMembers hnodup, FilterEntry.includedValues_ofMembers hnodup',
      List.any_flatMap, List.any_flatMap, hperm.any_eq, List.any_map]
    exact any_eq_of_mem fun m hm => (h m hm (.ofName m.1)).values value
  have hnormal : ∀ {ms : List (String × Document)} (q : Predicate),
      Predicate.and? (FilterEntry.predicates c .empty s (FilterEntry.ofMembers ms)) = some q →
        q.IsNormal :=
    fun _ hq => Predicate.IsNormal.and? FilterEntry.isNormal_of_mem_predicates hq
  refine Predicate.agree_iff.mpr fun ctx => ?_
  rw [Filter.predicate?, Filter.predicate?, Scope.map_holds_widen? hnormal,
    Scope.map_holds_widen? hnormal, Predicate.agree_iff.mp hpredicate ctx, funext hvalues]

lemma Filter.rel_optionalOfDocument?
    (h : Option.Rel Filter.Agree (Filter.ofDocument? d.canonical) (Filter.ofDocument? d)) :
    Option.Rel (Option.Rel Filter.Agree) (Filter.optionalOfDocument? d.canonical)
      (Filter.optionalOfDocument? d) := by
  have hnull : d.canonical.isNull = d.isNull := by cases d <;> rfl
  rw [Filter.optionalOfDocument?_eq, Filter.optionalOfDocument?_eq, hnull]
  split
  · exact .some .none
  · exact rel_map h fun _ _ hfg => .some hfg

/-- What is read item by item. -/
lemma forall₂_filterMap {α ι : Type} {R : α → α → Prop} {read? : ι → Option α} {f : ι → ι}
    {items : List ι} (h : ∀ i ∈ items, Option.Rel R (read? (f i)) (read? i)) :
    List.Forall₂ R ((items.map f).filterMap read?) (items.filterMap read?) := by
  induction items with
  | nil => exact .nil
  | cons i items ih =>
    rw [List.forall_mem_cons] at h
    obtain ⟨hfirst, hrest⟩ := h
    rw [List.map_cons, List.filterMap_cons, List.filterMap_cons]
    revert hfirst
    generalize read? (f i) = x
    generalize read? i = y
    rintro (hfirst | _)
    · exact .cons hfirst (ih hrest)
    · exact ih hrest

/-! ### Existence tests -/

lemma ExistenceTest.rel_ofMembers? (h : (Document.object ms).WellFormed)
    (hmem : ∀ m ∈ ms, Option.Rel Filter.Agree (Filter.ofDocument? m.2.canonical)
      (Filter.ofDocument? m.2)) :
    Option.Rel ExistenceTest.Agree
      (ExistenceTest.ofMembers? (Document.sortMembers (Document.canonicalMembers ms)))
      (ExistenceTest.ofMembers? ms) := by
  have hget := Document.get?_sorted h.1
  have hcondition : Option.Rel (Option.Rel Filter.Agree)
      (Filter.ofMember? "condition" (Document.sortMembers (Document.canonicalMembers ms)))
      (Filter.ofMember? "condition" ms) := by
    rw [Filter.ofMember?_eq, Filter.ofMember?_eq, hget]
    cases hd : Entries.get? "condition" ms with
    | none => exact .some .none
    | some d =>
      exact Filter.rel_optionalOfDocument? (hmem ("condition", d) (Entries.mem_of_get? hd))
  have hrelation : ((Entries.get? "relation" ms).map Document.canonical).bind Document.asText? =
      (Entries.get? "relation" ms).bind Document.asText? := by
    cases Entries.get? "relation" ms with
    | none => rfl
    | some d => exact d.asText?_canonical
  have hexpected :
      (Record.named (Document.sortMembers (Document.canonicalMembers ms))).getD? 2 "exists" true
          Document.asBool? =
        (Record.named ms).getD? 2 "exists" true Document.asBool? := by
    simp only [Record.getD?, Record.get?, hget]
    cases Entries.get? "exists" ms with
    | none => rfl
    | some d => exact d.asBool?_canonical
  rw [ExistenceTest.ofMembers?, ExistenceTest.ofMembers?, hget, hrelation, hexpected]
  revert hcondition
  generalize Filter.ofMember? "condition" _ = f
  generalize Filter.ofMember? "condition" ms = g
  intro hcondition
  cases (Entries.get? "relation" ms).bind Document.asText? with
  | none => exact .none
  | some relation =>
    rcases hcondition with hcondition | _
    · cases (Record.named ms).getD? 2 "exists" true Document.asBool? with
      | none => exact .none
      | some expected => exact .some ⟨rfl, hcondition⟩
    · exact .none

/-- The fields of an existence test, as many as there are. -/
lemma ExistenceTest.ofFields?_eq (items : List Document) :
    ExistenceTest.ofFields? items =
      match items with
      | [relation] => relation.asText?.map fun r => (⟨r, true⟩, none)
      | [relation, d] => relation.asText?.bind fun r =>
        (Filter.optionalOfDocument? d).map fun f => (⟨r, true⟩, f)
      | [relation, d, expected] => relation.asText?.bind fun r => expected.asBool?.bind fun b =>
        (Filter.optionalOfDocument? d).map fun f => (⟨r, b⟩, f)
      | _ => none := by
  rcases items with _ | ⟨relation, _ | ⟨d, _ | ⟨expected, _ | ⟨more, items⟩⟩⟩⟩
  · simp [ExistenceTest.ofFields?]
  · cases relation <;> simp [ExistenceTest.ofFields?, Document.asText?]
  · cases relation <;> simp [ExistenceTest.ofFields?, Document.asText?]
  · cases relation <;> cases expected <;>
      simp [ExistenceTest.ofFields?, Document.asText?, Document.asBool?]
  · simp [ExistenceTest.ofFields?]

lemma ExistenceTest.rel_ofFields?
    (hmem : ∀ d ∈ items, Option.Rel Filter.Agree (Filter.ofDocument? d.canonical)
      (Filter.ofDocument? d)) :
    Option.Rel ExistenceTest.Agree (ExistenceTest.ofFields? (items.map Document.canonical))
      (ExistenceTest.ofFields? items) := by
  have hcondition : ∀ d ∈ items, ∀ t : ExistenceTest, Option.Rel ExistenceTest.Agree
      ((Filter.optionalOfDocument? d.canonical).map fun f => (t, f))
      ((Filter.optionalOfDocument? d).map fun f => (t, f)) := by
    intro d hd t
    exact rel_map (Filter.rel_optionalOfDocument? (hmem d hd)) fun _ _ hfg => ⟨rfl, hfg⟩
  rw [ExistenceTest.ofFields?_eq, ExistenceTest.ofFields?_eq]
  rcases items with _ | ⟨relation, _ | ⟨d, _ | ⟨expected, _ | ⟨more, items⟩⟩⟩⟩
  · exact .none
  · simp only [List.map_cons, List.map_nil, Document.asText?_canonical]
    cases relation.asText? with
    | none => exact .none
    | some r => exact .some ⟨rfl, .none⟩
  · simp only [List.map_cons, List.map_nil, Document.asText?_canonical]
    cases relation.asText? with
    | none => exact .none
    | some r => exact hcondition d (by simp) _
  · simp only [List.map_cons, List.map_nil, Document.asText?_canonical,
      Document.asBool?_canonical]
    cases relation.asText? with
    | none => exact .none
    | some r =>
      cases expected.asBool? with
      | none => exact .none
      | some b => exact hcondition d (by simp) _
  · exact .none

end

/-! ### Entries -/

lemma Leaf.agrees_canonical {d : Document} (h : d.WellFormed) :
    (Leaf.ofDocument d.canonical).Agrees (Leaf.ofDocument d) :=
  fun kind now => Leaf.test?_canonical h true kind now

/-- Some keys ask for projections, whatever their documents are. -/
lemma FilterEntry.isProjected_of_ofDocument? {d : Document} {e : FilterEntry} {key : FilterKey}
    (hkey : key ∈ [.search, .window, .subquery] ∨
      ∃ name, key ∈ [.trunc name, .extract name, .aggregate name, .conditionalAggregate name])
    (h : FilterEntry.ofDocument? key d = some e) : e.isProjected := by
  simp only [List.mem_cons, List.not_mem_nil, or_false] at hkey
  rcases hkey with (rfl | rfl | rfl) | ⟨name, rfl | rfl | rfl | rfl⟩
  iterate 5
    · rw [ofDocument?] at h
      obtain ⟨_, -, rfl⟩ := Option.map_eq_some_iff.mp h
      rfl
  · cases d with
    | object ms =>
      rw [ofDocument?] at h
      obtain ⟨_, -, rfl⟩ := Option.map_eq_some_iff.mp h
      rfl
    | _ => simp [ofDocument?] at h
  · cases d with
    | object ms =>
      rw [ofDocument?] at h
      split at h
      · obtain rfl := Option.some.inj h
        rfl
      · simp at h
    | _ => simp [ofDocument?] at h

/-- A document is read as an entry under a key like its canonical form, if it is as a filter, as a
list of filters and as a list of existence tests. -/
lemma FilterEntry.agree_ofDocument? {d : Document} (h : d.WellFormed)
    (hfilter : Option.Rel Filter.Agree (Filter.ofDocument? d.canonical) (Filter.ofDocument? d))
    (hfilters : Option.Rel (List.Forall₂ Filter.Agree) (Filter.listOfDocument? d.canonical)
      (Filter.listOfDocument? d))
    (htests : List.Forall₂ ExistenceTest.Agree (ExistenceTest.listOfDocument d.canonical)
      (ExistenceTest.listOfDocument d)) (key : FilterKey) :
    FilterEntry.Agree (FilterEntry.ofDocument? key d.canonical)
      (FilterEntry.ofDocument? key d) := by
  have hleaf := Leaf.agrees_canonical h
  cases key with
  | all =>
    rw [ofDocument?, ofDocument?]
    refine agree_map hfilters (fun fs gs hfg c s key => ?_) fun _ => rfl
    rw [predicate?, predicate?]
    exact Predicate.agree_and? Filter.isNormal_of_mem_predicates Filter.isNormal_of_mem_predicates
      fun ctx => .of_eq (Filter.map_holds_predicates_congr hfg c s ctx)
  | any =>
    rw [ofDocument?, ofDocument?]
    refine agree_map hfilters (fun fs gs hfg c s key => ?_) fun _ => rfl
    rw [predicate?, predicate?]
    exact Predicate.agree_or? Filter.isNormal_of_mem_predicates Filter.isNormal_of_mem_predicates
      fun ctx => Filter.map_holds_predicates_congr hfg c s ctx
  | negation =>
    rw [ofDocument?, ofDocument?]
    refine agree_map hfilter (fun f g hfg c s key => ?_) fun _ => rfl
    rw [predicate?, predicate?]
    exact (hfg c s).map fun _ _ => Predicate.holds_not_congr
  | related relation =>
    rw [ofDocument?, ofDocument?]
    refine agree_map hfilter (fun f g hfg c s key => ?_) fun _ => rfl
    rw [predicate?, predicate?]
    split
    · exact hfg c _
    · exact .refl none
  | quantified relation quantifier =>
    rw [ofDocument?, ofDocument?]
    refine agree_map hfilter (fun f g hfg c s key => ?_) fun _ => rfl
    rw [predicate?, predicate?]
    split
    · exact .some (quantifier.holds_predicate_congr (hfg c _) _ _)
    · exact .refl none
  | existence =>
    rw [ofDocument?, ofDocument?]
    have hempty : (ExistenceTest.listOfDocument d.canonical).isEmpty =
        (ExistenceTest.listOfDocument d).isEmpty := by
      rw [Bool.eq_iff_iff, List.isEmpty_iff_length_eq_zero, List.isEmpty_iff_length_eq_zero,
        htests.length_eq]
    simp only [hempty]
    split
    · exact .refl none
    · refine ⟨fun c s key => ?_, fun _ => rfl⟩
      rw [Option.bind_some, Option.bind_some, predicate?, predicate?]
      refine Predicate.agree_and? ExistenceTest.isNormal_of_mem_predicates
        ExistenceTest.isNormal_of_mem_predicates fun ctx => .of_eq ?_
      rw [ExistenceTest.predicates_eq_filterMap, ExistenceTest.predicates_eq_filterMap]
      exact Predicate.map_holds_filterMap
        (htests.imp fun _ _ ht => ExistenceTest.agree_predicate? ht c s) ctx
  | id =>
    rw [ofDocument?, ofDocument?]
    refine ⟨fun c s key => ?_, fun _ => rfl⟩
    rw [Option.bind_some, Option.bind_some, predicate?, predicate?]
    exact Compiler.agree_leaf hleaf _ _ _
  | count relation =>
    rw [ofDocument?, ofDocument?]
    refine ⟨fun c s key => ?_, fun _ => rfl⟩
    rw [Option.bind_some, Option.bind_some, predicate?, predicate?]
    split
    · exact Compiler.agree_fieldPredicate? hleaf key
    · cases c.planCount? s relation <;> exact .refl none
  | field name =>
    rw [ofDocument?, ofDocument?]
    refine ⟨fun c s key => ?_, fun _ => rfl⟩
    rw [Option.bind_some, Option.bind_some, predicate?, predicate?]
    exact Compiler.agree_fieldPredicate? hleaf name
  | included =>
    rw [ofDocument?, ofDocument?]
    refine ⟨fun c s key => ?_, fun value => ?_⟩
    · rw [Option.bind_some, Option.bind_some, predicate?, predicate?]
      exact .refl none
    · have hwell := Literal.wellFormed_of_mem_toList (Literal.wellFormed_ofDocument h)
      rw [valuesOf, valuesOf, Literal.ofDocument_canonical, Literal.toList_canonical]
      exact Literal.any_equals_canonical hwell value
  | quick =>
    rw [ofDocument?, ofDocument?, Document.asText?_canonical]
    exact .refl _
  | compare =>
    rw [ofDocument?, ofDocument?,
      Document.oneOrMany?_canonical FieldComparison.ofDocument?_canonical h]
    exact .refl _
  | search | window | subquery =>
    exact agree_of_isSilent
      (fun x hx => isSilent_of_isProjected (isProjected_of_ofDocument? (.inl (by simp)) hx))
      (fun x hx => isSilent_of_isProjected (isProjected_of_ofDocument? (.inl (by simp)) hx))
  | trunc name | extract name | aggregate name | conditionalAggregate name =>
    exact agree_of_isSilent
      (fun x hx => isSilent_of_isProjected (isProjected_of_ofDocument? (.inr ⟨name, by simp⟩) hx))
      (fun x hx => isSilent_of_isProjected (isProjected_of_ofDocument? (.inr ⟨name, by simp⟩) hx))

/-! ### Documents -/

/-- What a document and its canonical form are read as agrees, as a filter, as an existence test and
as an entry under any key. -/
structure Document.ReadsAlike (d : Document) : Prop where
  filter : Option.Rel Filter.Agree (Filter.ofDocument? d.canonical) (Filter.ofDocument? d)
  test : Option.Rel ExistenceTest.Agree (ExistenceTest.ofItem? d.canonical)
    (ExistenceTest.ofItem? d)
  entry : ∀ key, FilterEntry.Agree (FilterEntry.ofDocument? key d.canonical)
    (FilterEntry.ofDocument? key d)

/-- **A document and its canonical form are read as filters that pick the same rows**, and so are
the documents inside. -/
theorem Document.readsAlike {d : Document} (h : d.WellFormed) : d.ReadsAlike := by
  induction d using Document.of_parts with
  | scalar d hscalar =>
    have hnone : Filter.ofDocument? d = none ∧ ExistenceTest.ofItem? d = none := by
      cases d with
      | array | object => simp [isScalar] at hscalar
      | _ => simp [Filter.ofDocument?, ExistenceTest.ofItem?]
    constructor
    · rw [canonical_of_isScalar hscalar, hnone.1]
      exact .none
    · rw [canonical_of_isScalar hscalar, hnone.2]
      exact .none
    · rw [canonical_of_isScalar hscalar]
      exact fun _ => .refl _
  | array items ih =>
    have hitems := itemsWellFormed_iff.mp h
    have hfilter : Option.Rel Filter.Agree (Filter.ofDocument? (array items).canonical)
        (Filter.ofDocument? (array items)) := by
      rw [canonical, Filter.ofDocument?, Filter.ofDocument?]
      · exact .none
      all_goals simp
    refine ⟨hfilter, ?_, FilterEntry.agree_ofDocument? h hfilter ?_ ?_⟩
    · rw [canonical, ExistenceTest.ofItem?, ExistenceTest.ofItem?, canonicalItems_eq_map]
      exact ExistenceTest.rel_ofFields? fun d hd => (ih d hd (hitems d hd)).filter
    · rw [canonical, Filter.listOfDocument?, Filter.listOfDocument?,
        Filter.listOfItems_eq_filterMap, Filter.listOfItems_eq_filterMap, canonicalItems_eq_map]
      exact .some (forall₂_filterMap fun d hd => (ih d hd (hitems d hd)).filter)
    · rw [canonical, ExistenceTest.listOfDocument, ExistenceTest.listOfDocument,
        ExistenceTest.listOfItems_eq_filterMap, ExistenceTest.listOfItems_eq_filterMap,
        canonicalItems_eq_map]
      exact forall₂_filterMap fun d hd => (ih d hd (hitems d hd)).test
  | object ms ih =>
    have hmem := membersWellFormed_iff.mp h.2
    have hnode : Filter.Agree (.node (FilterEntry.ofMembers (sortMembers (canonicalMembers ms))))
        (.node (FilterEntry.ofMembers ms)) :=
      Filter.agree_ofMembers h.1 (perm_canonical ms) fun m hm => (ih m hm (hmem m hm)).entry
    have htest := ExistenceTest.rel_ofMembers? h fun m hm => (ih m hm (hmem m hm)).filter
    have hfilter : Option.Rel Filter.Agree (Filter.ofDocument? (object ms).canonical)
        (Filter.ofDocument? (object ms)) := by
      rw [canonical, Filter.ofDocument?, Filter.ofDocument?]
      exact .some hnode
    refine ⟨hfilter, htest, FilterEntry.agree_ofDocument? h hfilter ?_ ?_⟩
    · rw [canonical, Filter.listOfDocument?, Filter.listOfDocument?]
      exact .some (.cons hnode .nil)
    · rw [canonical, ExistenceTest.listOfDocument, ExistenceTest.listOfDocument]
      revert htest
      generalize ExistenceTest.ofMembers? (sortMembers (canonicalMembers ms)) = t
      generalize ExistenceTest.ofMembers? ms = t'
      rintro (htest | _)
      · exact .cons htest .nil
      · exact .nil

/-! ## Conditions in another order -/

namespace Document.Reordered

variable {d d' : Document} {f f' : Filter}

/-- Filters that differ in the order of members pick the same rows. -/
lemma filters_agree (h : d.Reordered d') (hd : d.WellFormed) (hd' : d'.WellFormed)
    (hf : Filter.ofDocument? d = some f) (hf' : Filter.ofDocument? d' = some f') : f.Agree f' := by
  have hcanonical : ∀ {d f}, d.WellFormed → Filter.ofDocument? d = some f →
      ∃ g, Filter.ofDocument? d.canonical = some g ∧ g.Agree f := by
    intro d f hd hf
    have hrel := (readsAlike hd).filter
    rw [hf] at hrel
    revert hrel
    generalize Filter.ofDocument? d.canonical = o
    rintro (hrel | _)
    exact ⟨_, rfl, hrel⟩
  obtain ⟨g, hg, hagree⟩ := hcanonical hd hf
  obtain ⟨g', hg', hagree'⟩ := hcanonical hd' hf'
  rw [h.canonical_eq hd hd', hg'] at hg
  obtain rfl := Option.some.inj hg
  refine fun c s => Predicate.agree_iff.mpr fun ctx => ?_
  exact (Predicate.agree_iff.mp (hagree c s) ctx).symm.trans
    (Predicate.agree_iff.mp (hagree' c s) ctx)

/-- **Conditions that differ in the order of members have one fingerprint and pick the same rows**:
both are filters, and without projections their predicates hold of the same rows in every scope, or
neither has one. -/
theorem conditions_agree (hobject : d.isObject) (hd : d.WellFormed) (hd' : d'.WellFormed)
    (h : d.Reordered d') :
    d.fingerprint = d'.fingerprint ∧
      ∃ f f', Filter.ofDocument? d = some f ∧ Filter.ofDocument? d' = some f' ∧
        ∀ (c : Compiler) (s : Scope),
          Predicate.Agree (f.predicate? c .empty s) (f'.predicate? c .empty s) := by
  refine ⟨h.fingerprint_eq hd hd', ?_⟩
  cases d with
  | object ms =>
    cases d' with
    | object ms' =>
      have hread : ∀ ms, Filter.ofDocument? (object ms) =
          some (.node (FilterEntry.ofMembers ms)) := fun ms => by rw [Filter.ofDocument?]
      exact ⟨_, _, hread ms, hread ms', h.filters_agree hd hd' (hread ms) (hread ms')⟩
    | _ => simp [Reordered] at h
  | _ => simp [isObject] at hobject

/-- The entries of a condition and the operators of a field stand in another order. -/
theorem conditions_agree_active :
    let d := object [("id", .object [("gt", .int 1), ("lt", .int 9)]),
      ("active", .object [("eq", .bool true)])]
    let d' := object [("active", .object [("eq", .bool true)]),
      ("id", .object [("lt", .int 9), ("gt", .int 1)])]
    d.fingerprint = d'.fingerprint ∧
      ∃ f f', Filter.ofDocument? d = some f ∧ Filter.ofDocument? d' = some f' ∧
        ∀ (c : Compiler) (s : Scope),
          Predicate.Agree (f.predicate? c .empty s) (f'.predicate? c .empty s) := by
  refine conditions_agree rfl ?_ ?_ ?_
  · simp [WellFormed, MembersWellFormed, Entries.keys]
  · simp [WellFormed, MembersWellFormed, Entries.keys]
  · exact ⟨rfl, ⟨_, rfl, rfl, ⟨_, rfl, rfl⟩, ⟨_, rfl, rfl⟩, trivial⟩,
      ⟨_, rfl, rfl, ⟨_, rfl, rfl⟩, trivial⟩, trivial⟩

end Document.Reordered

end EntityFilter
