import EntityFilter.Proofs.DescribedKeys
import EntityFilter.Proofs.LinkedFilters
import EntityFilter.Proofs.OfferedKeys

/-!
# Chains of keys in a schema

The objects of a schema refer to each other: behind a key that names a relation stands the filter on
the entity that the relation leads to, one relation deeper (`FilterLanguage.Offered.of_link`).  So
whoever writes a filter by its schema, key after key, follows relations of the catalog, and the
compiler follows the same ones (`FilterSchema.Chain.exists_scope`).
-/

namespace EntityFilter

/-- A chain of keys leads from the root of a schema to the filter on an entity of a name, at a
depth: each key is that of a field of the filter before it and holds the filter after it. -/
inductive FilterSchema.Chain (schema : FilterSchema) (scope : String) :
    List Link → String → Nat → Prop where
  | root {entity : String} {depth : Nat} (name : schema.root = filterName scope entity depth) :
      Chain schema scope [] entity depth
  | link {links : List Link} {entity next : String} {depth below : Nat} {o : InputObject}
      {f : InputField} (l : Link) (chain : Chain schema scope links entity depth)
      (object : schema.types.get? (filterName scope entity depth) = some o)
      (field : o.field? l.key.written = some f)
      (type : f.type = .object (filterName scope next below)) :
      Chain schema scope (links ++ [l]) next below

/-! ## Behind one key -/

/-- What a name with an ending is read as needs the name, unless it is a field or an aggregate. -/
lemma FilterKey.ne_empty_of_ofName {name ending : String} {key : FilterKey}
    (hending : ending ∈ endings.map Prod.fst) (hread : ofName (name ++ ending) = key)
    (hkey : ∀ other, key ≠ field other ∧ key ≠ aggregate other) : name ≠ "" := by
  rintro rfl
  have halone : ∀ ending ∈ endings.map Prod.fst,
      ofName ending = field ending ∨ ofName ending = aggregate "_cond" := by decide
  rw [String.empty_append] at hread
  rcases halone ending hending with h | h
  · exact (hkey _).1 (hread.symm.trans h)
  · exact (hkey _).2 (hread.symm.trans h)

lemma Quantifier.ending_mem_endings (quantifier : Quantifier) :
    quantifier.ending ∈ FilterKey.endings.map Prod.fst := by
  cases quantifier <;> decide

lemma Link.key_ne (link : Link) (other : String) :
    link.key ≠ .field other ∧ link.key ≠ .aggregate other := by
  unfold key
  split <;> simp

namespace FilterLanguage

variable {l : FilterLanguage} {x : Entity} {k : Nat} {o : Offer}

/-- **A key that holds a filter follows a relation.** -/
theorem Offered.of_link (h : l.Offered x k o) {link : Link} (hnamed : link.relation ≠ "")
    (hkey : o.field.name = link.key.written) {entity : String} {depth : Nat}
    (htype : o.field.type = .object (filterName l.scope entity depth)) :
    ∃ r target, l.Follows x k r target ∧ k + 1 < l.maxDepth ∧ link.relation = r.name ∧
      (link.quantifier.isSome ↔ r.isToMany) ∧ entity = target.name ∧ depth = k + 1 := by
  have hread : FilterKey.ofName o.field.name = link.key := by
    rw [hkey, Link.ofName_written hnamed]
  have hplain {name : String} (hname : IsPlainName name) :
      InputType.object name ≠ .object (filterName l.scope entity depth) := fun heq =>
    hname.ne_filterName _ _ _ (InputType.object.inj heq)
  cases h with
  | @joined r target hfollows hone hnests =>
    obtain ⟨hentity, hdepth⟩ := filterName_inj (InputType.object.inj htype)
    have hname := FilterKey.ne_empty_of_ofName (by decide) hread link.key_ne
    have hsame := hread.symm.trans (FilterKey.ofName_related hname)
    obtain ⟨hrelation, hnone⟩ := Link.key_eq_related_iff.mp hsame
    exact ⟨r, target, hfollows, hnests, hrelation, by simp [hnone, hone], hentity.symm,
      hdepth.symm⟩
  | @quantified r target hfollows hmany hnests quantifier =>
    obtain ⟨hentity, hdepth⟩ := filterName_inj (InputType.object.inj htype)
    have hname := FilterKey.ne_empty_of_ofName quantifier.ending_mem_endings hread link.key_ne
    have hsame := hread.symm.trans (FilterKey.ofName_quantified hname quantifier)
    obtain ⟨hrelation, hsome⟩ := Link.key_eq_quantified_iff.mp hsame
    exact ⟨r, target, hfollows, hnests, hrelation, by simp [hsome, hmany], hentity.symm,
      hdepth.symm⟩
  | negation =>
    have hword : FilterKey.ofName "NOT" = .negation := by decide
    have hsame := hword.symm.trans hread
    unfold Link.key at hsame
    split at hsame <;> cases hsame
  | stored | identifiers | count | id =>
    exact absurd htype (hplain (FieldKind.isPlainName_operatorsName _))
  | trunc => exact absurd htype (hplain (FieldKind.isPlainName_truncName _))
  | conditional => exact absurd htype (hplain (isPlainName_conditionalAggregate _))
  | extract | aggregate | search => exact absurd htype (hplain (.inl (by decide)))
  | quick | included | combined | compare | window | subquery | existence => cases htype

/-- A field of the filter on an entity has been offered. -/
lemma exists_offered_of_field? {key : String} {f : InputField}
    (hf : (l.filterObject x k).field? key = some f) :
    ∃ o, l.Offered x k o ∧ o.field = f ∧ f.name = key := by
  obtain ⟨hmem, hname⟩ := InputObject.mem_of_field?_ofFields hf
  obtain ⟨o, ho, rfl⟩ := List.mem_map.mp hmem
  exact ⟨o, mem_offers_iff.mp ho, rfl, hname⟩

end FilterLanguage

/-! ## Behind a chain -/

section

variable {c : Compiler} {scope n : String} {e : Entity} {schema : FilterSchema}

/-- A relation that a filter follows is one that the compiler finds. -/
lemma Compiler.relation?_of_follows {s : Scope} {r : Relation} {target : Entity}
    (hkeyed : s.entity.IsKeyed) (h : (c.language scope).Follows s.entity s.depth r target) :
    c.relation? s r.name = some (r, target) :=
  Catalog.resolve?_eq_some.mpr ⟨hkeyed.relation?_name h.relation, h.target⟩

/-- The compiler goes where a key leads. -/
lemma Link.exists_scope? {s : Scope} {l : Link} {r : Relation} {target : Entity}
    (hkeyed : s.entity.IsKeyed) (h : (c.language scope).Follows s.entity s.depth r target)
    (hnest : s.depth + 1 < c.maxDepth) (hname : l.relation = r.name)
    (hmany : l.quantifier.isSome ↔ r.isToMany) :
    ∃ inner, l.scope? c s = some inner ∧ inner.entity = target := by
  have hrelation := Compiler.relation?_of_follows hkeyed h
  rw [← hname] at hrelation
  have hnests : c.canNest s := decide_eq_true hnest
  unfold scope?
  split
  · next hnone =>
    have hone : r.isToOne := by
      rw [r.isToOne_eq_not_isToMany]
      simpa [hnone] using hmany
    exact ⟨_, Compiler.joinedScope?_eq_some.mpr ⟨hnests, r, target, hrelation, hone, rfl⟩, rfl⟩
  · next hsome =>
    have htoMany : r.isToMany := hmany.mp (by rw [hsome]; rfl)
    exact ⟨_, Compiler.rowsScope?_eq_some.mpr ⟨hnests, r, target, hrelation, htoMany, rfl⟩, rfl⟩

/-- **The compiler goes where a chain leads**, and the schema has the filter there with all that it
offers. -/
theorem FilterSchema.Chain.exists_scope {links : List Link} {m : String} {k : Nat}
    (h : schema.Chain scope links m k) (hstored : c.catalog.StoresByName)
    (he : c.catalog.entity? n = some e) (hschema : (c.language scope).schema? n 0 = some schema)
    (hlinks : ∀ l ∈ links, l.relation ≠ "") :
    ∃ s, c.through? { entity := e } links = some s ∧ s.entity.name = m ∧ s.depth = k ∧
      s.entity ∈ c.catalog.entities.values ∧
      schema.types.get? (filterName scope m k) =
        some ((c.language scope).filterObject s.entity s.depth) := by
  obtain ⟨_, he', rfl⟩ := Option.map_eq_some_iff.mp hschema
  obtain rfl := Option.some.inj (he.symm.trans he')
  have hmem := Catalog.mem_values_of_entity? he
  -- the induction carries the relations followed so far, by which the schema is complete
  suffices hreached : ∃ s, c.through? { entity := e } links = some s ∧ s.entity.name = m ∧
      s.depth = k ∧ s.entity ∈ c.catalog.entities.values ∧
      Relation.ReflTransGen (c.language scope).Leads (e, 0) (s.entity, s.depth) by
    obtain ⟨s, hs, rfl, rfl, hentity, hleads⟩ := hreached
    exact ⟨s, hs, rfl, rfl, hentity, FilterLanguage.get?_of_reaches (hstored.distinct scope) hmem
      hleads⟩
  induction h with
  | root hroot =>
    obtain ⟨rfl, rfl⟩ := filterName_inj hroot
    exact ⟨_, rfl, rfl, rfl, hmem, .refl⟩
  | link l _ hobject hfield htype ih =>
    obtain ⟨hlinks, hl⟩ := List.forall_mem_append.mp hlinks
    obtain ⟨s, hs, rfl, rfl, hentity, hleads⟩ := ih hlinks
    obtain rfl := Option.some.inj
      (hobject.symm.trans (FilterLanguage.get?_of_reaches (hstored.distinct scope) hmem hleads))
    obtain ⟨offer, hoffered, rfl, hname⟩ := FilterLanguage.exists_offered_of_field? hfield
    obtain ⟨r, target, hfollows, hnest, hrelation, hmany, rfl, rfl⟩ :=
      hoffered.of_link (hl l (List.mem_singleton.mpr rfl)) hname htype
    obtain ⟨inner, hinner, rfl⟩ := Link.exists_scope? (hstored.parts _ hentity) hfollows hnest
      hrelation hmany
    have hdepth := Link.depth_scope? hinner
    refine ⟨inner, ?_, rfl, hdepth, Catalog.mem_values_of_entity? hfollows.target,
      hleads.tail ⟨FilterLanguage.filter_mem_needs hfollows.relation hfollows.target hnest,
        hdepth⟩⟩
    rw [Compiler.through?_concat, hs]
    exact hinner

end

end EntityFilter
