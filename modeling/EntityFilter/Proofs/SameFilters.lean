import EntityFilter.Proofs.SettledTypes

/-!
# A filter looks the same in every schema

A reader of a schema looks up the objects that the fields of a filter refer to and sees their names
(`FilterSchema.typeText?`).  The same filter may stand in many schemas: as their root, at the end of
a chain of relations, or on a way that comes back to it while it is being defined; and the other
types that are defined by then differ each time.  Still the fields of the filter look alike in all
of them, and like those of the root of its own schema (`FilterLanguage.fieldTexts_eq`).

A name of a filter belongs to one entity and one depth, so what is found under it is the whole
filter (`FilterLanguage.get?_of_mem_names`), and none of its references is missing
(`FilterLanguage.fieldTexts_filterObject`).
-/

namespace EntityFilter

namespace FilterSchema

/-- The text of a type, in which an object is shown under the name of its definition. -/
def typeText? (s : FilterSchema) : InputType → Option String
  | .scalar x => some x.name
  | .object n => (s.types.get? n).map InputObject.name
  | .list element => (s.typeText? element).map fun text => "[" ++ text ++ "]"

/-- The fields of an object: names, texts of types, and descriptions, in order. -/
def fieldTexts (s : FilterSchema) (o : InputObject) :
    List (String × Option String × Option String) :=
  o.fields.values.map fun f => (f.name, s.typeText? f.type, f.description)

/-- A type whose reference is defined has a text. -/
lemma typeText?_eq_some {s : FilterSchema} {t : InputType}
    (h : ∀ n, t.objectName? = some n → n ∈ s.types.names) : s.typeText? t = some t.render := by
  induction t with
  | scalar x => rfl
  | object n =>
    obtain ⟨o, ho⟩ := InputTypes.exists_get?_of_mem_names (h n rfl)
    rw [typeText?, ho, Option.map_some, InputTypes.name_of_get? ho]
    rfl
  | list element ih =>
    rw [typeText?, ih h]
    rfl

/-- An object of which no reference is missing looks as it is written down. -/
lemma fieldTexts_eq_map {s : FilterSchema} {o : InputObject}
    (h : ∀ n ∈ o.references, n ∈ s.types.names) :
    s.fieldTexts o = o.fields.values.map fun f => (f.name, some f.type.render, f.description) := by
  refine List.map_congr_left fun f hf => ?_
  rw [typeText?_eq_some fun n hn => h n (List.mem_filterMap.mpr ⟨f, hf, hn⟩)]

end FilterSchema

namespace FilterLanguage

variable {l : FilterLanguage} {s s' : FilterSchema} {n n' name : String} {depth depth' k : Nat}
  {x : Entity}

/-- A filter of a schema looks like its offers. -/
lemma fieldTexts_filterObject (hs : l.schema? n depth = some s)
    (hx : l.filterObject x k ∈ s.types.objects) :
    s.fieldTexts (l.filterObject x k) =
      (l.filterObject x k).fields.values.map fun f =>
        (f.name, some f.type.render, f.description) :=
  FilterSchema.fieldTexts_eq_map (isSettled_of_schema hs hx).resolved

/-- What has the name of a filter is the whole filter on the entity of that name. -/
lemma get?_of_mem_names (hstored : ∀ p ∈ l.catalog.entities.entries, p.2.name = p.1)
    (hs : l.schema? n depth = some s) (hname : filterName l.scope name k ∈ s.types.names) :
    ∃ x, l.catalog.entity? name = some x ∧
      s.types.get? (filterName l.scope name k) = some (l.filterObject x k) := by
  obtain ⟨e, he, rfl⟩ := Option.map_eq_some_iff.mp hs
  obtain ⟨o, ho⟩ := InputTypes.exists_get?_of_mem_names hname
  have hbelongs := (mem_objects_define (List.mem_of_find?_eq_some ho)).resolve_left
    List.not_mem_nil
  obtain ⟨x, hx, rfl, -, rfl⟩ :=
    hbelongs.eq_filterObject (Catalog.mem_values_of_entity? he) (InputTypes.name_of_get? ho)
  refine ⟨x, ?_, ho⟩
  obtain ⟨p, hp, rfl⟩ := List.mem_map.mp hx
  show l.catalog.entities.get? p.2.name = some p.2
  rw [hstored p hp]
  exact Entries.get?_of_mem l.catalog.entities.nodup hp

/-- A schema has the name of every filter that relations lead to. -/
lemma mem_names_of_leads (hstored : ∀ p ∈ l.catalog.entities.entries, p.2.name = p.1)
    (hs : l.schema? n depth = some s) {e : Entity} (he : l.catalog.entity? n = some e)
    (h : Relation.ReflTransGen l.Leads (e, depth) (x, k)) :
    filterName l.scope x.name k ∈ s.types.names := by
  obtain rfl := Option.some.inj ((schema?_eq_some he).symm.trans hs)
  have hroom : l.maxDepth ≤ depth + (l.maxDepth - depth) := by omega
  exact InputTypes.mem_names_of_get? (defined_of_leads (distinct_of_stored hstored)
    (Catalog.mem_values_of_entity? he) hroom h).1

/-- **A filter looks the same in every schema.**  If two schemas hold a filter, its fields look
alike in both, and they are those of the root of the schema that is made from this filter. -/
theorem fieldTexts_eq (hstored : ∀ p ∈ l.catalog.entities.entries, p.2.name = p.1)
    (hs : l.schema? n depth = some s) (hs' : l.schema? n' depth' = some s')
    (hname : filterName l.scope name k ∈ s.types.names)
    (hname' : filterName l.scope name k ∈ s'.types.names) :
    ∃ own root o o', l.schema? name k = some own ∧ own.rootObject? = some root ∧
      s.types.get? (filterName l.scope name k) = some o ∧
      s'.types.get? (filterName l.scope name k) = some o' ∧
      s.fieldTexts o = own.fieldTexts root ∧ s'.fieldTexts o' = own.fieldTexts root := by
  obtain ⟨x, hx, ho⟩ := get?_of_mem_names hstored hs hname
  obtain ⟨x', hx', ho'⟩ := get?_of_mem_names hstored hs' hname'
  obtain rfl := Option.some.inj (hx.symm.trans hx')
  have hown : l.schema? name k = some _ := schema?_eq_some hx
  have hroot : (l.define (l.maxDepth - k) x k {}).get? (l.nameOf x k) =
      some (l.filterObject x k) := get?_root
  refine ⟨_, _, _, _, hown, hroot, ho, ho', ?_, ?_⟩
  · rw [fieldTexts_filterObject hs (List.mem_of_find?_eq_some ho),
      fieldTexts_filterObject hown (List.mem_of_find?_eq_some hroot)]
  · rw [fieldTexts_filterObject hs' (List.mem_of_find?_eq_some ho'),
      fieldTexts_filterObject hown (List.mem_of_find?_eq_some hroot)]

/-- Employees two relations away from employees, and one away from teams, look like employees. -/
theorem fieldTexts_eq_staff :
    ∃ s s' own root o o', Staff.language.schema? "Employee" 0 = some s ∧
      Staff.language.schema? "Team" 1 = some s' ∧ Staff.language.schema? "Employee" 2 = some own ∧
      own.rootObject? = some root ∧ s.types.get? "EmployeeWhereInputDepth2" = some o ∧
      s'.types.get? "EmployeeWhereInputDepth2" = some o' ∧
      s.fieldTexts o = own.fieldTexts root ∧ s'.fieldTexts o' = own.fieldTexts root := by
  have hstored : ∀ p ∈ Staff.language.catalog.entities.entries, p.2.name = p.1 := by decide
  have hteam : Staff.language.Leads (Staff.employee, 0) (Staff.team, 1) :=
    ⟨filter_mem_needs (r := { name := "team", cardinality := .one, target := "Team" })
      (by decide) rfl (by decide), rfl⟩
  have hmembers : Staff.language.Leads (Staff.team, 1) (Staff.employee, 2) :=
    ⟨filter_mem_needs (r := { name := "members", cardinality := .many, target := "Employee" })
      (by decide) rfl (by decide), rfl⟩
  have hs : Staff.language.schema? "Employee" 0 = some ⟨_, _⟩ := rfl
  have hs' : Staff.language.schema? "Team" 1 = some ⟨_, _⟩ := rfl
  obtain ⟨own, root, o, o', hown, hroot, ho, ho', htexts⟩ := fieldTexts_eq hstored hs hs'
    (mem_names_of_leads hstored hs rfl (.tail (.single hteam) hmembers))
    (mem_names_of_leads hstored hs' rfl (.single hmembers))
  exact ⟨_, _, own, root, o, o', hs, hs', hown, hroot, ho, ho', htexts⟩

end FilterLanguage

end EntityFilter
