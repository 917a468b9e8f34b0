import EntityFilter.Proofs.ClosedSchemas

/-!
# The filters of a schema

A schema is made depth first, and a filter that is defined already is not entered again.  Which
filters it holds in the end does not show any of this: exactly those on the entities to which a
chain of relations leads (`Catalog.Chain`), at the depth that the chain ends in, as long as this is
above the greatest depth (`FilterLanguage.schema_holds_reachable`).  The same entity stands in a
schema once for every length of a chain to it; relations in circles give chains of many lengths.

Each step of a chain is a need of the filter that it starts from
(`FilterLanguage.filter_mem_needs`), so chains and needs lead to the same filters
(`FilterLanguage.leads_iff_chain`).
-/

namespace EntityFilter

/-- A chain of relations between entities, each of which leads to an entity of the catalog. -/
inductive Catalog.Chain (c : Catalog) : Nat → Entity → Entity → Prop
  /-- The chain without a relation. -/
  | here (x : Entity) : c.Chain 0 x x
  /-- A chain with one more relation. -/
  | step {k : Nat} {x y z : Entity} {r : Relation} (chain : c.Chain k x y)
      (relation : r ∈ y.relations.values) (target : c.entity? r.target = some z) :
      c.Chain (k + 1) x z

/-- Of objects of distinct names, one has the name under which it is found. -/
lemma InputTypes.filter_name_eq {ts : InputTypes} {name : String} {o : InputObject}
    (h : ts.get? name = some o) : ts.objects.filter (·.name = name) = [o] := by
  have hname := name_of_get? h
  have hmem : o ∈ ts.objects.filter (·.name = name) := by
    simp [List.mem_of_find?_eq_some h, hname]
  have hnodup : ((ts.objects.filter (·.name = name)).map InputObject.name).Nodup :=
    ts.nodup.sublist (List.filter_sublist.map _)
  have hall : ∀ x ∈ ts.objects.filter (·.name = name), x.name = name := fun x hx => by
    simpa using (List.mem_filter.mp hx).2
  revert hmem hnodup hall
  generalize ts.objects.filter (·.name = name) = found
  intro hmem hnodup hall
  match found with
  | [] => exact absurd hmem List.not_mem_nil
  | [x] => rw [List.mem_singleton.mp hmem]
  | x :: y :: rest =>
    have hsame : x.name = y.name := by
      rw [hall x List.mem_cons_self, hall y (List.mem_cons_of_mem _ List.mem_cons_self)]
    simp [hsame] at hnodup

namespace FilterLanguage

variable {l : FilterLanguage} {x y : Entity} {depth k : Nat}

/-- **Chains of relations lead to the filters that are needed**, one relation after the other. -/
theorem leads_iff_chain :
    Relation.ReflTransGen l.Leads (x, depth) (y, k) ↔
      ∃ steps, l.catalog.Chain steps x y ∧ k = depth + steps ∧ (0 < steps → k < l.maxDepth) := by
  constructor
  · have hchain : ∀ q, Relation.ReflTransGen l.Leads (x, depth) q →
        ∃ steps, l.catalog.Chain steps x q.1 ∧ q.2 = depth + steps ∧
          (0 < steps → q.2 < l.maxDepth) := by
      intro q hq
      induction hq with
      | refl => exact ⟨0, .here x, rfl, fun h => absurd h (Nat.lt_irrefl 0)⟩
      | @tail p q _ hstep ih =>
        obtain ⟨steps, hchain, hdepth, -⟩ := ih
        obtain ⟨hneed, hnext⟩ := hstep
        obtain ⟨hlt, r, hr, htarget⟩ := of_filter_mem_needs hneed
        exact ⟨steps + 1, .step hchain hr htarget, by omega, fun _ => by omega⟩
    exact hchain (y, k)
  · rintro ⟨steps, hchain, rfl, hlt⟩
    induction hchain with
    | here x => exact .refl
    | @step steps x y z r _ hr htarget ih =>
      have hdepth := hlt (Nat.succ_pos steps)
      exact (ih fun _ => by omega).tail ⟨filter_mem_needs hr htarget (by omega), rfl⟩

/-- **A schema holds exactly the filters that chains of relations lead to**, above the greatest
depth, and each of them once: the one object of its name is the whole filter. -/
theorem schema_holds_reachable (l : FilterLanguage) {n : String} {root : Entity} (depth : Nat)
    (hstored : ∀ p ∈ l.catalog.entities.entries, p.2.name = p.1)
    (hroot : l.catalog.entity? n = some root) :
    ∃ schema, l.schema? n depth = some schema ∧
      ∀ x ∈ l.catalog.entities.values, ∀ k,
        (filterName l.scope x.name k ∈ schema.types.names ↔
          ∃ steps, l.catalog.Chain steps root x ∧ k = depth + steps ∧
            (0 < steps → k < l.maxDepth)) ∧
        (filterName l.scope x.name k ∈ schema.types.names →
          schema.types.objects.filter (·.name = filterName l.scope x.name k) =
            [l.filterObject x k]) := by
  have hl := distinct_of_stored hstored
  have hmem := Catalog.mem_values_of_entity? hroot
  have hroom : l.maxDepth ≤ depth + (l.maxDepth - depth) := by omega
  refine ⟨_, schema?_eq_some hroot, fun x hx k => ?_⟩
  -- a name of a filter is the name of one that relations lead to
  have hreaches : filterName l.scope x.name k ∈
      (l.define (l.maxDepth - depth) root depth {}).names →
      Relation.ReflTransGen l.Leads (root, depth) (x, k) := by
    intro hname
    obtain ⟨o, ho, hname⟩ := List.mem_map.mp hname
    have hbelongs := (mem_objects_define ho).resolve_left List.not_mem_nil
    obtain ⟨y, hy, hsame, hreach, -⟩ := hbelongs.eq_filterObject hmem hname
    rwa [hl x hx y hy hsame.symm]
  refine ⟨⟨fun hname => leads_iff_chain.mp (hreaches hname), fun hchain => ?_⟩, fun hname => ?_⟩
  · exact InputTypes.mem_names_of_get?
      (defined_of_leads hl hmem hroom (leads_iff_chain.mpr hchain)).1
  · exact InputTypes.filter_name_eq (defined_of_leads hl hmem hroom (hreaches hname)).1

/-- A filter on employees holds one on the members of their teams, two relations further. -/
theorem schema_holds_reachable_staff :
    ∃ schema, Staff.language.schema? "Employee" 0 = some schema ∧
      "EmployeeWhereInputDepth2" ∈ schema.types.names ∧
      "TeamWhereInputDepth3" ∉ schema.types.names := by
  have hroot : Staff.language.catalog.entity? "Employee" = some Staff.employee := rfl
  obtain ⟨schema, hschema, hholds⟩ := Staff.language.schema_holds_reachable 0 (by decide) hroot
  have hteam : Staff.language.catalog.Chain 1 Staff.employee Staff.team :=
    .step (r := { name := "team", cardinality := .one, target := "Team" }) (.here _)
      (by decide) rfl
  have hmembers : Staff.language.catalog.Chain 2 Staff.employee Staff.employee :=
    .step (r := { name := "members", cardinality := .many, target := "Employee" }) hteam
      (by decide) rfl
  have hentities : Staff.language.catalog.entities.values = [Staff.employee, Staff.team] := rfl
  refine ⟨schema, hschema, ?_, fun hname => ?_⟩
  · exact ((hholds Staff.employee (by simp [hentities]) 2).1).mpr
      ⟨2, hmembers, rfl, fun _ => by decide⟩
  · obtain ⟨steps, -, hdepth, hlt⟩ := ((hholds Staff.team (by simp [hentities]) 3).1).mp hname
    have hmax : Staff.language.maxDepth = 3 := rfl
    have := hlt (by omega)
    omega

end FilterLanguage

end EntityFilter
