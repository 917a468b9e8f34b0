import EntityFilter.Proofs.DraftedFields

/-!
# What the making of a schema ends in

Relations may run in circles, but each one that is followed leads one step deeper, and none is
followed below the greatest depth.  By induction on the relations that are left, asking for a filter
ends in the types that `FilterLanguage.define` lists (`FilterLanguage.finds_whereType`), and more
calls than it takes change nothing (`FilterLanguage.below_whereType`).

So the objects that are made are those of the schema (`FilterLanguage.generate?_eq`).  None of them
is left unfinished, and none refers to a place where there is none
(`FilterLanguage.generation_closed`).
-/

namespace EntityFilter

namespace FilterLanguage

open Generating

variable {l : FilterLanguage} {again : Entity → Nat → Generating Nat}
  {follow : Entity → InputTypes → InputTypes} {e : Entity} {depth : Nat} {g : Generation}
  {ts : InputTypes}

/-! ## Asking for a filter -/

/-- A filter that has a place is not made again, be it finished or not. -/
lemma finds_whereTypeWith_of_mem (hg : g.Draws l ts) (h : l.nameOf e depth ∈ ts.names) :
    Finds l (l.whereTypeWith again e depth) g ts (l.nameOf e depth) := by
  obtain ⟨id, hid⟩ := List.getElem?_of_mem h
  refine ⟨id, g, ?_, hg, rfl, hid⟩
  unfold whereTypeWith
  rw [get_bind_apply, (hg.places _ _ _).mpr hid]
  rfl

/-- A filter that has no place is begun with, its fields are made, and it is completed. -/
lemma finds_whereTypeWith (hg : g.Draws l ts) (hcalls : l.Calls again follow e depth) :
    Finds l (l.whereTypeWith again e depth) g (l.defineWith follow e depth ts)
      (l.nameOf e depth) := by
  by_cases hname : l.nameOf e depth ∈ ts.names
  · rw [defineWith, if_pos hname]
    exact finds_whereTypeWith_of_mem hg hname
  have hdefine : l.defineWith follow e depth ts =
      (ts.define (l.filterObject e depth)).defineNeeds follow
        ((l.offers e depth).flatMap Offer.needs) := by
    rw [defineWith, if_neg hname]
    rfl
  have hown := ts.name_mem_names_define (l.filterObject e depth)
  obtain ⟨fields, g₁, hrun, hg₁, hprogress, hfields⟩ :=
    makes_whereFields hcalls _ _ (hg.begin hname) hown
  rw [← hdefine] at hg₁ hfields
  obtain ⟨hfresh, hfresh'⟩ := Option.or_eq_none_iff.mp (hg.place?_eq_none hname)
  have hkey : g₁.inProgress.get? (e.name, depth) = some g.draft.objects.length := by
    rw [hprogress]
    exact OrderedMap.get?_insert_self _ _ _
  have hid : (l.defineWith follow e depth ts).names[g.draft.objects.length]? =
      some (l.nameOf e depth) := by
    rw [hdefine, hg.length_eq]
    exact getElem?_of_prefix (hcalls.names_prefix _)
      (InputTypes.getElem?_names_define (o := l.filterObject e depth) hname)
  have hx : (l.defineWith follow e depth ts).objects[g.draft.objects.length]? =
      some (l.filterObject e depth) := by
    have hprefix : (ts.define (l.filterObject e depth)).objects <+:
        (l.defineWith follow e depth ts).objects := by
      rw [hdefine]
      exact hcalls.prefix_defineNeeds _
    obtain ⟨rest, hrest⟩ := hprefix
    rw [← hrest, InputTypes.objects_define hname, hg.length_eq]
    simp
  refine ⟨g.draft.objects.length, g₁.complete (e.name, depth) g.draft.objects.length fields, ?_,
    hg₁.complete hkey ((hg₁.places _ _ _).mpr hid) hx hfields, ?_, hid⟩
  · unfold whereTypeWith
    rw [get_bind_apply, hg.place?_eq_none hname]
    show (l.whereFields again e depth (g.begin (e.name, depth) (l.nameOf e depth)).2).bind _ = _
    rw [hrun]
    rfl
  · show g₁.inProgress.without [(e.name, depth)] = g.inProgress
    rw [hprogress]
    exact OrderedMap.without_insert hfresh'

lemma defineWith_of_mem (h : l.nameOf e depth ∈ ts.names) :
    l.defineWith follow e depth ts = ts := if_pos h

lemma define_of_mem (room : Nat) (h : l.nameOf e depth ∈ ts.names) :
    l.define room e depth ts = ts := by
  cases room with
  | zero => exact defineWith_of_mem h
  | succ room => exact defineWith_of_mem h

/-- **Asking for a filter ends in what has to be defined for it**, given a call for each relation
that can be followed, one for the filter and one for what it refers to itself by. -/
theorem finds_whereType {room calls : Nat} (hroom : l.maxDepth ≤ depth + room)
    (hcalls : room + 2 ≤ calls) (hg : g.Draws l ts) :
    Finds l (l.whereType calls e depth) g (l.define room e depth ts) (l.nameOf e depth) := by
  induction room generalizing calls e depth g ts with
  | zero =>
    obtain ⟨k, rfl⟩ : ∃ k, calls = k + 2 := ⟨calls - 2, by omega⟩
    have hcalls : l.Calls (l.whereType (k + 1)) (fun _ types => types) e depth := by
      refine ⟨fun g ts hg hown => finds_whereTypeWith_of_mem hg hown, ?_, fun _ _ _ => rfl,
        fun _ _ => List.prefix_rfl⟩
      omega
    exact finds_whereTypeWith hg hcalls
  | succ room ih =>
    obtain ⟨calls, rfl⟩ : ∃ k, calls = k + 2 := ⟨calls - 2, by omega⟩
    refine finds_whereTypeWith hg ⟨?_, ?_, ?_, ?_⟩
    · exact fun g ts hg hown => finds_whereTypeWith_of_mem hg hown
    · intro _ target g ts hg
      have hcalls : room + 2 ≤ calls + 1 := by omega
      exact ih (by omega) hcalls hg
    · exact fun target ts htarget => define_of_mem room htarget
    · exact fun target ts => prefix_define room target (depth + 1) ts

end FilterLanguage

/-! ## More calls change nothing -/

namespace Generating

variable {α β : Type} {m m' : Generating α}

/-- What one step ends in, another ends in as well. -/
def Below (m m' : Generating α) : Prop := ∀ g r, m g = some r → m' g = some r

lemma Below.refl (m : Generating α) : Below m m := fun _ _ h => h

lemma Below.bind {k k' : α → Generating β} (h : Below m m') (hk : ∀ a, Below (k a) (k' a)) :
    Below (m >>= k) (m' >>= k') := by
  intro g r hr
  rw [bind_apply] at hr ⊢
  obtain ⟨p, hp, hr⟩ := Option.bind_eq_some_iff.mp hr
  rw [h g p hp]
  exact hk p.1 p.2 r hr

lemma below_inOrder {ms ms' : List (Generating (List (InputField Nat)))}
    (h : List.Forall₂ Below ms ms') : Below (inOrder ms) (inOrder ms') := by
  induction h with
  | nil => exact .refl _
  | @cons m m' ms ms' hm _ ih =>
    rw [← List.singleton_append, ← List.singleton_append (l := ms'), inOrder_append,
      inOrder_append, inOrder_singleton, inOrder_singleton]
    exact hm.bind fun _ => ih.bind fun _ => .refl _

end Generating

namespace FilterLanguage

open Generating

variable {l : FilterLanguage} {again again' : Entity → Nat → Generating Nat} {e : Entity}
  {depth : Nat}

lemma below_relationFields (h : ∀ e depth, Below (again e depth) (again' e depth)) (r : Relation) :
    Below (l.relationFields again e depth r) (l.relationFields again' e depth r) := by
  unfold relationFields
  cases l.catalog.entity? r.target with
  | none => exact .refl _
  | some target =>
    refine below_inOrder (.cons (.refl _) ?_)
    split
    · refine List.rel_append (List.forall₂_same.mpr fun _ _ => .refl _) ?_
      split
      · exact .cons ((h _ _).bind fun _ => .refl _) .nil
      · exact .nil
    · split
      · exact .cons ((h _ _).bind fun _ => .refl _) .nil
      · exact .nil

lemma below_whereFields (h : ∀ e depth, Below (again e depth) (again' e depth)) :
    Below (l.whereFields again e depth) (l.whereFields again' e depth) := by
  refine below_inOrder (List.rel_append (List.rel_append ?_ ?_) ?_)
  · exact List.forall₂_same.mpr fun _ _ => .refl _
  · split
    · rw [List.forall₂_map_left_iff, List.forall₂_map_right_iff]
      exact List.forall₂_same.mpr fun r _ => below_relationFields h r
    · exact .nil
  · have hrefl : ∀ ms, List.Forall₂ (Below (α := List (InputField Nat))) ms ms := fun ms =>
      List.forall₂_same.mpr fun _ _ => .refl _
    refine List.rel_append (List.rel_append (List.rel_append (List.rel_append ?_ (hrefl _))
      (hrefl _)) (hrefl _)) (hrefl _)
    exact .cons (.refl _) (.cons (.refl _) (.cons ((h e depth).bind fun _ => .refl _) (hrefl _)))

/-- A result stays the same when there are more calls. -/
theorem below_whereType {calls calls' : Nat} (hle : calls ≤ calls') (e : Entity) (depth : Nat) :
    Below (l.whereType calls e depth) (l.whereType calls' e depth) := by
  induction calls generalizing calls' e depth with
  | zero => exact fun g r h => nomatch h
  | succ calls ih =>
    obtain ⟨calls', rfl⟩ : ∃ k, calls' = k + 1 := ⟨calls' - 1, by omega⟩
    refine Below.bind (.refl _) fun g => ?_
    split
    · exact .refl _
    · refine Below.bind (.refl _) fun id => Below.bind ?_ fun _ => .refl _
      exact below_whereFields fun e depth => ih (by omega) e depth

end FilterLanguage

/-! ## What has been made is the schema -/

namespace Generation.Draws

variable {l : FilterLanguage} {g : Generation} {ts : InputTypes} {o : InputObject Nat} {id : Nat}

/-- If nothing is being made, every object stands for the one at its place. -/
lemma standsFor (hg : g.Draws l ts) (hdone : g.inProgress = .empty)
    (ho : g.draft.objects[id]? = some o) :
    ∃ x, ts.objects[id]? = some x ∧ o.StandsFor ts.names x := by
  have hlt : id < ts.objects.length := hg.length_eq ▸ (List.getElem?_eq_some_iff.mp ho).1
  obtain ⟨x, hx⟩ : ∃ x, ts.objects[id]? = some x := ⟨_, List.getElem?_eq_getElem hlt⟩
  refine ⟨x, hx, (hg.objects id o x ho hx).resolve_right ?_⟩
  rintro ⟨key, hkey⟩
  rw [hdone] at hkey
  cases hkey

/-- References by place are told by the places of the names. -/
lemma eq_map (hg : g.Draws l ts) {x : InputObject} (hx : o.StandsFor ts.names x) :
    o = x.map fun name => (g.draft.ids.get? name).getD 0 := by
  have hmap := InputObject.map_eq_map (g := fun id => id)
    (k := fun name => (g.draft.ids.get? name).getD 0) hx.map fun id name hid => by
      rw [(hg.ids name id).mpr hid]
      rfl
  rwa [InputObject.map_self] at hmap

lemma nameOf_eq (hg : g.Draws l ts) {name : String} (h : ts.names[id]? = some name) :
    g.draft.nameOf id = name := by
  rw [← hg.names, List.getElem?_map] at h
  rw [SchemaDraft.nameOf, h]
  rfl

/-- If nothing is being made, references by place are told by their names. -/
lemma schema?_eq (hg : g.Draws l ts) (hdone : g.inProgress = .empty) {root : Nat} {name : String}
    (hroot : ts.names[root]? = some name) : g.draft.schema? root = some ⟨ts, name⟩ := by
  have hobjects : g.draft.objects.map (InputObject.map g.draft.nameOf) = ts.objects := by
    refine List.ext_getElem? fun id => ?_
    rw [List.getElem?_map]
    cases ho : g.draft.objects[id]? with
    | none =>
      have hle : ts.objects.length ≤ id := hg.length_eq ▸ List.getElem?_eq_none_iff.mp ho
      exact (List.getElem?_eq_none hle).symm
    | some o =>
      obtain ⟨x, hx, hstands⟩ := hg.standsFor hdone ho
      have hmap := InputObject.map_eq_map (g := g.draft.nameOf) (k := fun n => n) hstands.map
        fun _ _ hn => hg.nameOf_eq hn
      rw [Option.map_some, hx, hmap, InputObject.map_self]
  have hnodup : ((g.draft.objects.map (InputObject.map g.draft.nameOf)).map
      InputObject.name).Nodup := hobjects ▸ ts.nodup
  rw [SchemaDraft.schema?, dif_pos hnodup, hg.nameOf_eq hroot]
  simp only [hobjects]

end Generation.Draws

namespace FilterLanguage

variable (l : FilterLanguage) {n : String} {e : Entity} (depth : Nat)

/-- The filter on the entity comes first. -/
lemma getElem?_define_zero (room : Nat) (e : Entity) (depth : Nat) :
    (l.define room e depth {}).objects[0]? = some (l.filterObject e depth) := by
  obtain ⟨rest, hrest⟩ := prefix_define_filter (l := l) room e depth
  rw [← hrest]
  rfl

lemma getElem?_names_define_zero (room : Nat) (e : Entity) (depth : Nat) :
    (l.define room e depth {}).names[0]? = some (l.nameOf e depth) := by
  rw [InputTypes.names, List.getElem?_map, getElem?_define_zero]
  rfl

/-- Making the schema of an entity ends in objects that draw what is defined, however many calls are
left. -/
lemma exists_generation (e : Entity) (depth : Nat) : ∃ g : Generation,
    (∀ calls, l.callsFor depth ≤ calls → (l.whereType calls e depth).run {} = some (0, g)) ∧
      g.Draws l (l.define (l.maxDepth - depth) e depth {}) ∧ g.inProgress = .empty := by
  have hroom : l.maxDepth ≤ depth + (l.maxDepth - depth) := by omega
  obtain ⟨id, g, hrun, hg, hdone, hid⟩ :=
    finds_whereType hroom (Nat.le_refl _) (Generation.draws_nil l) (e := e)
  have hfirst := l.getElem?_names_define_zero (l.maxDepth - depth) e depth
  have hzero : id = 0 :=
    Option.some.inj (((hg.ids _ _).mpr hid).symm.trans ((hg.ids _ _).mpr hfirst))
  rw [hzero] at hrun
  exact ⟨g, fun calls hcalls => below_whereType hcalls e depth {} (0, g) hrun, hg, hdone⟩

/-- **The schema that is made step by step is the one that the language defines.** -/
theorem generate?_eq (l : FilterLanguage) (n : String) (depth : Nat) :
    l.generate? n depth = l.schema? n depth := by
  unfold generate? schema?
  cases l.catalog.entity? n with
  | none => rfl
  | some e =>
    obtain ⟨g, hrun, hg, hdone⟩ := l.exists_generation e depth
    show ((l.whereType (l.callsFor depth) e depth).run {}).bind _ = _
    rw [hrun _ (Nat.le_refl _)]
    exact hg.schema?_eq hdone (l.getElem?_names_define_zero _ e depth)

end FilterLanguage

/-- Nothing is missing in a draft: no object is still to be made, every reference is to one of the
objects, and no two of them share a name. -/
structure SchemaDraft.IsClosed (d : SchemaDraft) : Prop where
  finished : ∀ o ∈ d.objects, ¬o.isPlaceholder
  resolved : ∀ o ∈ d.objects, ∀ id ∈ o.references, id < d.objects.length
  distinct : (d.objects.map InputObject.name).Nodup

/-- **Every schema that is made is closed and finished**, whatever circles the relations run in and
whatever the depth that it begins at: asking for the filter on an entity ends, in the same objects
however many calls are left, the filter stands at the first place, and filters on an entity combine
filters at their own place. -/
theorem FilterLanguage.generation_closed (l : FilterLanguage) {n : String} {e : Entity}
    (depth : Nat) (hstored : ∀ p ∈ l.catalog.entities.entries, p.2.name = p.1)
    (he : l.catalog.entity? n = some e) :
    ∃ g : Generation,
      (∀ calls, l.callsFor depth ≤ calls → (l.whereType calls e depth).run {} = some (0, g)) ∧
      l.generate? n depth = g.draft.schema? 0 ∧ (g.draft.schema? 0).isSome ∧
      g.draft.IsClosed ∧
      g.draft.objects[0]?.map InputObject.name = some (filterName l.scope n depth) ∧
      ∀ (id : Nat) (o : InputObject Nat) (name : String) (k : Nat),
        g.draft.objects[id]? = some o → o.name = filterName l.scope name k →
        o.field? "AND" = some ⟨"AND", .list (.object id), none⟩ ∧
        o.field? "OR" = some ⟨"OR", .list (.object id), none⟩ ∧
        o.field? "NOT" = some ⟨"NOT", .object id, none⟩ := by
  obtain ⟨g, hrun, hg, hdone⟩ := l.exists_generation e depth
  have hname : e.name = n := hstored (n, e) (Entries.mem_of_get? he)
  have hschema := hg.schema?_eq hdone (l.getElem?_names_define_zero _ e depth)
  refine ⟨g, hrun, ?_, ?_, ⟨fun o ho => ?_, fun o ho id hid => ?_, ?_⟩, ?_, ?_⟩
  · rw [generate?_eq, schema?_eq_some he, hschema]
  · rw [hschema]
    rfl
  · obtain ⟨id, hid⟩ := List.getElem?_of_mem ho
    obtain ⟨x, -, hstands⟩ := hg.standsFor hdone hid
    exact hstands.finished
  · obtain ⟨i, hi⟩ := List.getElem?_of_mem ho
    obtain ⟨x, -, hstands⟩ := hg.standsFor hdone hi
    rw [← List.length_map (f := InputObject.name), hg.names]
    exact hstands.lt_length hid
  · rw [hg.names]
    exact InputTypes.nodup _
  · rw [← List.getElem?_map, hg.names, getElem?_names_define_zero, nameOf, hname]
  · intro id o name k ho hk
    obtain ⟨x, hx, hstands⟩ := hg.standsFor hdone ho
    have hbelongs : l.Belongs e depth x :=
      (mem_objects_define (List.mem_of_getElem? hx)).resolve_left List.not_mem_nil
    obtain ⟨y, -, rfl, -, rfl⟩ := hbelongs.eq_filterObject (Catalog.mem_values_of_entity? he)
      (hstands.name_eq ▸ hk)
    have hid : g.draft.ids.get? (l.nameOf y k) = some id := by
      rw [hg.ids, ← hg.names, List.getElem?_map, ho]
      exact congrArg some hk
    obtain ⟨hand, hor, hnot⟩ := l.combines_filterObject y k
    rw [hg.eq_map hstands]
    simp only [InputObject.field?_map, hand, hor, hnot, Option.map_some, InputField.map,
      InputType.map, hid, Option.getD_some, and_self]

/-- The filter on employees, who report to employees, begun one relation deep. -/
theorem FilterLanguage.generation_closed_staff :
    ∃ (g : Generation) (o : InputObject Nat),
      (Staff.language.whereType 4 Staff.employee 1).run {} = some (0, g) ∧
      g.draft.IsClosed ∧ (Staff.language.generate? "Employee" 1).isSome ∧
      g.draft.objects[0]? = some o ∧ o.name = "EmployeeWhereInputDepth1" ∧
      o.field? "AND" = some ⟨"AND", .list (.object 0), none⟩ := by
  obtain ⟨g, hrun, hgenerate, hsome, hclosed, hroot, hcombines⟩ :=
    Staff.language.generation_closed (n := "Employee") (e := Staff.employee) 1 (by decide) rfl
  obtain ⟨o, ho, hname⟩ := Option.map_eq_some_iff.mp hroot
  exact ⟨g, o, hrun 4 (by decide), hclosed, hgenerate ▸ hsome, ho, hname,
    (hcombines 0 o "Employee" 1 ho hname).1⟩

end EntityFilter
