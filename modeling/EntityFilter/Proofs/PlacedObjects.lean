import EntityFilter.FilterSchema.Draft
import EntityFilter.Proofs.DescribedKeys
import Mathlib.Data.List.Forall2

/-!
# Objects by place and by name

While a schema is made, objects refer to each other by their places; in the schema they do so by
their names.  A reference by place stands for the name at that place, so what an object stands for
(`InputObject.StandsFor`) is settled as soon as the names are there, and does not change when more
are added (`InputObject.StandsFor.mono`).

`Generation.Draws` compares what has been made so far with a list of types.  Both have the same
names in the same order, a place is found under its name and under its entity and depth, and each
object stands for the one at its place unless its fields are still being made.  This is kept when
an object is added (`Generation.Draws.push`), when a filter is begun with
(`Generation.Draws.begin`) and when it is completed (`Generation.Draws.complete`).
-/

namespace EntityFilter

/-- What is equal after one pair of functions is equal after another. -/
lemma map_eq_map_of_imp {α β γ δ : Type} {f : α → γ} {g : β → γ} {f' : α → δ} {g' : β → δ}
    {as : List α} {bs : List β} (h : as.map f = bs.map g) (himp : ∀ a b, f a = g b → f' a = g' b) :
    as.map f' = bs.map g' := by
  rw [← List.forall₂_eq_eq_eq, List.forall₂_map_left_iff, List.forall₂_map_right_iff] at h ⊢
  exact h.imp himp

lemma getElem?_concat_eq_some_iff {α : Type} {xs : List α} {x y : α} {i : Nat} :
    (xs ++ [x])[i]? = some y ↔ xs[i]? = some y ∨ i = xs.length ∧ x = y := by
  rw [List.getElem?_append]
  split
  · next h => simp [Nat.ne_of_lt h]
  · next h =>
    have hnone : xs[i]? = none := List.getElem?_eq_none (Nat.le_of_not_lt h)
    rw [hnone, List.getElem?_singleton]
    split <;> simp <;> omega

namespace OrderedMap

variable {κ α β : Type} [DecidableEq κ]

lemma get?_mapValues (f : α → β) (m : OrderedMap κ α) (k : κ) :
    (m.mapValues f).get? k = (m.get? k).map f := Entries.get?_map_snd f k m.entries

omit [DecidableEq κ] in
lemma values_mapValues (f : α → β) (m : OrderedMap κ α) :
    (m.mapValues f).values = m.values.map f := by
  unfold values mapValues
  rw [List.map_map, List.map_map]
  rfl

lemma mapValues_insert (f : α → β) (m : OrderedMap κ α) (k : κ) (v : α) :
    (m.insert k v).mapValues f = (m.mapValues f).insert k (f v) := by
  have hentries : ∀ es : List (κ × α), (Entries.insert k v es).map (fun e => (e.1, f e.2)) =
      Entries.insert k (f v) (es.map fun e => (e.1, f e.2)) := by
    intro es
    induction es with
    | nil => rfl
    | cons e es ih =>
      by_cases h : e.1 = k
      · simp [Entries.insert, h]
      · simp [Entries.insert, h, ih]
  unfold mapValues insert
  simp only [hentries]

lemma mapValues_ofList (f : α → β) (pairs : List (κ × α)) :
    (ofList pairs).mapValues f = ofList (pairs.map fun p => (p.1, f p.2)) := by
  have hfold : ∀ (pairs : List (κ × α)) (m : OrderedMap κ α),
      (pairs.foldl (fun m p => m.insert p.1 p.2) m).mapValues f =
        (pairs.map fun p => (p.1, f p.2)).foldl (fun m p => m.insert p.1 p.2) (m.mapValues f) := by
    intro pairs
    induction pairs with
    | nil => exact fun _ => rfl
    | cons p pairs ih =>
      intro m
      rw [List.foldl_cons, ih, mapValues_insert]
      rfl
  exact hfold pairs empty

lemma get?_without_singleton {m : OrderedMap κ α} {k k' : κ} (h : k' ≠ k) :
    (m.without [k]).get? k' = m.get? k' := by
  have hentries : ∀ es : List (κ × α),
      Entries.get? k' (es.filter fun e => e.1 ∉ [k]) = Entries.get? k' es := by
    intro es
    induction es with
    | nil => rfl
    | cons e es ih =>
      by_cases he : e.1 = k
      · rw [List.filter_cons_of_neg (by simp [he]), ih]
        simp [Entries.get?, he, Ne.symm h]
      · rw [List.filter_cons_of_pos (by simp [he])]
        simp only [Entries.get?, ih]
  exact hentries m.entries

/-- What is stored under a new key can be left out again. -/
lemma without_insert {m : OrderedMap κ α} {k : κ} {v : α} (h : m.get? k = none) :
    (m.insert k v).without [k] = m := by
  have hnew : k ∉ Entries.keys m.entries := Entries.get?_eq_none_iff.mp h
  have hold : ∀ e ∈ m.entries, e.1 ∉ [k] := by
    rintro e he hk
    rw [List.mem_singleton] at hk
    exact hnew (hk ▸ List.mem_map_of_mem he)
  have hentries : (Entries.insert k v m.entries).filter (fun e => e.1 ∉ [k]) = m.entries := by
    rw [Entries.insert_eq_append hnew, List.filter_append,
      List.filter_eq_self.mpr fun e he => decide_eq_true (hold e he)]
    simp
  unfold without insert
  simp only [hentries]

end OrderedMap

/-! ## What references stand for -/

section

variable {ρ σ τ : Type} {f : ρ → Option σ} {g : ρ → τ} {k : σ → τ}

lemma InputType.map_eq_map {t : InputType ρ} {t' : InputType σ} (h : t.map f = t'.map some)
    (himp : ∀ i n, f i = some n → g i = k n) : t.map g = t'.map k := by
  induction t generalizing t' with
  | scalar s =>
    cases t' with
    | scalar s' => cases h; rfl
    | object | list => cases h
  | object i =>
    cases t' with
    | object n => exact congrArg InputType.object (himp i n (InputType.object.inj h))
    | scalar | list => cases h
  | list element ih =>
    cases t' with
    | list element' => exact congrArg InputType.list (ih (InputType.list.inj h))
    | scalar | object => cases h

lemma InputField.map_eq_map {a : InputField ρ} {b : InputField σ} (h : a.map f = b.map some)
    (himp : ∀ i n, f i = some n → g i = k n) : a.map g = b.map k := by
  obtain ⟨hname, htype, hdescription⟩ := InputField.mk.inj h
  exact InputField.mk.injEq _ _ _ _ _ _ ▸
    ⟨hname, InputType.map_eq_map htype himp, hdescription⟩

lemma InputObject.map_eq_map {o : InputObject ρ} {x : InputObject σ} (h : o.map f = x.map some)
    (himp : ∀ i n, f i = some n → g i = k n) : o.map g = x.map k := by
  obtain ⟨hname, hfields, hflag⟩ := InputObject.mk.inj h
  have hentries := congrArg OrderedMap.entries hfields
  refine InputObject.mk.injEq _ _ _ _ _ _ ▸ ⟨hname, ?_, hflag⟩
  refine OrderedMap.mk.injEq _ _ _ _ ▸ map_eq_map_of_imp hentries fun a b hab => ?_
  exact Prod.ext (Prod.mk.inj hab).1 (InputField.map_eq_map (Prod.mk.inj hab).2 himp)

lemma InputType.map_self (t : InputType ρ) : t.map (fun n => n) = t := by
  induction t with
  | scalar | object => rfl
  | list element ih => exact congrArg InputType.list ih

lemma InputObject.map_self (o : InputObject ρ) : o.map (fun n => n) = o := by
  have hfield : ∀ f : InputField ρ, f.map (fun n => n) = f := fun f =>
    InputField.mk.injEq _ _ _ _ _ _ ▸ ⟨rfl, f.type.map_self, rfl⟩
  have hfields : o.fields.mapValues (InputField.map fun n => n) = o.fields := by
    refine OrderedMap.mk.injEq _ _ _ _ ▸ ?_
    rw [funext fun e : String × InputField ρ => congrArg (Prod.mk e.1) (hfield e.2)]
    exact List.map_id _
  exact InputObject.mk.injEq _ _ _ _ _ _ ▸ ⟨rfl, hfields, rfl⟩

lemma InputObject.field?_map (g : ρ → τ) (o : InputObject ρ) (key : String) :
    (o.map g).field? key = (o.field? key).map (.map g) := OrderedMap.get?_mapValues _ o.fields key

lemma InputObject.map_ofFields (g : ρ → τ) (name : String) (fields : List (InputField ρ)) :
    (InputObject.ofFields name fields).map g = .ofFields name (fields.map (.map g)) := by
  unfold map ofFields
  simp only [OrderedMap.mapValues_ofList, List.map_map]
  rfl

end

/-- References by place stand for the names at these places. -/
def InputType.StandsFor (names : List String) (t : InputType Nat) (t' : InputType) : Prop :=
  t.map (names[·]?) = t'.map some

/-- Fields stand for others one by one. -/
def InputField.StandFor (names : List String) (fs : List (InputField Nat))
    (fs' : List InputField) : Prop :=
  fs.map (InputField.map (names[·]?)) = fs'.map (InputField.map some)

/-- A finished object whose fields stand for those of another. -/
structure InputObject.StandsFor (names : List String) (o : InputObject Nat) (x : InputObject) :
    Prop where
  map : o.map (names[·]?) = x.map some
  finished : ¬o.isPlaceholder

section

variable {names names' : List String} {o : InputObject Nat} {x : InputObject} {id : Nat}
  {n : String}

lemma getElem?_of_prefix (h : names <+: names') (hn : names[id]? = some n) :
    names'[id]? = some n := by
  obtain ⟨rest, rfl⟩ := h
  rw [List.getElem?_append_left (List.getElem?_eq_some_iff.mp hn).1, hn]

lemma InputField.StandFor.mono {fs : List (InputField Nat)} {fs' : List InputField}
    (h : InputField.StandFor names fs fs') (hgrows : names <+: names') :
    InputField.StandFor names' fs fs' :=
  map_eq_map_of_imp h fun _ _ heq =>
    InputField.map_eq_map heq fun _ _ => getElem?_of_prefix hgrows

lemma InputField.StandFor.append {fs gs : List (InputField Nat)} {fs' gs' : List InputField}
    (h : InputField.StandFor names fs fs') (h' : InputField.StandFor names gs gs') :
    InputField.StandFor names (fs ++ gs) (fs' ++ gs') := by
  unfold InputField.StandFor at h h' ⊢
  rw [List.map_append, List.map_append, h, h']

lemma InputField.standFor_cons {f : InputField Nat} {f' : InputField} {fs : List (InputField Nat)}
    {fs' : List InputField} (hname : f.name = f'.name)
    (htype : f.type.StandsFor names f'.type) (hdescription : f.description = f'.description)
    (h : InputField.StandFor names fs fs') : InputField.StandFor names (f :: fs) (f' :: fs') :=
  congrArg₂ List.cons (InputField.mk.injEq _ _ _ _ _ _ ▸ ⟨hname, htype, hdescription⟩) h

lemma InputField.standFor_nil : InputField.StandFor names [] [] := rfl

lemma InputType.standsFor_object (h : names[id]? = some n) :
    (InputType.object id).StandsFor names (.object n) := congrArg InputType.object h

namespace InputObject

lemma StandsFor.mono (h : o.StandsFor names x) (hgrows : names <+: names') :
    o.StandsFor names' x where
  map := map_eq_map h.map fun _ _ => getElem?_of_prefix hgrows
  finished := h.finished

lemma StandsFor.name_eq (h : o.StandsFor names x) : o.name = x.name :=
  congrArg (@InputObject.name (Option String)) h.map

/-- Objects of fields stand for each other if the fields do. -/
lemma standsFor_ofFields {fs : List (InputField Nat)} {fs' : List InputField}
    (h : InputField.StandFor names fs fs') (title : String) :
    (ofFields title fs).StandsFor names (ofFields title fs') where
  map := by rw [map_ofFields, map_ofFields, h]
  finished := Bool.false_ne_true

/-- The places that an object refers to have names. -/
lemma StandsFor.lt_length (h : o.StandsFor names x) (hid : id ∈ o.references) :
    id < names.length := by
  have htype : ∀ (t : InputType Nat) (t' : InputType), t.StandsFor names t' →
      t.objectName? = some id → ∃ n, names[id]? = some n := by
    intro t
    induction t with
    | scalar s => exact fun _ _ hnone => nomatch hnone
    | object i =>
      intro t' ht hi
      cases t' with
      | object n =>
        cases hi
        exact ⟨n, InputType.object.inj ht⟩
      | scalar | list => cases ht
    | list element ih =>
      intro t' ht hi
      cases t' with
      | list element' => exact ih element' (InputType.list.inj ht) hi
      | scalar | object => cases ht
  obtain ⟨f, hf, hid⟩ := List.mem_filterMap.mp hid
  have hvalues : InputField.StandFor names o.fields.values x.fields.values := by
    have hfields := congrArg (fun y : InputObject (Option String) => y.fields.values) h.map
    simpa only [InputField.StandFor, InputObject.map, OrderedMap.values_mapValues] using hfields
  have hmem : f.map (names[·]?) ∈ x.fields.values.map (InputField.map some) := hvalues ▸
    List.mem_map_of_mem hf
  obtain ⟨f', -, heq⟩ := List.mem_map.mp hmem
  obtain ⟨n, hn⟩ := htype f.type f'.type (InputField.mk.inj heq).2.1.symm hid
  exact (List.getElem?_eq_some_iff.mp hn).1

end InputObject

end

/-! ## What has been made so far -/

namespace FieldKind

variable {kind kind' : FieldKind}

lemma mem_operatorsDefinitions_iff {o : InputObject} : o ∈ kind.operatorsDefinitions ↔
    kind.operators.any (·.shape = .integer) ∧ o = int.operatorsObject ∨
      o = kind.operatorsObject := by
  simp only [operatorsDefinitions, List.mem_append, List.mem_ite_nil_right, List.mem_singleton]

/-- Kinds whose operators share a name need the same names. -/
lemma name_mem_of_operatorsName_eq {names : List String}
    (hname : kind'.operatorsName = kind.operatorsName)
    (h : ∀ o ∈ kind.operatorsDefinitions, o.name ∈ names) :
    ∀ o ∈ kind'.operatorsDefinitions, o.name ∈ names := by
  intro o ho
  rcases mem_operatorsDefinitions_iff.mp ho with ⟨htakes, rfl⟩ | rfl
  · rw [operators_eq hname] at htakes
    exact h _ (mem_operatorsDefinitions_iff.mpr (.inl ⟨htakes, rfl⟩))
  · have hown : kind'.operatorsObject.name = kind.operatorsObject.name := hname
    exact hown ▸ h _ (mem_operatorsDefinitions_iff.mpr (.inr rfl))

end FieldKind

/-- What has been made so far has its names and its places in common with a list of types, and each
object stands for the one at its place, or is being made. -/
structure Generation.Draws (l : FilterLanguage) (g : Generation) (ts : InputTypes) : Prop where
  names : g.draft.objects.map InputObject.name = ts.names
  ids : ∀ name id, g.draft.ids.get? name = some id ↔ ts.names[id]? = some name
  places : ∀ name k id,
    g.place? (name, k) = some id ↔ ts.names[id]? = some (filterName l.scope name k)
  objects : ∀ id o x, g.draft.objects[id]? = some o → ts.objects[id]? = some x →
    o.StandsFor ts.names x ∨ ∃ key, g.inProgress.get? key = some id
  operators : ∀ kind : FieldKind, kind.operatorsName ∈ ts.names →
    ∀ o ∈ kind.operatorsDefinitions, o.name ∈ ts.names

namespace InputTypes

variable {ts : InputTypes} {o : InputObject} {name : String}

lemma define_of_mem (h : o.name ∈ ts.names) : ts.define o = ts := dif_pos h

lemma objects_define (h : o.name ∉ ts.names) : (ts.define o).objects = ts.objects ++ [o] := by
  rw [define, dif_neg h]

lemma names_define_of_notMem (h : o.name ∉ ts.names) :
    (ts.define o).names = ts.names ++ [o.name] := by
  rw [names_define, if_neg h]

lemma names_prefix_define (ts : InputTypes) (o : InputObject) :
    ts.names <+: (ts.define o).names := (ts.prefix_define o).map _

lemma getElem?_names_define (h : o.name ∉ ts.names) :
    (ts.define o).names[ts.objects.length]? = some o.name := by
  have hlength : ts.objects.length = ts.names.length := (List.length_map _).symm
  rw [names_define_of_notMem h, hlength, List.getElem?_concat_length]

end InputTypes

lemma SchemaDraft.getElem?_finish (d : SchemaDraft) (id i : Nat) (fields : List (InputField Nat)) :
    (d.finish id fields).objects[i]? =
      if id = i then d.objects[i]?.map fun o => .ofFields o.name fields else d.objects[i]? := by
  rw [finish, List.getElem?_modify]
  split <;> simp

namespace Generation

variable {l : FilterLanguage} {g : Generation} {ts : InputTypes} {o : InputObject Nat}
  {x : InputObject} {e : Entity} {depth id : Nat}

/-- A filter has a place from its beginning. -/
lemma place?_begin {key : String × Nat} (h : g.place? key = none) (name : String)
    (key' : String × Nat) : (g.begin key name).2.place? key' =
      if key' = key then some g.draft.objects.length else g.place? key' := by
  show (g.finished.get? key').or ((g.inProgress.insert key g.draft.objects.length).get? key') = _
  split
  · next heq =>
    obtain ⟨hfinished, -⟩ := Option.or_eq_none_iff.mp h
    rw [heq, hfinished, OrderedMap.get?_insert_self, Option.none_or]
  · next hne => rw [OrderedMap.get?_insert_of_ne _ hne, place?]

/-- A filter keeps its place when it is completed. -/
lemma place?_complete {key : String × Nat} (h : g.place? key = some id)
    (fields : List (InputField Nat)) (key' : String × Nat) :
    (g.complete key id fields).place? key' = g.place? key' := by
  show ((g.finished.insert key id).get? key').or ((g.inProgress.without [key]).get? key') = _
  by_cases heq : key' = key
  · rw [heq, OrderedMap.get?_insert_self, h, Option.some_or]
  · rw [OrderedMap.get?_insert_of_ne _ heq, OrderedMap.get?_without_singleton heq, place?]

lemma draws_nil (l : FilterLanguage) : ({} : Generation).Draws l {} where
  names := rfl
  ids _ _ := iff_of_false (fun h => nomatch h) (fun h => nomatch h)
  places _ _ _ := iff_of_false (fun h => nomatch h) (fun h => nomatch h)
  objects _ _ _ h := nomatch h
  operators _ h := absurd h List.not_mem_nil

namespace Draws

lemma length_eq (h : g.Draws l ts) : g.draft.objects.length = ts.objects.length := by
  rw [← List.length_map (f := InputObject.name), h.names, InputTypes.names, List.length_map]

lemma ids_eq_none (h : g.Draws l ts) {name : String} (hname : name ∉ ts.names) :
    g.draft.ids.get? name = none := by
  rw [Option.eq_none_iff_forall_ne_some]
  exact fun id hid => hname (List.mem_of_getElem? ((h.ids name id).mp hid))

/-- What holds of names and places holds after an object has been put at the end. -/
lemma push_names (h : g.Draws l ts) (hnew : x.name ∉ ts.names) (hname : o.name = x.name) :
    (g.draft.push o).2.objects.map InputObject.name = (ts.define x).names ∧
      ∀ name id, (g.draft.push o).2.ids.get? name = some id ↔
        (ts.define x).names[id]? = some name := by
  have hlength : g.draft.objects.length = ts.names.length := by
    rw [h.length_eq, InputTypes.names, List.length_map]
  rw [InputTypes.names_define_of_notMem hnew]
  refine ⟨by simp [SchemaDraft.push, h.names, hname], fun name id => ?_⟩
  rw [getElem?_concat_eq_some_iff, ← h.ids]
  show (g.draft.ids.insert o.name g.draft.objects.length).get? name = some id ↔ _
  by_cases heq : name = x.name
  · subst heq
    rw [hname, OrderedMap.get?_insert_self, h.ids_eq_none hnew, hlength]
    simp [eq_comm]
  · rw [hname, OrderedMap.get?_insert_of_ne _ heq]
    simp [Ne.symm heq]

/-- What stands for the objects that have been there goes on doing so. -/
lemma push_objects (h : g.Draws l ts) (hnew : x.name ∉ ts.names) {id : Nat} {o' : InputObject Nat}
    {x' : InputObject} (ho : (g.draft.push o).2.objects[id]? = some o')
    (hx : (ts.define x).objects[id]? = some x') :
    (o'.StandsFor (ts.define x).names x' ∨ ∃ key, g.inProgress.get? key = some id) ∨
      id = g.draft.objects.length ∧ o' = o ∧ x' = x := by
  rw [InputTypes.objects_define hnew, getElem?_concat_eq_some_iff, ← h.length_eq] at hx
  rcases getElem?_concat_eq_some_iff.mp ho with ho | ⟨rfl, rfl⟩
  · rcases hx with hx | ⟨rfl, rfl⟩
    · exact .inl ((h.objects id o' x' ho hx).imp_left (·.mono (ts.names_prefix_define x)))
    · exact absurd (List.getElem?_eq_some_iff.mp ho).1 (Nat.lt_irrefl _)
  · rcases hx with hx | ⟨-, rfl⟩
    · exact absurd (h.length_eq ▸ (List.getElem?_eq_some_iff.mp hx).1) (Nat.lt_irrefl _)
    · exact .inr ⟨rfl, rfl, rfl⟩

/-- The operators of a kind come with what they need after one more object. -/
lemma push_operators (h : g.Draws l ts)
    (hops : ∀ kind : FieldKind, kind.operatorsName = x.name →
      ∀ o ∈ kind.operatorsDefinitions, o.name ∈ (ts.define x).names) (kind : FieldKind)
    (hkind : kind.operatorsName ∈ (ts.define x).names) :
    ∀ o ∈ kind.operatorsDefinitions, o.name ∈ (ts.define x).names := by
  rcases InputTypes.mem_names_define hkind with hold | heq
  · exact fun o ho => (ts.names_prefix_define x).subset (h.operators kind hold o ho)
  · exact hops kind heq

/-- An object that is no filter is put at the end. -/
lemma push (h : g.Draws l ts) (hnew : x.name ∉ ts.names) (hx : o.StandsFor ts.names x)
    (hplain : IsPlainName x.name)
    (hops : ∀ kind : FieldKind, kind.operatorsName = x.name →
      ∀ o ∈ kind.operatorsDefinitions, o.name ∈ (ts.define x).names) :
    ({ g with draft := (g.draft.push o).2 } : Generation).Draws l (ts.define x) where
  names := (h.push_names hnew hx.name_eq).1
  ids := (h.push_names hnew hx.name_eq).2
  places name k id := by
    rw [InputTypes.names_define_of_notMem hnew, getElem?_concat_eq_some_iff, ← h.places]
    simp [hplain.ne_filterName, place?]
  objects id o' x' ho hx' := by
    rcases h.push_objects hnew ho hx' with hold | ⟨-, rfl, rfl⟩
    · exact hold
    · exact .inl (hx.mono (ts.names_prefix_define _))
  operators := h.push_operators hops

/-- No kind of operators has the name of a filter. -/
lemma operatorsName_ne (kind : FieldKind) (l : FilterLanguage) (e : Entity) (depth : Nat) :
    kind.operatorsName ≠ l.nameOf e depth := kind.isPlainName_operatorsName.ne_filterName _ _ _

lemma place?_eq_none (h : g.Draws l ts) (hnew : l.nameOf e depth ∉ ts.names) :
    g.place? (e.name, depth) = none := by
  rw [Option.eq_none_iff_forall_ne_some]
  exact fun id hid => hnew (List.mem_of_getElem? ((h.places _ _ id).mp hid))

/-- A filter that has no place gets the next one. -/
lemma begin (h : g.Draws l ts) (hnew : l.nameOf e depth ∉ ts.names) :
    (g.begin (e.name, depth) (l.nameOf e depth)).2.Draws l
      (ts.define (l.filterObject e depth)) := by
  have hnames := h.push_names (o := { name := l.nameOf e depth, isPlaceholder := true })
    (x := l.filterObject e depth) hnew rfl
  have hlength : g.draft.objects.length = ts.names.length := by
    rw [h.length_eq, InputTypes.names, List.length_map]
  refine ⟨hnames.1, hnames.2, fun name k id => ?_, fun id o x ho hx => ?_,
    h.push_operators fun kind hkind => absurd hkind (operatorsName_ne kind l e depth)⟩
  · rw [place?_begin (h.place?_eq_none hnew), InputTypes.names_define_of_notMem hnew,
      getElem?_concat_eq_some_iff, ← h.places, ← hlength]
    by_cases hkey : (name, k) = (e.name, depth)
    · cases hkey
      simp [h.place?_eq_none hnew, FilterLanguage.filterObject, FilterLanguage.nameOf,
        InputObject.ofFields, eq_comm]
    · have hne : l.nameOf e depth ≠ filterName l.scope name k := fun heq =>
        hkey (Prod.ext_iff.mpr ((filterName_inj heq).imp Eq.symm Eq.symm))
      simp only [if_neg hkey]
      exact (or_iff_left fun heq => hne heq.2).symm
  · rcases h.push_objects hnew ho hx with (hold | ⟨key, hkey⟩) | ⟨rfl, -, -⟩
    · exact .inl hold
    · have hne : key ≠ (e.name, depth) := by
        rintro rfl
        have hnone := (Option.or_eq_none_iff.mp (h.place?_eq_none hnew)).2
        cases hnone.symm.trans hkey
      exact .inr ⟨key, (OrderedMap.get?_insert_of_ne _ hne _).trans hkey⟩
    · exact .inr ⟨(e.name, depth), OrderedMap.get?_insert_self _ _ _⟩

/-- A filter whose fields are there is completed. -/
lemma complete (h : g.Draws l ts) {fields : List (InputField Nat)}
    (hkey : g.inProgress.get? (e.name, depth) = some id)
    (hplace : g.place? (e.name, depth) = some id)
    (hx : ts.objects[id]? = some (l.filterObject e depth))
    (hfields : InputField.StandFor ts.names fields ((l.offers e depth).map Offer.field)) :
    (g.complete (e.name, depth) id fields).Draws l ts := by
  have hnames : (g.complete (e.name, depth) id fields).draft.objects.map InputObject.name =
      g.draft.objects.map InputObject.name := by
    refine List.ext_getElem? fun i => ?_
    rw [Generation.complete, List.getElem?_map, List.getElem?_map, SchemaDraft.getElem?_finish]
    split
    · cases g.draft.objects[i]? <;> rfl
    · rfl
  refine ⟨hnames.trans h.names, h.ids, fun name k i => ?_, fun i o x ho hxi => ?_, h.operators⟩
  · rw [place?_complete hplace]
    exact h.places name k i
  · rw [Generation.complete, SchemaDraft.getElem?_finish] at ho
    split at ho
    · next heq =>
      subst heq
      obtain ⟨o', ho', rfl⟩ := Option.map_eq_some_iff.mp ho
      obtain rfl := Option.some.inj (hx.symm.trans hxi)
      have hname : o'.name = l.nameOf e depth := by
        have hplace := (h.places _ _ _).mp hplace
        rw [← h.names, List.getElem?_map, ho'] at hplace
        exact Option.some.inj hplace
      rw [hname]
      exact .inl (InputObject.standsFor_ofFields hfields _)
    · next hne =>
      refine (h.objects i o x ho hxi).imp_right fun ⟨key, hi⟩ => ⟨key, ?_⟩
      refine (OrderedMap.get?_without_singleton fun heq => hne ?_).trans hi
      exact Option.some.inj (hkey.symm.trans (heq ▸ hi))

end Draws

end Generation

end EntityFilter
