import EntityFilter.Proofs.DescribedKeys
import EntityFilter.Proofs.SettledTypes

/-!
# Operators of a field and its kind

A field of a filter refers to the object of operators of its kind by name, and several kinds share a
name.  Whichever of them is met first is the one whose object is defined, so what a field refers to
has the operators of its own kind, but perhaps not their operands.

Kinds that share a name share their operators, and they share the operands too if their values, or
their elements, are of one scalar (`FieldKind.operatorFields_eq_iff`); only arrays may differ there.
What is defined under the name of operators are those of some kind that the schema meets
(`FilterLanguage.exists_kind_of_name`).  So the operands are those of the field's own kind exactly
if that kind has elements of the same scalar (`FilterLanguage.operators_of_kept`).  With other
elements they are wrong (`Parcels.operators_of_other_elements`).
-/

namespace EntityFilter

/-! ## Kinds that share a name -/

namespace FieldKind

variable {kind kind' : FieldKind}

/-- What single values look like in a list of operands. -/
def elementScalar (kind : FieldKind) : Scalar := (kind.element?.getD kind).scalar

/-- The fields for the operators of a kind. -/
def operatorFields (kind : FieldKind) : List InputField :=
  kind.operators.map fun info => ⟨info.name, kind.operandType info.shape, some info.description⟩

/-- An object of operators has exactly their fields, in order. -/
lemma values_operatorsObject (kind : FieldKind) :
    kind.operatorsObject.fields.values = kind.operatorFields := by
  rw [OrderedMap.values, operatorsObject, InputObject.entries_ofFields]
  · simp [operatorFields, Function.comp_def]
  · simpa [Function.comp_def] using kind.nodup_operators

/-- Only arrays share a name with arrays. -/
lemma isArray_eq (h : kind.operatorsName = kind'.operatorsName) : kind.isArray = kind'.isArray := by
  cases kind <;> cases kind' <;> first | rfl | simp [operatorsName] at h

/-- Kinds that share a name and are no arrays are of one scalar. -/
lemma elementScalar_eq (h : kind.operatorsName = kind'.operatorsName) (harray : ¬kind.isArray) :
    kind.elementScalar = kind'.elementScalar := by
  cases kind <;> cases kind' <;>
    first | rfl | exact absurd rfl harray | simp [operatorsName] at h

/-- The operands of kinds that share a name are the same if single values look the same. -/
lemma operandType_eq (h : kind.operatorsName = kind'.operatorsName)
    (hscalar : kind.elementScalar = kind'.elementScalar) :
    kind.operandType = kind'.operandType := by
  have hvalue : kind.scalar = kind'.scalar := by
    cases kind <;> cases kind' <;> first | rfl | simp [operatorsName] at h
  funext shape
  cases shape with
  | value | ordered => exact congrArg InputType.scalar hvalue
  | list | range => exact congrArg (InputType.list ∘ InputType.scalar) hscalar
  | _ => rfl

/-- **Kinds that share a name share the operands of their operators** exactly if single values look
the same. -/
theorem operatorFields_eq_iff (h : kind.operatorsName = kind'.operatorsName) :
    kind.operatorFields = kind'.operatorFields ↔ kind.elementScalar = kind'.elementScalar := by
  constructor
  · intro hfields
    by_cases harray : kind.isArray
    · have harray' : kind'.isArray := isArray_eq h ▸ harray
      cases kind with
      | array a =>
        cases kind' with
        | array b =>
          -- the first operator of arrays takes a list
          have hfirst : ∀ element : FieldKind, ((array element).operatorFields.head?).map (·.type) =
              some (.list (.scalar (array element).elementScalar)) := fun _ => rfl
          have htype := (hfirst a).symm.trans (hfields ▸ hfirst b)
          simpa using htype
        | _ => simp [isArray] at harray'
      | _ => simp [isArray] at harray
    · exact elementScalar_eq h harray
  · intro hscalar
    rw [operatorFields, operatorFields, operators_eq h, operandType_eq h hscalar]

end FieldKind

namespace FilterLanguage

variable {l : FilterLanguage} {x : Entity} {k depth : Nat} {f : Field} {s : FilterSchema}
  {n : String} {o : InputObject} {kind : FieldKind}

/-- A filter offers the operators of a field under its name, and no later offer takes the name. -/
structure KeepsOperators (l : FilterLanguage) (e : Entity) (depth : Nat) (f : Field) : Prop where
  field : f ∈ e.fields.values
  last : ∃ before after,
    l.offers e depth = before ++ .operators f.name f.kind (describe f) :: after ∧
      ∀ o ∈ after, o.field.name ≠ f.name

/-- Some filter of a schema offers the operators of a kind. -/
def Meets (l : FilterLanguage) (s : FilterSchema) (kind : FieldKind) : Prop :=
  ∃ x k, l.filterObject x k ∈ s.types.objects ∧
    ∃ name description, Offer.operators name kind description ∈ l.offers x k

namespace KeepsOperators

lemma meets (hf : l.KeepsOperators x k f) (hx : l.filterObject x k ∈ s.types.objects) :
    l.Meets s f.kind := by
  obtain ⟨before, after, hoffers, -⟩ := hf.last
  refine ⟨x, k, hx, f.name, describe f, ?_⟩
  rw [hoffers]
  exact List.mem_append_right _ List.mem_cons_self

/-- The filter has the field, and it refers to the operators of its kind. -/
lemma field?_filterObject (hf : l.KeepsOperators x k f) :
    (l.filterObject x k).field? f.name =
      some ⟨f.name, .object f.kind.operatorsName, describe f⟩ := by
  obtain ⟨before, after, hoffers, hafter⟩ := hf.last
  rw [filterObject, hoffers, List.map_append, List.map_cons]
  refine InputObject.field?_ofFields_append (f := ⟨f.name, _, _⟩) _ fun g hg => ?_
  obtain ⟨o, ho, rfl⟩ := List.mem_map.mp hg
  exact hafter o ho

/-- What the field refers to is defined. -/
lemma operatorsName_mem_names (hf : l.KeepsOperators x k f)
    (hsettled : l.IsSettled s.types (l.filterObject x k)) :
    f.kind.operatorsName ∈ s.types.names :=
  hsettled.resolved _ (InputObject.mem_references hf.field?_filterObject rfl)

end KeepsOperators

/-- What is defined under the name of operators are those of some kind of that name; if it is a kind
of arrays, some filter offers them. -/
lemma exists_kind_of_name (hsettled : l.IsSettled s.types o) (hname : o.name = kind.operatorsName) :
    ∃ kind', kind'.operatorsName = kind.operatorsName ∧ o = kind'.operatorsObject ∧
      (kind'.isArray → l.Meets s kind') := by
  obtain ⟨x, k, hx, rfl | hneed⟩ := hsettled.belongs
  · exact absurd hname.symm (kind.isPlainName_operatorsName.ne_filterName _ _ _)
  rcases object_of_mem_needs hneed with
    ⟨name, kind', description, hoffer, ho⟩ | ⟨kind', hkind, ho⟩ | hother
  · rcases FieldKind.eq_of_mem_operatorsDefinitions ho with rfl | rfl
    · exact ⟨.int, hname, rfl, fun h => absurd h (by decide)⟩
    · exact ⟨kind', hname, rfl, fun _ => ⟨x, k, hx, name, description, hoffer⟩⟩
  · rcases FieldKind.eq_of_mem_operatorsDefinitions ho with rfl | rfl
    · exact ⟨.int, hname, rfl, fun h => absurd h (by decide)⟩
    · exact ⟨kind', hname, rfl, fun h => absurd h hkind⟩
  · exact absurd (hname ▸ kind.operatorsName_mem_operatorsNames) hother

/-- **What the operators of a field look like.**  The field refers to an object that has exactly the
operators of its kind, in order, with the operands of some kind that the schema meets under the same
name: with those of its own kind if it is no array, and else with those of its own kind if and only
if the elements are of the same scalar. -/
theorem operators_of_kept (hs : l.schema? n depth = some s)
    (hx : l.filterObject x k ∈ s.types.objects) (hf : l.KeepsOperators x k f) :
    (l.filterObject x k).field? f.name =
        some ⟨f.name, .object f.kind.operatorsName, describe f⟩ ∧
      ∃ kind o, l.Meets s kind ∧ (¬f.kind.isArray → kind = f.kind) ∧
        kind.operators = f.kind.operators ∧
        s.types.get? f.kind.operatorsName = some o ∧ o.fields.values = kind.operatorFields ∧
        (o.fields.values = f.kind.operatorFields ↔ kind.elementScalar = f.kind.elementScalar) := by
  refine ⟨hf.field?_filterObject, ?_⟩
  have hname := hf.operatorsName_mem_names (isSettled_of_schema hs hx)
  obtain ⟨o, ho⟩ := InputTypes.exists_get?_of_mem_names hname
  obtain ⟨kind, hkind, rfl, hmeets⟩ := exists_kind_of_name
    (isSettled_of_schema hs (List.mem_of_find?_eq_some ho)) (InputTypes.name_of_get? ho)
  rw [ho]
  by_cases harray : f.kind.isArray
  · have harray' : kind.isArray := FieldKind.isArray_eq hkind ▸ harray
    refine ⟨kind, _, hmeets harray', fun h => absurd harray h, FieldKind.operators_eq hkind, rfl,
      kind.values_operatorsObject, ?_⟩
    rw [kind.values_operatorsObject]
    exact FieldKind.operatorFields_eq_iff hkind
  · have hscalar := FieldKind.elementScalar_eq hkind.symm harray
    have hfields : kind.operatorFields = f.kind.operatorFields :=
      (FieldKind.operatorFields_eq_iff hkind).mpr hscalar.symm
    refine ⟨f.kind, _, hf.meets hx, fun _ => rfl, rfl, rfl, ?_, ?_⟩
    · rw [kind.values_operatorsObject, hfields]
    · rw [kind.values_operatorsObject, hfields]
      exact iff_of_true rfl rfl

end FilterLanguage

namespace Parcels

def weight : Field := { name := "weight", kind := .decimal }

def scores : Field := { name := "scores", kind := .array .int }

/-- One field has the name of the quick search, which takes its place in every filter. -/
def parcel : Entity :=
  ((((Entity.withField { name := "Parcel" } { name := "id", kind := .id }).withField
    { name := "length", kind := .float }).withField weight).withField
    { name := "quick", kind := .array .text }).withField scores

def language : FilterLanguage :=
  { catalog := Catalog.withEntity {} parcel
    settings := { features := { array := true } } }

/-- No offer behind that of the weight has its name. -/
lemma keepsOperators_weight : language.KeepsOperators parcel 0 weight where
  field := by decide
  last := ⟨(language.offers parcel 0).take 2, (language.offers parcel 0).drop 3, rfl, by decide⟩

end Parcels

/-- Lengths are met first, and still the operators of weights are those of their own kind. -/
theorem FilterLanguage.operators_of_kept_weight :
    ∃ s o, Parcels.language.schema? "Parcel" 0 = some s ∧
      Parcels.language.filterObject Parcels.parcel 0 ∈ s.types.objects ∧
      Parcels.language.KeepsOperators Parcels.parcel 0 Parcels.weight ∧
      s.types.get? "FloatFilter" = some o ∧
      o.fields.values = FieldKind.decimal.operatorFields := by
  have hx : Parcels.language.filterObject Parcels.parcel 0 ∈
      (Parcels.language.define (Parcels.language.maxDepth - 0) Parcels.parcel 0 {}).objects :=
    (FilterLanguage.prefix_define_filter _ _ _).subset List.mem_cons_self
  have hs : Parcels.language.schema? "Parcel" 0 = some ⟨_, _⟩ := rfl
  obtain ⟨-, kind, o, -, hkind, -, ho, hfields, -⟩ :=
    FilterLanguage.operators_of_kept hs hx Parcels.keepsOperators_weight
  rw [hkind (by decide)] at hfields
  exact ⟨_, o, hs, hx, Parcels.keepsOperators_weight, ho, hfields⟩

/-- **The first array decides.**  The quick search takes the place of an array of texts, so the only
array that is left is one of integers; but its operators were defined for texts. -/
theorem Parcels.operators_of_other_elements :
    ∃ s o, language.schema? "Parcel" 0 = some s ∧ language.filterObject parcel 0 ∈ s.types.objects ∧
      language.KeepsOperators parcel 0 scores ∧
      (∀ f ∈ parcel.fields.values, f.kind.isArray → f ≠ scores →
        (language.filterObject parcel 0).field? f.name ≠
          some ⟨f.name, .object f.kind.operatorsName, none⟩) ∧
      s.types.get? scores.kind.operatorsName = some o ∧
      o.field? "contains" =
        some ⟨"contains", .list (.scalar .text), some "Contains every listed value"⟩ ∧
      o.fields.values ≠ scores.kind.operatorFields := by
  refine ⟨_, (FieldKind.array .text).operatorsObject, rfl, ?_, ?_, by decide, ?_, by decide,
    by decide⟩
  · exact (FilterLanguage.prefix_define_filter _ _ _).subset List.mem_cons_self
  · exact ⟨by decide, (language.offers parcel 0).take 4, (language.offers parcel 0).drop 5, rfl,
      by decide⟩
  · decide

end EntityFilter
