import EntityFilter.Description
import EntityFilter.Proofs.ClosedSchemas
import Mathlib.Data.List.Count

/-!
# What is described is what is offered

A description of an entity and the root of its schema are two lists of the same keys, each made in
its own way.  They agree part by part and in order: the keys of a field
(`FilterLanguage.keys_fieldOffers`), those of a relation (`FilterLanguage.keys_relationOffers`) and
the others (`FilterLanguage.keys_specialOffers`).  A description does not look at the target of a
relation, so the target has to be there, and kinds of arrays, which may be turned off, must not
identify rows.

Both lists may hold a key twice; the root keeps the last field of a name.  So the operators of a
described field are those that the root refers to only if nothing else has its key.  The object of
operators is looked up by its name, and several kinds share one: whichever of them is met first, the
operators have the same names (`FilterLanguage.keys_of_name_eq_operatorsName`).
-/

namespace EntityFilter

/-! ## The operators of a kind -/

lemma OperatorFamily.nodup_operators (family : OperatorFamily) :
    (family.operators.map OperatorInfo.name).Nodup := by
  cases family <;> decide

/-- An object has the fields from which it is made, in order, if no two of them share a name. -/
lemma InputObject.entries_ofFields {title : String} {fields : List InputField}
    (h : (fields.map InputField.name).Nodup) :
    (ofFields title fields).fields.entries = fields.map fun f => (f.name, f) := by
  refine OrderedMap.entries_ofList ?_
  rwa [Entries.keys, List.map_map]

namespace FieldKind

lemma nodup_operators (kind : FieldKind) : (kind.operators.map OperatorInfo.name).Nodup :=
  kind.family.nodup_operators.sublist (List.filter_sublist.map _)

/-- The object of operators has a field for each of them. -/
lemma keys_operatorsObject (kind : FieldKind) :
    kind.operatorsObject.fields.keys = kind.operators.map OperatorInfo.name := by
  rw [OrderedMap.keys, operatorsObject, InputObject.entries_ofFields]
  · simp [Entries.keys, Function.comp_def]
  · simpa [Function.comp_def] using kind.nodup_operators

/-- Kinds that share a name share their operators. -/
lemma operators_eq {kind kind' : FieldKind} (h : kind.operatorsName = kind'.operatorsName) :
    kind.operators = kind'.operators := by
  cases kind <;> cases kind' <;> first | rfl | simp [operatorsName] at h

end FieldKind

/-! ## Keys -/

/-- All keys of a description, in order. -/
def EntityDescription.keys (d : EntityDescription) : List String :=
  d.fields.flatMap (fun f => f.field.name :: f.extraKeys) ++
    d.relations.flatMap RelationDescription.keys ++ d.specialKeys.map KeyDescription.key

/-- The key of an offer. -/
def Offer.key (o : Offer) : String := o.field.name

/-- A relation leads to one row or to many. -/
lemma Relation.isToOne_eq_not_isToMany (r : Relation) : r.isToOne = !r.isToMany := by
  unfold isToOne isToMany
  cases r.cardinality <;> rfl

namespace FilterLanguage

variable (l : FilterLanguage) (e : Entity)

/-- An offer of operators is made unless the kind is that of arrays, which are off. -/
lemma keys_operatorsOffers (name : String) (kind : FieldKind) (description : Option String) :
    (l.operatorsOffers name kind description).map Offer.key =
      if l.features.array || !kind.isArray then [name] else [] := by
  unfold operatorsOffers
  cases kind.isArray <;> cases l.features.array <;> rfl

lemma keys_fieldOffers (f : Field) :
    (l.fieldOffers f).map Offer.key =
      if l.features.array || !f.kind.isArray then
        f.name :: (EntityDescription.ofField l.features f).extraKeys
      else [] := by
  have htemporal : f.kind.isTemporal → f.kind.isArray = false := by
    cases f.kind <;> simp [FieldKind.isTemporal, FieldKind.isArray]
  rw [fieldOffers, List.map_append, keys_operatorsOffers]
  simp only [EntityDescription.ofField]
  by_cases htime : f.kind.isTemporal
  · rw [if_pos htime, if_pos htime, htemporal htime, Bool.not_false, Bool.or_true, if_pos rfl,
      if_pos rfl]
    cases l.features.dateTrunc <;> cases l.features.dateExtract <;> rfl
  · rw [if_neg htime, if_neg htime]
    simp

lemma keys_relationOffers {r : Relation} {target : Entity}
    (htarget : l.catalog.entity? r.target = some target) (hkey : ¬target.primaryKeyKind.isArray) :
    (l.relationOffers e 0 r).map Offer.key =
      (EntityDescription.ofRelation e l.settings r).keys := by
  have hone := r.isToOne_eq_not_isToMany
  have hint : FieldKind.int.isArray = false := rfl
  have hdepth : (0 + 1 < l.maxDepth) = (1 < l.settings.schema.maxRelationDepth) := by
    rw [Nat.zero_add, maxDepth]
  simp only [relationOffers, htarget, List.map_append, keys_operatorsOffers, hkey, Bool.not_false,
    Bool.or_true, if_true, EntityDescription.ofRelation, hone, hdepth]
  refine congrArg (r.name :: ·) ?_
  by_cases hmany : r.isToMany
  · simp only [hmany, if_true, Bool.not_true, Bool.false_eq_true, if_false, toManyOffers, hdepth,
      List.map_append]
    refine congrArg₂ (· ++ ·) (congrArg₂ (· ++ ·) rfl ?_) ?_
    · split
      · rfl
      · rw [keys_operatorsOffers, hint, Bool.not_false, Bool.or_true, if_pos rfl]
    · split
      · rw [List.map_append, features]
        cases l.settings.features.conditionalAggregation <;> rfl
      · rfl
  · simp only [hmany, Bool.false_eq_true, if_false, Bool.not_false, if_true]
    split <;> rfl

lemma keys_specialOffers (hkey : ¬e.primaryKeyKind.isArray) :
    (l.specialOffers e 0).map Offer.key =
      (EntityDescription.specialKeysOf l.settings).map KeyDescription.key := by
  have hgate {p : Prop} [Decidable p] {o : Offer} {k : KeyDescription} (h : o.key = k.key) :
      (if p then [o] else []).map Offer.key = (if p then [k] else []).map KeyDescription.key := by
    split
    · rw [List.map_singleton, List.map_singleton, h]
    · rfl
  simp only [specialOffers, EntityDescription.specialKeysOf, List.map_append, keys_operatorsOffers,
    hkey, Bool.not_false, Bool.or_true, if_true, features, maxDepth]
  refine congrArg₂ (· ++ ·) (congrArg₂ (· ++ ·) (congrArg₂ (· ++ ·) (congrArg₂ (· ++ ·) rfl ?_) ?_)
    ?_) ?_
  all_goals exact hgate rfl

/-- **The keys of a description are those that the filter on the entity offers**, in order. -/
theorem keys_offers
    (hrelations : ∀ r ∈ e.relations.values, ∃ target, l.catalog.entity? r.target = some target ∧
      ¬target.primaryKeyKind.isArray)
    (hkey : ¬e.primaryKeyKind.isArray) :
    (l.offers e 0).map Offer.key = (e.describe l.settings).keys := by
  have hfields (fields : List Field) : (fields.flatMap l.fieldOffers).map Offer.key =
      ((fields.filter fun f => l.features.array || !f.kind.isArray).map
        (EntityDescription.ofField l.features)).flatMap fun f => f.field.name :: f.extraKeys := by
    induction fields with
    | nil => rfl
    | cons f fields ih =>
      rw [List.flatMap_cons, List.map_append, keys_fieldOffers, ih, List.filter_cons]
      split
      · rw [List.map_cons, List.flatMap_cons]
        rfl
      · rfl
  have hdescribed : (e.describe l.settings).relations = if l.maxDepth = 0 then [] else
      e.relations.values.map (EntityDescription.ofRelation e l.settings) := rfl
  have hrels : (if 0 < l.maxDepth then e.relations.values.flatMap (l.relationOffers e 0)
      else []).map Offer.key =
      (e.describe l.settings).relations.flatMap RelationDescription.keys := by
    rw [hdescribed]
    by_cases hdepth : 0 < l.maxDepth
    · rw [if_pos hdepth, if_neg (Nat.ne_of_gt hdepth), List.map_flatMap, List.flatMap_map]
      refine List.flatMap_congr fun r hr => ?_
      obtain ⟨target, htarget, hkey⟩ := hrelations r hr
      exact l.keys_relationOffers e htarget hkey
    · rw [if_neg hdepth, if_pos (Nat.eq_zero_of_not_pos hdepth)]
      rfl
  rw [offers, List.map_append, List.map_append, hfields, hrels, keys_specialOffers l e hkey]
  rfl

end FilterLanguage

/-! ## The operators that the root refers to -/

/-- What an object of fields has under a key is the field of that name. -/
lemma InputObject.mem_of_field?_ofFields {title key : String} {fields : List InputField}
    {f : InputField} (h : (ofFields title fields).field? key = some f) :
    f ∈ fields ∧ f.name = key := by
  obtain ⟨g, hg, heq⟩ :=
    List.mem_map.mp (OrderedMap.mem_of_mem_entries_ofList (Entries.mem_of_get? h))
  obtain ⟨rfl, rfl⟩ := Prod.mk.inj heq
  exact ⟨hg, rfl⟩

/-- An object of fields has a field under their names and no other. -/
lemma InputObject.isSome_field?_ofFields_iff {title key : String} {fields : List InputField} :
    ((ofFields title fields).field? key).isSome ↔ key ∈ fields.map InputField.name := by
  constructor
  · intro h
    obtain ⟨f, hf⟩ := Option.isSome_iff_exists.mp h
    obtain ⟨hmem, rfl⟩ := mem_of_field?_ofFields hf
    exact List.mem_map.mpr ⟨f, hmem, rfl⟩
  · intro h
    obtain ⟨f, hf, rfl⟩ := List.mem_map.mp h
    exact isSome_field?_ofFields hf

/-- What occurs once among the images of a list is the image of one element, and of none behind
it. -/
lemma exists_append_of_count_eq_one {α β : Type} [DecidableEq β] {f : α → β} {xs : List α}
    {x : α} (hx : x ∈ xs) (h : (xs.map f).count (f x) = 1) :
    ∃ before after, xs = before ++ x :: after ∧ ∀ y ∈ after, f y ≠ f x := by
  obtain ⟨before, after, rfl⟩ := List.append_of_mem hx
  refine ⟨before, after, rfl, fun y hy heq => ?_⟩
  have hpos : 0 < (after.map f).count (f x) :=
    List.count_pos_iff.mpr (List.mem_map.mpr ⟨y, hy, heq⟩)
  rw [List.map_append, List.map_cons, List.count_append, List.count_cons_self] at h
  omega

namespace FieldKind

/-- The names of objects of operators. -/
def operatorsNames : List String :=
  ["StringFilter", "IntFilter", "FloatFilter", "BooleanFilter", "DateFilter", "DateTimeFilter",
    "IdFilter", "UuidFilter", "JsonFilter", "ArrayFilter"]

lemma operatorsName_mem_operatorsNames (kind : FieldKind) :
    kind.operatorsName ∈ operatorsNames := by
  cases kind <;> simp [operatorsName, operatorsNames]

/-- An object of operators, or one whose name is not that of such an object. -/
def IsOperators (o : InputObject) : Prop :=
  o.name ∈ operatorsNames → ∃ kind : FieldKind, o = kind.operatorsObject

lemma isOperators_of_mem_operatorsDefinitions {kind : FieldKind} {o : InputObject}
    (h : o ∈ kind.operatorsDefinitions) : IsOperators o := fun _ =>
  (eq_of_mem_operatorsDefinitions h).elim (fun heq => ⟨int, heq⟩) fun heq => ⟨kind, heq⟩

/-- The name of a filter stands in front, so the name is longer than those of other objects. -/
lemma conditionalAggregate_ne {name : String}
    (h : name.length < "ConditionalAggregateFilter".length) (filter : String) :
    (InputObject.conditionalAggregate filter).name ≠ name := by
  rintro rfl
  have hname : (InputObject.conditionalAggregate filter).name.length =
      filter.length + "ConditionalAggregateFilter".length := String.length_append _ _
  omega

lemma conditionalAggregate_notMem_operatorsNames (filter : String) :
    (InputObject.conditionalAggregate filter).name ∉ operatorsNames := fun h =>
  have hshort : ∀ name ∈ operatorsNames, name.length < "ConditionalAggregateFilter".length := by
    decide
  conditionalAggregate_ne (hshort _ h) filter rfl

lemma not_isArray_of_isTemporal {kind : FieldKind} (h : kind.isTemporal) : ¬kind.isArray := by
  cases kind <;> first | exact Bool.noConfusion | exact absurd h Bool.noConfusion

lemma truncName_notMem_operatorsNames (kind : FieldKind) : kind.truncName ∉ operatorsNames := by
  unfold truncName
  split <;> decide

end FieldKind

namespace FilterLanguage

variable {l : FilterLanguage} {e x : Entity} {depth k room : Nat} {o : InputObject}

/-- What the objects are that a filter needs: those of operators that it offers, those of operators
of other kinds, which are no arrays, and objects that are not of operators. -/
lemma object_of_mem_needs (h : Need.object o ∈ l.needs x k) :
    (∃ name kind description, Offer.operators name kind description ∈ l.offers x k ∧
      o ∈ kind.operatorsDefinitions) ∨
    (∃ kind : FieldKind, ¬kind.isArray ∧ o ∈ kind.operatorsDefinitions) ∨
    o.name ∉ FieldKind.operatorsNames := by
  have hmem {objects : List InputObject} (h : Need.object o ∈ objects.map Need.object) :
      o ∈ objects := by
    obtain ⟨_, ho, heq⟩ := List.mem_map.mp h
    cases heq
    exact ho
  have hother (kind : FieldKind) {last : InputObject} (hkind : ¬kind.isArray)
      (hlast : last.name ∉ FieldKind.operatorsNames)
      (h : Need.object o ∈ (kind.operatorsDefinitions ++ [last]).map Need.object) :
      (∃ kind : FieldKind, ¬kind.isArray ∧ o ∈ kind.operatorsDefinitions) ∨
        o.name ∉ FieldKind.operatorsNames := by
    rcases List.mem_append.mp (hmem h) with ho | ho
    · exact .inl ⟨kind, hkind, ho⟩
    · exact .inr (List.mem_singleton.mp ho ▸ hlast)
  have hnumbers {last : InputObject} (hlast : last.name ∉ FieldKind.operatorsNames)
      (h : Need.object o ∈ (InputObject.numbers ++ [last]).map Need.object) :
      (∃ kind : FieldKind, ¬kind.isArray ∧ o ∈ kind.operatorsDefinitions) ∨
        o.name ∉ FieldKind.operatorsNames := by
    rcases List.mem_append.mp (hmem h) with ho | ho
    · rcases List.mem_append.mp ho with ho | ho
      · exact .inl ⟨.int, by decide, ho⟩
      · exact .inl ⟨.float, by decide, ho⟩
    · exact .inr (List.mem_singleton.mp ho ▸ hlast)
  obtain ⟨offer, hoffer, hneed⟩ := List.mem_flatMap.mp h
  cases mem_offers_iff.mp hoffer with
  | stored | identifiers | count | id => exact .inl ⟨_, _, _, hoffer, hmem hneed⟩
  | trunc _ htemporal =>
    exact .inr (hother _ (FieldKind.not_isArray_of_isTemporal htemporal)
      (FieldKind.truncName_notMem_operatorsNames _) hneed)
  | extract => exact .inr (hother .int (by decide) (by decide) hneed)
  | window => exact .inr (hother .float (by decide) (by decide) hneed)
  | aggregate => exact .inr (hnumbers (by decide) hneed)
  | compare | subquery | existence | search =>
    exact .inr (.inr (List.mem_singleton.mp (hmem hneed) ▸ by decide))
  | conditional =>
    rcases List.mem_cons.mp hneed with hneed | hneed
    · cases hneed
    · exact .inr (hnumbers (FieldKind.conditionalAggregate_notMem_operatorsNames _) hneed)
  | joined | quantified => cases List.mem_singleton.mp hneed
  | quick | included | combined | negation => exact absurd hneed List.not_mem_nil

/-- What is needed under the name of an object of operators is such an object. -/
lemma isOperators_of_mem_needs (h : Need.object o ∈ l.needs x k) : FieldKind.IsOperators o := by
  rcases object_of_mem_needs h with ⟨_, _, _, -, ho⟩ | ⟨_, -, ho⟩ | hother
  · exact FieldKind.isOperators_of_mem_operatorsDefinitions ho
  · exact FieldKind.isOperators_of_mem_operatorsDefinitions ho
  · exact fun hname => absurd hname hother

/-- What is defined under the name of operators has a field for each of them. -/
lemma keys_of_mem_define {kind : FieldKind} (h : o ∈ (l.define room e depth {}).objects)
    (hname : o.name = kind.operatorsName) :
    o.fields.keys = kind.operators.map OperatorInfo.name := by
  obtain ⟨x, k, -, rfl | hneed⟩ := (mem_objects_define h).resolve_left List.not_mem_nil
  · exact absurd hname.symm (kind.isPlainName_operatorsName.ne_filterName _ _ _)
  · have hoperators := isOperators_of_mem_needs hneed
    rw [FieldKind.IsOperators, hname] at hoperators
    obtain ⟨kind', rfl⟩ := hoperators kind.operatorsName_mem_operatorsNames
    rw [FieldKind.keys_operatorsObject]
    rw [FieldKind.operators_eq hname]

/-- The objects that the filter needs from which a schema is made are defined in it. -/
lemma mem_names_define_of_mem_needs (h : Need.object o ∈ l.needs e depth) :
    o.name ∈ (l.define room e depth {}).names := by
  have hdefined (follow : Entity → InputTypes → InputTypes)
      (hfollow : ∀ target ts, ts.objects <+: (follow target ts).objects) :
      o.name ∈ (l.defineWith follow e depth {}).names := by
    obtain ⟨before, after, hneeds⟩ := List.append_of_mem h
    have hgrows := relates_foldl (R := fun ts ts' => ts.objects <+: ts'.objects)
      (fun _ => List.prefix_rfl) List.IsPrefix.trans after (fun o _ ts => ts.prefix_define o)
      (fun target _ => hfollow target)
    have hnew : l.nameOf e depth ∉ InputTypes.names {} := List.not_mem_nil
    unfold defineWith
    rw [if_neg hnew, hneeds, List.foldl_append, List.foldl_cons]
    exact ((hgrows _).map InputObject.name).subset (InputTypes.name_mem_names_define _ o)
  cases room with
  | zero => exact hdefined _ fun _ _ => List.prefix_rfl
  | succ room => exact hdefined _ fun target ts => prefix_define room target (depth + 1) ts

/-- **A description and the root of the schema describe the same filters.**  The keys of the
description are the fields of the root; and where a field is described whose key occurs once among
all keys, the root refers to an object that has its operators as fields, in order. -/
theorem describes_root (l : FilterLanguage) {n : String} {e : Entity}
    (he : l.catalog.entity? n = some e)
    (hrelations : ∀ r ∈ e.relations.values, ∃ target, l.catalog.entity? r.target = some target ∧
      ¬target.primaryKeyKind.isArray)
    (hkey : ¬e.primaryKeyKind.isArray) :
    ∃ schema root, l.schema? n 0 = some schema ∧ schema.rootObject? = some root ∧
      (∀ key, (root.field? key).isSome ↔ key ∈ (e.describe l.settings).keys) ∧
      ∀ d ∈ (e.describe l.settings).fields,
        (e.describe l.settings).keys.count d.field.name = 1 →
        ∃ f o, root.field? d.field.name = some f ∧
          f.type.objectName? = some d.field.kind.operatorsName ∧
          schema.types.get? d.field.kind.operatorsName = some o ∧
          o.fields.keys = d.operators.map OperatorInfo.name := by
  have hkeys := l.keys_offers e hrelations hkey
  refine ⟨_, l.filterObject e 0, schema?_eq_some he, get?_root, ?_, ?_⟩
  · intro key
    rw [filterObject, InputObject.isSome_field?_ofFields_iff, ← hkeys, List.map_map]
    rfl
  · intro d hd honce
    obtain ⟨f, hf, rfl⟩ := List.mem_map.mp hd
    obtain ⟨hfield, hallowed⟩ := List.mem_filter.mp hf
    -- the offer of the operators is the last one of its key, so the root keeps it
    have hoffer : Offer.operators f.name f.kind (describe f) ∈ l.offers e 0 := by
      refine mem_offers_iff.mpr (.stored hfield fun harray => ?_)
      rw [harray, Bool.not_true, Bool.or_false] at hallowed
      exact hallowed
    rw [← hkeys] at honce
    obtain ⟨before, after, hsplit, hafter⟩ :=
      exists_append_of_count_eq_one (f := Offer.key) hoffer honce
    have hroot : (l.filterObject e 0).field? f.name =
        some ⟨f.name, .object f.kind.operatorsName, describe f⟩ := by
      rw [filterObject, hsplit, List.map_append, List.map_cons]
      refine InputObject.field?_ofFields_append (f := ⟨f.name, _, _⟩) _ fun g hg => ?_
      obtain ⟨o, ho, rfl⟩ := List.mem_map.mp hg
      exact hafter o ho
    have hneeded : Need.object f.kind.operatorsObject ∈ l.needs e 0 :=
      List.mem_flatMap.mpr ⟨_, hoffer, List.mem_map.mpr
        ⟨_, List.mem_append_right _ List.mem_cons_self, rfl⟩⟩
    have hname : f.kind.operatorsName ∈ (l.define (l.maxDepth - 0) e 0 {}).names :=
      mem_names_define_of_mem_needs hneeded
    obtain ⟨o, ho⟩ := InputTypes.exists_get?_of_mem_names hname
    exact ⟨_, o, hroot, rfl, ho,
      keys_of_mem_define (List.mem_of_find?_eq_some ho) (InputTypes.name_of_get? ho)⟩

/-- The root for products has the key of a conditional aggregate, and the operators of its names. -/
theorem describes_root_shop :
    let l : FilterLanguage :=
      { catalog := Shop.compiler.catalog, settings := Shop.compiler.settings }
    ∃ schema root f o, l.schema? "Product" 0 = some schema ∧ schema.rootObject? = some root ∧
      (root.field? "reviews_cond_agg").isSome ∧ ¬(root.field? "reviews_rel").isSome ∧
      root.field? "name" = some f ∧ f.type.objectName? = some "StringFilter" ∧
      schema.types.get? "StringFilter" = some o ∧
      o.fields.keys = FieldKind.text.operators.map OperatorInfo.name := by
  intro l
  have hrelations : ∀ r ∈ Shop.product.relations.values, ∃ target,
      l.catalog.entity? r.target = some target ∧ ¬target.primaryKeyKind.isArray := by
    intro r hr
    have hvalues : Shop.product.relations.values =
        [{ name := "brand", cardinality := .one, target := "Brand" },
          { name := "reviews", cardinality := .many, target := "Review" }] := rfl
    rw [hvalues, List.mem_cons, List.mem_singleton] at hr
    obtain rfl | rfl := hr
    · exact ⟨Shop.brand, rfl, by decide⟩
    · exact ⟨Shop.review, rfl, by decide⟩
  obtain ⟨schema, root, hschema, hroot, hkeys, hoperators⟩ :=
    l.describes_root (n := "Product") (e := Shop.product) rfl hrelations (by decide)
  have hname : EntityDescription.ofField l.settings.features { name := "name", kind := .text } ∈
      (Shop.product.describe l.settings).fields := List.mem_map.mpr ⟨_, by decide, rfl⟩
  obtain ⟨f, o, hf, htype, ho, hfields⟩ := hoperators _ hname (by decide)
  exact ⟨schema, root, f, o, hschema, hroot, (hkeys _).mpr (by decide),
    fun h => absurd ((hkeys _).mp h) (by decide), hf, htype, ho, hfields⟩

end FilterLanguage

end EntityFilter
