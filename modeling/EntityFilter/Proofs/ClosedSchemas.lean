import EntityFilter.Proofs.SchemaTypes

/-!
# What the objects of a schema refer to

A field of an input object refers to another object by name, and in a growing list of types the name
may be missing still.  An offer comes with what it refers to (`FilterLanguage.IsClosedOffer`), so
the references of a filter are defined once all its needs are, whatever order this happens in.

Every object of a schema is a plain one or the whole filter on an entity that relations lead to
(`FilterLanguage.mem_objects_define`), and a filter combines filters of its own type
(`FilterLanguage.combines_filterObject`).
-/

namespace EntityFilter

/-! ## References -/

namespace InputObject

/-- The objects that the fields of an object refer to. -/
def references {ρ : Type} (o : InputObject ρ) : List ρ :=
  o.fields.values.filterMap (·.type.objectName?)

/-- Objects that refer to each other at most. -/
def AreComplete (objects : List InputObject) : Prop :=
  ∀ o ∈ objects, ∀ n ∈ o.references, n ∈ objects.map name

variable {n title : String} {fields : List InputField} {f : InputField}
  {objects objects' : List InputObject}

/-- An object refers to nothing that its fields do not. -/
lemma exists_of_mem_references (h : n ∈ (ofFields title fields).references) :
    ∃ f ∈ fields, f.type.objectName? = some n := by
  obtain ⟨f, hf, hn⟩ := List.mem_filterMap.mp h
  obtain ⟨p, hp, rfl⟩ := List.mem_map.mp hf
  obtain ⟨g, hg, rfl⟩ := List.mem_map.mp (OrderedMap.mem_of_mem_entries_ofList hp)
  exact ⟨g, hg, hn⟩

/-- Of fields of one name, the last is the field of the object. -/
lemma field?_ofFields_append (before : List InputField) {after : List InputField}
    (h : ∀ g ∈ after, g.name ≠ f.name) :
    (ofFields title (before ++ f :: after)).field? f.name = some f := by
  have hpairs : ∀ p ∈ after.map fun g => (g.name, g), p.1 ≠ f.name := by
    intro p hp
    obtain ⟨g, hg, rfl⟩ := List.mem_map.mp hp
    exact h g hg
  unfold field? ofFields
  rw [List.map_append, List.map_cons]
  exact OrderedMap.get?_ofList_append _ hpairs

lemma areComplete_nil : AreComplete [] := fun _ h => absurd h List.not_mem_nil

lemma AreComplete.append (h : AreComplete objects) (h' : AreComplete objects') :
    AreComplete (objects ++ objects') := by
  intro o ho
  rw [List.map_append]
  rcases List.mem_append.mp ho with ho | ho
  · exact fun n hn => List.mem_append_left _ (h o ho n hn)
  · exact fun n hn => List.mem_append_right _ (h' o ho n hn)

/-- An object whose fields refer to objects in front of it. -/
lemma AreComplete.concat (h : AreComplete objects)
    (hfields : ∀ f ∈ fields, ∀ n, f.type.objectName? = some n → n ∈ objects.map name) :
    AreComplete (objects ++ [ofFields title fields]) := by
  intro o ho
  rw [List.map_append]
  rcases List.mem_append.mp ho with ho | ho
  · exact fun n hn => List.mem_append_left _ (h o ho n hn)
  · obtain rfl := List.mem_singleton.mp ho
    refine fun n hn => List.mem_append_left _ ?_
    obtain ⟨g, hg, hgn⟩ := exists_of_mem_references hn
    exact hfields g hg n hgn

end InputObject

namespace FieldKind

variable {kind : FieldKind} {n : String}

/-- The only references of operators are to those of integers. -/
lemma of_objectName?_operandType {info : OperatorInfo} (hinfo : info ∈ kind.operators)
    (hn : (kind.operandType info.shape).objectName? = some n) :
    n = int.operatorsName ∧ kind.operators.any (·.shape = .integer) := by
  cases hshape : info.shape with
  | integer =>
    simp only [operandType, hshape, InputType.objectName?, Option.some.injEq] at hn
    exact ⟨hn.symm, List.any_eq_true.mpr ⟨info, hinfo, by simp [hshape]⟩⟩
  | _ => simp [operandType, hshape, InputType.objectName?] at hn

lemma areComplete_operatorsDefinitions (kind : FieldKind) :
    InputObject.AreComplete kind.operatorsDefinitions := by
  have hint : InputObject.AreComplete [int.operatorsObject] := by
    refine InputObject.areComplete_nil.concat fun f hf n hn => ?_
    obtain ⟨info, hinfo, rfl⟩ := List.mem_map.mp hf
    have hnone : ¬int.operators.any (·.shape = .integer) := by decide
    exact absurd (of_objectName?_operandType hinfo hn).2 hnone
  have hfront : InputObject.AreComplete
      (if kind.operators.any (·.shape = .integer) then [int.operatorsObject] else []) := by
    split
    · exact hint
    · exact InputObject.areComplete_nil
  refine hfront.concat fun f hf n hn => ?_
  obtain ⟨info, hinfo, rfl⟩ := List.mem_map.mp hf
  obtain ⟨rfl, hany⟩ := of_objectName?_operandType hinfo hn
  rw [if_pos hany]
  exact List.mem_cons_self

lemma operatorsName_mem (kind : FieldKind) :
    kind.operatorsName ∈ kind.operatorsDefinitions.map InputObject.name :=
  List.mem_map.mpr ⟨kind.operatorsObject, List.mem_append_right _ List.mem_cons_self, rfl⟩

/-- An object of plain values and of the operators of one kind. -/
lemma areComplete_concat {title : String} {fields : List InputField}
    (h : ∀ f ∈ fields, f.type.objectName? = none ∨ f.type = .object kind.operatorsName) :
    InputObject.AreComplete (kind.operatorsDefinitions ++ [.ofFields title fields]) := by
  refine kind.areComplete_operatorsDefinitions.concat fun f hf n hn => ?_
  rcases h f hf with hnone | htype
  · simp [hnone] at hn
  · rw [htype] at hn
    obtain rfl := Option.some.inj hn
    exact kind.operatorsName_mem

end FieldKind

namespace InputObject

variable {n title : String} {fields : List InputField}

/-- Objects of plain values refer to nothing. -/
lemma areComplete_plain (h : ∀ f ∈ fields, f.type.objectName? = none) :
    AreComplete ([] ++ [ofFields title fields]) := by
  refine areComplete_nil.concat fun f hf n hn => ?_
  simp [h f hf] at hn

lemma areComplete_numbers : AreComplete numbers :=
  (FieldKind.areComplete_operatorsDefinitions .int).append
    (FieldKind.areComplete_operatorsDefinitions .float)

/-- Aggregates are constrained by operators of numbers. -/
lemma mem_names_numbers {f : InputField} (hf : f ∈ aggregateFields)
    (hn : f.type.objectName? = some n) : n ∈ numbers.map name := by
  rcases List.mem_cons.mp hf with rfl | hf
  · simp [textField, InputType.objectName?] at hn
  · obtain ⟨function, -, rfl⟩ := List.mem_map.mp hf
    simp only [operatorsField, InputType.objectName?, Option.some.injEq] at hn
    subst hn
    rw [numbers, List.map_append, List.mem_append]
    split
    · exact .inl (FieldKind.operatorsName_mem .int)
    · exact .inr (FieldKind.operatorsName_mem .float)

end InputObject

namespace InputTypes

variable {ts : InputTypes} {o x : InputObject}

lemma mem_objects_define (h : x ∈ (ts.define o).objects) : x ∈ ts.objects ∨ x = o := by
  unfold define at h
  split at h
  · exact .inl h
  · simpa using h

lemma prefix_define (ts : InputTypes) (o : InputObject) :
    ts.objects <+: (ts.define o).objects := by
  unfold define
  split
  · exact List.prefix_rfl
  · exact List.prefix_append _ _

end InputTypes

/-! ## Offers come with what they refer to -/

namespace FilterLanguage

variable {l : FilterLanguage} {e target : Entity} {depth : Nat} {o : Offer} {n : String}

/-- An offer refers to what it needs or to the filter that it belongs to, and the objects that it
needs refer to what it needs. -/
structure IsClosedOffer (l : FilterLanguage) (e : Entity) (depth : Nat) (o : Offer) : Prop where
  field : ∀ n, o.field.type.objectName? = some n →
    n = l.nameOf e depth ∨ n ∈ o.needs.map (l.needName depth)
  objects : ∀ x, Need.object x ∈ o.needs →
    ∀ n ∈ x.references, n ∈ o.needs.map (l.needName depth)

lemma map_needName_object (objects : List InputObject) :
    (objects.map Need.object).map (l.needName depth) = objects.map InputObject.name := by
  rw [List.map_map]
  rfl

lemma isClosedOffer_ofObjects {name : String} {type : InputType} {objects : List InputObject}
    {description : Option String} (h : InputObject.AreComplete objects)
    (htype : ∀ n, type.objectName? = some n → n ∈ objects.map InputObject.name) :
    l.IsClosedOffer e depth (.ofObjects name type objects description) where
  field n hn := by
    rw [Offer.ofObjects, map_needName_object]
    exact .inr (htype n hn)
  objects x hx := by
    obtain ⟨o, ho, heq⟩ := List.mem_map.mp hx
    cases heq
    rw [Offer.ofObjects, map_needName_object]
    exact h _ ho

/-- Of objects of which the last is referred to, nothing is missing. -/
lemma isClosedOffer_concat {name : String} {type : InputType} {objects : List InputObject}
    {last : InputObject} {description : Option String}
    (h : InputObject.AreComplete (objects ++ [last])) (htype : type.objectName? = some last.name) :
    l.IsClosedOffer e depth (.ofObjects name type (objects ++ [last]) description) := by
  refine isClosedOffer_ofObjects h fun n hn => ?_
  rw [htype] at hn
  obtain rfl := Option.some.inj hn
  exact List.mem_map.mpr ⟨last, List.mem_append_right _ List.mem_cons_self, rfl⟩

lemma isClosedOffer_operators (name : String) (kind : FieldKind) (description : Option String) :
    l.IsClosedOffer e depth (.operators name kind description) :=
  isClosedOffer_concat kind.areComplete_operatorsDefinitions rfl

/-- What needs nothing holds plain values or refers to the filter itself. -/
lemma isClosedOffer_bare {name : String} {type : InputType} {description : Option String}
    (h : ∀ n, type.objectName? = some n → n = l.nameOf e depth) :
    l.IsClosedOffer e depth ⟨⟨name, type, description⟩, []⟩ where
  field n hn := .inl (h n hn)
  objects _ hx := absurd hx List.not_mem_nil

lemma isClosedOffer_nested {name : String} {description : Option String} :
    l.IsClosedOffer e depth (l.nestedOffer name target (depth + 1) description) where
  field n hn := by
    obtain rfl := Option.some.inj hn
    exact .inr List.mem_cons_self
  objects x hx := by simp [nestedOffer] at hx

lemma isClosedOffer_conditional {name : String} :
    l.IsClosedOffer e depth (l.conditionalOffer name target (depth + 1)) := by
  have hneeds : (l.conditionalOffer name target (depth + 1)).needs.map (l.needName depth) =
      l.nameOf target (depth + 1) :: (InputObject.numbers.map InputObject.name ++
        [(InputObject.conditionalAggregate (l.nameOf target (depth + 1))).name]) := by
    show _ :: ((InputObject.numbers ++ [_]).map Need.object).map _ = _
    rw [map_needName_object, List.map_append]
    rfl
  have hnumbers : ∀ {n}, n ∈ InputObject.numbers.map InputObject.name →
      n ∈ (l.conditionalOffer name target (depth + 1)).needs.map (l.needName depth) := by
    intro n hn
    rw [hneeds]
    exact List.mem_cons_of_mem _ (List.mem_append_left _ hn)
  refine ⟨fun n hn => .inr ?_, fun x hx => ?_⟩
  · obtain rfl := Option.some.inj hn
    rw [hneeds]
    exact List.mem_cons_of_mem _ (List.mem_append_right _ List.mem_cons_self)
  · rcases List.mem_cons.mp hx with hx | hx
    · cases hx
    obtain ⟨y, hy, heq⟩ := List.mem_map.mp hx
    cases heq
    rcases List.mem_append.mp hy with hy | hy
    · exact fun n hn => hnumbers (InputObject.areComplete_numbers x hy n hn)
    · obtain rfl := List.mem_singleton.mp hy
      intro n hn
      obtain ⟨f, hf, hn⟩ := InputObject.exists_of_mem_references hn
      rcases List.mem_append.mp hf with hf | hf
      · exact hnumbers (InputObject.mem_names_numbers hf hn)
      · obtain rfl := List.mem_singleton.mp hf
        obtain rfl := Option.some.inj hn
        rw [hneeds]
        exact List.mem_cons_self

/-- **Every offer of a filter comes with what it refers to.** -/
theorem isClosedOffer_of_mem_offers (h : o ∈ l.offers e depth) : l.IsClosedOffer e depth o := by
  cases mem_offers_iff.mp h with
  | stored | identifiers | count | id => exact isClosedOffer_operators _ _ _
  | trunc | extract | window =>
    exact isClosedOffer_concat (FieldKind.areComplete_concat (by
      simp [InputObject.textField, InputObject.textsField, InputObject.operatorsField,
        InputType.objectName?])) rfl
  | joined | quantified => exact isClosedOffer_nested
  | conditional => exact isClosedOffer_conditional
  | aggregate =>
    exact isClosedOffer_concat (InputObject.areComplete_numbers.concat fun _ hf _ hn =>
      InputObject.mem_names_numbers hf hn) rfl
  | quick | included => exact isClosedOffer_bare fun n hn => by simp [InputType.objectName?] at hn
  | combined | negation => exact isClosedOffer_bare fun n hn => (Option.some.inj hn).symm
  | compare | subquery | existence | search =>
    exact isClosedOffer_concat (InputObject.areComplete_plain (by
      simp [InputObject.textField, InputObject.textsField, InputType.objectName?])) rfl

/-! ## What is defined -/

variable {x : Entity} {k room room' : Nat} {ts : InputTypes}

/-- The objects that the filters on the way from an entity consist of: the filters themselves, and
what they need besides filters. -/
def Belongs (l : FilterLanguage) (e : Entity) (depth : Nat) (o : InputObject) : Prop :=
  ∃ x k, Relation.ReflTransGen l.Leads (e, depth) (x, k) ∧
    (o = l.filterObject x k ∨ Need.object o ∈ l.needs x k)

section

variable {R : InputTypes → InputTypes → Prop} {follow : Entity → InputTypes → InputTypes}

/-- What relates lists of types along single definitions relates them along all needs. -/
lemma relates_foldl (hrefl : ∀ ts, R ts ts) (htrans : ∀ {a b c}, R a b → R b c → R a c)
    (needs : List Need) (hobject : ∀ o, Need.object o ∈ needs → ∀ ts, R ts (ts.define o))
    (hfollow : ∀ target, Need.filter target ∈ needs → ∀ ts, R ts (follow target ts))
    (ts : InputTypes) :
    R ts (needs.foldl (fun types need =>
      match need with
      | .object o => types.define o
      | .filter target => follow target types) ts) := by
  induction needs generalizing ts with
  | nil => exact hrefl ts
  | cons need needs ih =>
    refine htrans ?_ (ih (fun o ho => hobject o (List.mem_cons_of_mem _ ho))
      (fun target htarget => hfollow target (List.mem_cons_of_mem _ htarget)) _)
    cases need with
    | object o => exact hobject o List.mem_cons_self ts
    | filter target => exact hfollow target List.mem_cons_self ts

/-- What relates lists of types along single definitions relates them along a filter. -/
lemma relates_defineWith (hrefl : ∀ ts, R ts ts) (htrans : ∀ {a b c}, R a b → R b c → R a c)
    (hown : ∀ ts, R ts (ts.define (l.filterObject e depth)))
    (hobject : ∀ o, Need.object o ∈ l.needs e depth → ∀ ts, R ts (ts.define o))
    (hfollow : ∀ target, Need.filter target ∈ l.needs e depth → ∀ ts, R ts (follow target ts))
    (ts : InputTypes) : R ts (l.defineWith follow e depth ts) := by
  unfold defineWith
  split
  · exact hrefl ts
  · exact htrans (hown ts) (relates_foldl hrefl htrans _ hobject hfollow _)

end

/-- What relates lists of types along single definitions relates them along a whole run. -/
theorem relates_define {R : InputTypes → InputTypes → Prop} (hrefl : ∀ ts, R ts ts)
    (htrans : ∀ {a b c}, R a b → R b c → R a c)
    (hdefine : ∀ o, l.Belongs e depth o → ∀ ts, R ts (ts.define o)) (room : Nat)
    (ts : InputTypes) : R ts (l.define room e depth ts) := by
  induction room generalizing e depth ts with
  | zero =>
    exact relates_defineWith hrefl htrans (hdefine _ ⟨e, depth, .refl, .inl rfl⟩)
      (fun o ho => hdefine o ⟨e, depth, .refl, .inr ho⟩) (fun _ _ ts => hrefl ts) ts
  | succ room ih =>
    refine relates_defineWith hrefl htrans (hdefine _ ⟨e, depth, .refl, .inl rfl⟩)
      (fun o ho => hdefine o ⟨e, depth, .refl, .inr ho⟩) (fun target htarget ts => ?_) ts
    have hleads : l.Leads (e, depth) (target, depth + 1) := ⟨htarget, rfl⟩
    refine ih (fun o ho => hdefine o ?_) ts
    obtain ⟨x, k, hreach, ho⟩ := ho
    exact ⟨x, k, .head hleads hreach, ho⟩

/-- **Whatever is defined belongs to a filter that relations lead to.** -/
theorem mem_objects_define {o : InputObject} (h : o ∈ (l.define room e depth ts).objects) :
    o ∈ ts.objects ∨ l.Belongs e depth o := by
  refine relates_define (R := fun ts ts' => ∀ o ∈ ts'.objects, o ∈ ts.objects ∨ l.Belongs e depth o)
    (fun _ _ h => .inl h) (fun hab hbc o ho => ?_) (fun o ho ts x hx => ?_) room ts o h
  · exact (hbc o ho).elim (hab o) .inr
  · rcases InputTypes.mem_objects_define hx with hx | rfl
    · exact .inl hx
    · exact .inr ho

/-- What is defined keeps its place. -/
theorem prefix_define (room : Nat) (e : Entity) (depth : Nat) (ts : InputTypes) :
    ts.objects <+: (l.define room e depth ts).objects :=
  relates_define (R := fun ts ts' => ts.objects <+: ts'.objects) (fun _ => List.prefix_rfl)
    List.IsPrefix.trans (fun o _ ts => ts.prefix_define o) room ts

/-- The filter on an entity stands in front of what it needs. -/
lemma prefix_define_filter (room : Nat) (e : Entity) (depth : Nat) :
    [l.filterObject e depth] <+: (l.define room e depth {}).objects := by
  have hfirst : ∀ follow : Entity → InputTypes → InputTypes,
      (∀ target ts, ts.objects <+: (follow target ts).objects) →
      [l.filterObject e depth] <+: (l.defineWith follow e depth {}).objects := by
    intro follow hfollow
    have hnew : l.nameOf e depth ∉ InputTypes.names {} := List.not_mem_nil
    have hown : (InputTypes.define {} (l.filterObject e depth)).objects =
        [l.filterObject e depth] := rfl
    unfold defineWith
    rw [if_neg hnew, ← hown]
    exact relates_foldl (R := fun ts ts' => ts.objects <+: ts'.objects)
      (fun _ => List.prefix_rfl) List.IsPrefix.trans _ (fun o _ ts => ts.prefix_define o)
      (fun target _ => hfollow target) _
  cases room with
  | zero => exact hfirst _ fun _ _ => List.prefix_rfl
  | succ room => exact hfirst _ fun target ts => prefix_define room target (depth + 1) ts

/-- The filter from which a schema is made is found under its name. -/
lemma get?_root {room depth : Nat} {e : Entity} :
    (l.define room e depth {}).get? (l.nameOf e depth) = some (l.filterObject e depth) := by
  obtain ⟨rest, hrest⟩ := prefix_define_filter (l := l) room e depth
  rw [InputTypes.get?, ← hrest]
  exact List.find?_cons_of_pos (decide_eq_true rfl)

/-! ## The filters of a schema -/

/-- Behind the fields that combine filters, no field has the name of one of them. -/
lemma specialOffers_eq_append (l : FilterLanguage) (e : Entity) (depth : Nat) :
    ∃ before after, l.specialOffers e depth = before ++
        ⟨⟨"AND", .list (.object (l.nameOf e depth)), none⟩, []⟩ ::
        ⟨⟨"OR", .list (.object (l.nameOf e depth)), none⟩, []⟩ ::
        ⟨⟨"NOT", .object (l.nameOf e depth), none⟩, []⟩ :: after ∧
      ∀ o ∈ after, o.field.name ∈ ["_compare", "_window", "_subquery", "_exists", "search"] := by
  have hassoc : ∀ (ids : List Offer) (a b x y z c : Offer) (w s t f : List Offer),
      ids ++ [a, b, x, y, z, c] ++ w ++ s ++ t ++ f =
        (ids ++ [a, b]) ++ x :: y :: z :: (c :: (w ++ s ++ t ++ f)) := by simp
  refine ⟨_, _, hassoc _ _ _ _ _ _ _ _ _ _ _, fun o ho => ?_⟩
  simp only [List.mem_append, List.mem_ite_nil_right, List.mem_cons, List.not_mem_nil,
    or_false] at ho
  rcases ho with rfl | ((⟨-, rfl⟩ | ⟨-, rfl⟩) | ⟨-, rfl⟩) | ⟨-, rfl⟩ <;> simp [Offer.ofObjects]

/-- What combines filters holds filters of the same type. -/
lemma combines_filterObject (l : FilterLanguage) (e : Entity) (depth : Nat) :
    (l.filterObject e depth).field? "AND" =
        some ⟨"AND", .list (.object (l.nameOf e depth)), none⟩ ∧
      (l.filterObject e depth).field? "OR" =
        some ⟨"OR", .list (.object (l.nameOf e depth)), none⟩ ∧
      (l.filterObject e depth).field? "NOT" =
        some ⟨"NOT", .object (l.nameOf e depth), none⟩ := by
  obtain ⟨before, after, hspecial, hafter⟩ := l.specialOffers_eq_append e depth
  have hne : ∀ f ∈ after.map Offer.field, f.name ≠ "AND" ∧ f.name ≠ "OR" ∧ f.name ≠ "NOT" := by
    intro f hf
    obtain ⟨o, ho, rfl⟩ := List.mem_map.mp hf
    have hname := hafter o ho
    refine ⟨?_, ?_, ?_⟩ <;>
      · intro heq
        rw [heq] at hname
        exact absurd hname (by decide)
  have hand : "OR" ≠ "AND" ∧ "NOT" ≠ "AND" ∧ "NOT" ≠ "OR" := by decide
  unfold filterObject offers
  rw [hspecial, ← List.append_assoc, List.map_append, List.map_cons, List.map_cons, List.map_cons]
  refine ⟨?_, ?_, ?_⟩
  · refine InputObject.field?_ofFields_append (f := ⟨"AND", _, _⟩) _ ?_
    exact List.forall_mem_cons.mpr ⟨hand.1, List.forall_mem_cons.mpr ⟨hand.2.1, fun f hf =>
      (hne f hf).1⟩⟩
  · rw [List.append_cons]
    refine InputObject.field?_ofFields_append (f := ⟨"OR", _, _⟩) _ ?_
    exact List.forall_mem_cons.mpr ⟨hand.2.2, fun f hf => (hne f hf).2.1⟩
  · rw [List.append_cons, List.append_cons]
    exact InputObject.field?_ofFields_append (f := ⟨"NOT", _, _⟩) _ fun f hf => (hne f hf).2.2

/-- What belongs to a filter and has the name of a filter is the whole filter. -/
lemma Belongs.eq_filterObject {o : InputObject} {name : String} (he : e ∈ l.catalog.entities.values)
    (h : l.Belongs e depth o) (hname : o.name = filterName l.scope name k) :
    ∃ x ∈ l.catalog.entities.values, x.name = name ∧
      Relation.ReflTransGen l.Leads (e, depth) (x, k) ∧ o = l.filterObject x k := by
  obtain ⟨x, i, hreach, rfl | hneed⟩ := h
  · obtain ⟨rfl, rfl⟩ := filterName_inj hname
    exact ⟨x, mem_entities_of_leads he hreach, rfl, hreach, rfl⟩
  · rcases need_of_mem_needs hneed with hplain | ⟨_, heq, -⟩
    · exact absurd hname (hplain.ne_filterName _ _ _)
    · cases heq

end FilterLanguage

namespace Staff

def employee : Entity :=
  ((Entity.withField { name := "Employee" } { name := "id", kind := .id }).withRelation
    { name := "manager", cardinality := .one, target := "Employee" }).withRelation
      { name := "team", cardinality := .one, target := "Team" }

def team : Entity :=
  (Entity.withField { name := "Team" } { name := "id", kind := .id }).withRelation
    { name := "members", cardinality := .many, target := "Employee" }

/-- The filters on employees, whose relations run in circles: to themselves, and over the team. -/
def language : FilterLanguage :=
  { catalog := (Catalog.withEntity {} employee).withEntity team
    settings := { features := .all } }

end Staff

end EntityFilter
