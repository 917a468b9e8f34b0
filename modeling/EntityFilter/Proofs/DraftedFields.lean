import EntityFilter.Proofs.PlacedObjects

/-!
# What the making of fields ends in

Every step in which the fields of a filter are made ends, and what has been made then draws the
types that the offers need, one after the other (`Generating.Ends`).  Types only grow, so what a
step finds stays where it is while further steps are made.

While its fields are made, a filter asks for other filters: for those that relations lead to, one
relation deeper, and for itself.  `FilterLanguage.Calls` says what asking for them ends in;
everything else is followed step by step (`FilterLanguage.Makes`), up to all fields of a filter
(`FilterLanguage.makes_whereFields`).
-/

namespace EntityFilter

namespace InputTypes

/-- Define objects one after the other. -/
def defineAll (ts : InputTypes) (objects : List InputObject) : InputTypes := objects.foldl define ts

variable (ts : InputTypes)

lemma defineAll_append (as bs : List InputObject) :
    ts.defineAll (as ++ bs) = (ts.defineAll as).defineAll bs := List.foldl_append

lemma names_prefix_defineAll (objects : List InputObject) :
    ts.names <+: (ts.defineAll objects).names := by
  induction objects generalizing ts with
  | nil => exact List.prefix_rfl
  | cons o objects ih => exact (ts.names_prefix_define o).trans (ih (ts.define o))

end InputTypes

/-! ## Steps that end -/

namespace Generating

variable {α β : Type} {l : FilterLanguage} {g : Generation} {ts ts' : InputTypes} {m : Generating α}
  {P Q : α → Prop}

lemma bind_apply (m : Generating α) (k : α → Generating β) (g : Generation) :
    (m >>= k) g = (m g).bind fun p => k p.1 p.2 := rfl

lemma get_bind_apply (k : Generation → Generating α) (g : Generation) :
    (get >>= k) g = k g g := rfl

/-- A step ends with a result, and then so much has been made as a list of types says. -/
def Ends (l : FilterLanguage) (m : Generating α) (g : Generation) (ts : InputTypes)
    (P : α → Prop) : Prop :=
  ∃ a g', m g = some (a, g') ∧ g'.Draws l ts ∧ g'.inProgress = g.inProgress ∧ P a

lemma Ends.mono (h : Ends l m g ts P) (himp : ∀ a, P a → Q a) : Ends l m g ts Q :=
  let ⟨a, g', hrun, hdraws, hprogress, ha⟩ := h
  ⟨a, g', hrun, hdraws, hprogress, himp a ha⟩

lemma ends_pure {a : α} (h : g.Draws l ts) (ha : P a) : Ends l (pure a) g ts P :=
  ⟨a, g, rfl, h, rfl, ha⟩

lemma Ends.bind {R : β → Prop} {k : α → Generating β} (h : Ends l m g ts P)
    (hk : ∀ a g', g'.Draws l ts → P a → Ends l (k a) g' ts' R) : Ends l (m >>= k) g ts' R := by
  obtain ⟨a, g', hrun, hdraws, hprogress, ha⟩ := h
  obtain ⟨b, g'', hrun', hdraws', hprogress', hb⟩ := hk a g' hdraws ha
  refine ⟨b, g'', ?_, hdraws', hprogress'.trans hprogress, hb⟩
  rw [bind_apply, hrun, Option.bind_some, hrun']

/-- A step ends with the place of a name. -/
def Finds (l : FilterLanguage) (m : Generating Nat) (g : Generation) (ts : InputTypes)
    (name : String) : Prop :=
  Ends l m g ts (fun id => ts.names[id]? = some name)

/-! ### Steps in order -/

lemma inOrder_singleton (m : Generating (List (InputField Nat))) : inOrder [m] = m := by
  simp [inOrder]

lemma inOrder_append (ms ms' : List (Generating (List (InputField Nat)))) :
    inOrder (ms ++ ms') = (do
      let fs ← inOrder ms
      let fs' ← inOrder ms'
      pure (fs ++ fs')) := by
  simp [inOrder, List.mapM_append]

/-! ### Named objects -/

lemma named_eq_of_some {name : String} {make : Generating (InputObject Nat)} {id : Nat}
    (h : g.draft.ids.get? name = some id) : named name make g = some (id, g) := by
  unfold named
  rw [get_bind_apply, h]
  rfl

/-- An object that is no filter is found under its name, or made and put at the end. -/
lemma finds_named {make : Generating (InputObject Nat)} {x : InputObject} {ts₁ : InputTypes}
    (hg : g.Draws l ts) (hplain : IsPlainName x.name)
    (hmade : x.name ∈ ts.names → ts₁ = ts) (hnew : x.name ∉ ts.names → x.name ∉ ts₁.names)
    (hmake : x.name ∉ ts.names → Ends l make g ts₁ (·.StandsFor ts₁.names x))
    (hops : ∀ kind : FieldKind, kind.operatorsName = x.name →
      ∀ o ∈ kind.operatorsDefinitions, o.name ∈ (ts₁.define x).names) :
    Finds l (named x.name make) g (ts₁.define x) x.name := by
  by_cases hname : x.name ∈ ts.names
  · obtain rfl := hmade hname
    obtain ⟨id, hid⟩ := List.getElem?_of_mem hname
    rw [InputTypes.define_of_mem hname]
    exact ⟨id, g, named_eq_of_some ((hg.ids _ id).mpr hid), hg, rfl, hid⟩
  · obtain ⟨o, g', hrun, hdraws, hprogress, ho⟩ := hmake hname
    have hnone : g'.draft.ids.get? o.name = none :=
      ho.name_eq ▸ hdraws.ids_eq_none (hnew hname)
    refine ⟨g'.draft.objects.length, { g' with draft := (g'.draft.push o).2 }, ?_,
      hdraws.push (hnew hname) ho hplain hops, hprogress, ?_⟩
    · unfold named
      rw [get_bind_apply, hg.ids_eq_none hname]
      simp only [bind_apply, hrun, Option.bind_some]
      show some ((g'.draft.add o).1, { g' with draft := (g'.draft.add o).2 }) = _
      rw [SchemaDraft.add, hnone]
      rfl
    · rw [hdraws.length_eq]
      exact InputTypes.getElem?_names_define (hnew hname)

/-- An object that is neither a filter nor the operators of a kind is made at once. -/
lemma finds_named_pure {o : InputObject Nat} {x : InputObject} (hg : g.Draws l ts)
    (hx : o.StandsFor ts.names x) (hplain : IsPlainName x.name)
    (hops : x.name ∉ FieldKind.operatorsNames) :
    Finds l (named x.name (pure o)) g (ts.define x) x.name :=
  finds_named hg hplain (fun _ => rfl) id (fun _ => ends_pure hg hx)
    fun kind hkind => absurd (hkind ▸ kind.operatorsName_mem_operatorsNames) hops

/-! ### Operators and constraints -/

variable {kind : FieldKind} {integers : Generating Nat}

/-- The object that holds the operators of integers is found or made. -/
def FindsIntegers (l : FilterLanguage) (integers : Generating Nat) : Prop :=
  ∀ g ts, g.Draws l ts → Finds l integers g (ts.define FieldKind.int.operatorsObject)
    FieldKind.int.operatorsName

/-- The types after a field of an operator has been made. -/
def withIntegers (needed : Bool) (ts : InputTypes) : InputTypes :=
  if needed then ts.define FieldKind.int.operatorsObject else ts

lemma prefix_withIntegers (needed : Bool) (ts : InputTypes) :
    ts.names <+: (withIntegers needed ts).names := by
  unfold withIntegers
  split
  · exact ts.names_prefix_define _
  · exact List.prefix_rfl

/-- The field of an operator, with the name of what its operands are. -/
def namedField (kind : FieldKind) (info : OperatorInfo) : InputField :=
  ⟨info.name, kind.operandType info.shape, some info.description⟩

lemma ends_operatorField {info : OperatorInfo}
    (hintegers : info.shape = .integer → FindsIntegers l integers) (hg : g.Draws l ts) :
    Ends l (operatorField integers kind info) g (withIntegers (info.shape = .integer) ts)
      (fun f => InputField.StandFor (withIntegers (info.shape = .integer) ts).names [f]
        [namedField kind info]) := by
  have htype : Ends l (operandType integers kind info.shape) g
      (withIntegers (info.shape = .integer) ts)
      (·.StandsFor (withIntegers (info.shape = .integer) ts).names
        (kind.operandType info.shape)) := by
    cases hshape : info.shape with
    | integer =>
      exact (hintegers hshape g ts hg).bind fun id g' hg' hid =>
        ends_pure hg' (InputType.standsFor_object hid)
    | _ => exact ends_pure hg rfl
  exact htype.bind fun type g' hg' htype =>
    ends_pure hg' (InputField.standFor_cons rfl htype rfl InputField.standFor_nil)

lemma ends_operatorFields {infos : List OperatorInfo}
    (hintegers : infos.any (·.shape = .integer) → FindsIntegers l integers) (hg : g.Draws l ts) :
    Ends l (infos.mapM (operatorField integers kind)) g
      (withIntegers (infos.any (·.shape = .integer)) ts)
      (fun fs => InputField.StandFor (withIntegers (infos.any (·.shape = .integer)) ts).names fs
        (infos.map (namedField kind))) := by
  induction infos generalizing g ts with
  | nil => exact ends_pure hg InputField.standFor_nil
  | cons info infos ih =>
    rw [List.any_cons, Bool.or_eq_true] at hintegers
    have hwhole : withIntegers (infos.any (·.shape = .integer))
        (withIntegers (info.shape = .integer) ts) =
          withIntegers ((info :: infos).any (·.shape = .integer)) ts := by
      rw [List.any_cons]
      cases decide (info.shape = .integer) <;> cases infos.any (·.shape = .integer) <;>
        try rfl
      exact InputTypes.define_of_mem (ts.name_mem_names_define _)
    rw [← hwhole, List.mapM_cons]
    refine (ends_operatorField (fun h => hintegers (.inl (decide_eq_true h))) hg).bind
      fun f g₁ hg₁ hf => ?_
    refine (ih (fun h => hintegers (.inr h)) hg₁).bind fun fs g₂ hg₂ hfs => ends_pure hg₂ ?_
    exact (hf.mono (prefix_withIntegers _ _)).append hfs

/-- The operators of integers take none of integers. -/
lemma not_any_integer : ¬FieldKind.int.operators.any (·.shape = .integer) := by decide

/-- The operators of a kind end in their definitions. -/
lemma finds_operatorsWith
    (hintegers : kind.operators.any (·.shape = .integer) → FindsIntegers l integers)
    (hg : g.Draws l ts) :
    Finds l (operatorsWith integers kind) g (ts.defineAll kind.operatorsDefinitions)
      kind.operatorsName := by
  have hdefine : ts.defineAll kind.operatorsDefinitions =
      (withIntegers (kind.operators.any (·.shape = .integer)) ts).define kind.operatorsObject := by
    unfold FieldKind.operatorsDefinitions withIntegers
    cases kind.operators.any (·.shape = .integer) <;> rfl
  have hint : FieldKind.int.operatorsObject.name ∈
      (withIntegers (kind.operators.any (·.shape = .integer)) ts).names ∨
        ¬kind.operators.any (·.shape = .integer) := by
    cases kind.operators.any (·.shape = .integer) with
    | true => exact .inl (ts.name_mem_names_define _)
    | false => exact .inr Bool.false_ne_true
  rw [hdefine]
  refine finds_named (x := kind.operatorsObject) hg kind.isPlainName_operatorsName
    (fun hname => ?_) (fun hname hmem => ?_) (fun _ => ?_) fun kind' hkind => ?_
  · unfold withIntegers
    split
    · next hany =>
      exact InputTypes.define_of_mem (hg.operators kind hname _
        (FieldKind.mem_operatorsDefinitions_iff.mpr (.inl ⟨hany, rfl⟩)))
    · rfl
  · unfold withIntegers at hmem
    split at hmem
    · next hany =>
      rcases InputTypes.mem_names_define hmem with hold | heq
      · exact hname hold
      · have hoperators : kind.operators = FieldKind.int.operators := FieldKind.operators_eq heq
        rw [hoperators] at hany
        exact absurd hany not_any_integer
    · exact hname hmem
  · refine (ends_operatorFields hintegers hg).bind fun fs g' hg' hfs => ends_pure hg' ?_
    exact InputObject.standsFor_ofFields hfs _
  · refine FieldKind.name_mem_of_operatorsName_eq hkind fun o ho => ?_
    rcases FieldKind.mem_operatorsDefinitions_iff.mp ho with ⟨hany, rfl⟩ | rfl
    · exact (InputTypes.names_prefix_define _ _).subset (hint.resolve_right (not_not_intro hany))
    · exact InputTypes.name_mem_names_define _ _

lemma finds_operators (kind : FieldKind) (hg : g.Draws l ts) :
    Finds l (operators kind) g (ts.defineAll kind.operatorsDefinitions) kind.operatorsName := by
  refine finds_operatorsWith (fun _ g ts hg => ?_) hg
  have hnone : FieldKind.int.operators.any (·.shape = .integer) → FindsIntegers l failure :=
    fun hany => absurd hany not_any_integer
  exact finds_operatorsWith hnone hg

/-- An object that is made of what has been found is put behind it. -/
lemma Ends.named_last {objects : List InputObject} {x : InputObject}
    {make : α → InputObject Nat} (h : Ends l m g (ts.defineAll objects) P)
    (hx : ∀ a, P a → (make a).StandsFor (ts.defineAll objects).names x)
    (hplain : IsPlainName x.name) (hops : x.name ∉ FieldKind.operatorsNames) :
    Finds l (m >>= fun a => named x.name (pure (make a))) g (ts.defineAll (objects ++ [x]))
      x.name := by
  rw [InputTypes.defineAll_append]
  exact h.bind fun a g' hg' ha => finds_named_pure hg' (hx a ha) hplain hops

lemma finds_trunc (kind : FieldKind) (hg : g.Draws l ts) :
    Finds l (trunc kind) g (ts.defineAll (kind.operatorsDefinitions ++ [.trunc kind]))
      kind.truncName :=
  (finds_operators kind hg).named_last (x := InputObject.trunc kind)
    (fun id hid => InputObject.standsFor_ofFields (by
      simp [InputField.StandFor, InputField.map, InputType.map, InputObject.textField,
        InputObject.operatorsField, hid]) _)
    (FieldKind.isPlainName_truncName kind) (FieldKind.truncName_notMem_operatorsNames kind)

lemma finds_extract (hg : g.Draws l ts) :
    Finds l extract g (ts.defineAll (FieldKind.int.operatorsDefinitions ++ [.extract]))
      InputObject.extract.name :=
  (finds_operators .int hg).named_last (x := InputObject.extract)
    (fun id hid => InputObject.standsFor_ofFields (by
      simp [InputField.StandFor, InputField.map, InputType.map, InputObject.textField,
        InputObject.operatorsField, hid]) _)
    (.inl (by decide)) (by decide)

lemma finds_window (hg : g.Draws l ts) :
    Finds l window g (ts.defineAll (FieldKind.float.operatorsDefinitions ++ [.window]))
      InputObject.window.name :=
  (finds_operators .float hg).named_last (x := InputObject.window)
    (fun id hid => InputObject.standsFor_ofFields (by
      simp [InputField.StandFor, InputField.map, InputType.map, InputObject.textField,
        InputObject.textsField, InputObject.operatorsField, hid]) _)
    (.inl (by decide)) (by decide)

lemma finds_comparison (hg : g.Draws l ts) :
    Finds l comparison g (ts.defineAll [.comparison]) InputObject.comparison.name :=
  finds_named_pure hg (InputObject.standsFor_ofFields (by rfl) _) (.inr (by decide)) (by decide)

lemma finds_subquery (hg : g.Draws l ts) :
    Finds l subquery g (ts.defineAll [.subquery]) InputObject.subquery.name :=
  finds_named_pure hg (InputObject.standsFor_ofFields (by rfl) _) (.inl (by decide)) (by decide)

lemma finds_existence (hg : g.Draws l ts) :
    Finds l existence g (ts.defineAll [.existence]) InputObject.existence.name :=
  finds_named_pure hg (InputObject.standsFor_ofFields (by rfl) _) (.inl (by decide)) (by decide)

lemma finds_search (hg : g.Draws l ts) :
    Finds l search g (ts.defineAll [.search]) InputObject.search.name :=
  finds_named_pure hg (InputObject.standsFor_ofFields (by rfl) _) (.inl (by decide)) (by decide)

/-- Fields of aggregates stand for each other if the operators of numbers do. -/
lemma standFor_aggregateFields {names : List String} {integers doubles : Nat}
    (hintegers : names[integers]? = some FieldKind.int.operatorsName)
    (hdoubles : names[doubles]? = some FieldKind.float.operatorsName) :
    InputField.StandFor names (InputObject.aggregateFieldsWith integers doubles)
      InputObject.aggregateFields := by
  have hfunctions : InputField.StandFor names
      (AggregateFunction.all.map fun f =>
        InputObject.operatorsField f.name (if f.isCount then integers else doubles))
      (AggregateFunction.all.map fun f => InputObject.operatorsField f.name
        (if f.isCount then FieldKind.int.operatorsName else FieldKind.float.operatorsName)) := by
    unfold InputField.StandFor
    rw [List.map_map, List.map_map]
    refine List.map_congr_left fun f _ => ?_
    cases hcount : f.isCount <;>
      simp [InputObject.operatorsField, InputField.map, InputType.map, hcount, hintegers, hdoubles]
  refine InputField.standFor_cons rfl ?_ rfl hfunctions
  rfl

/-- The operators of integers and of doubles, one after the other. -/
lemma Finds.numbers {x : InputObject} {make : Nat → Nat → InputObject Nat} (hg : g.Draws l ts)
    (hx : ∀ integers doubles, InputField.StandFor (ts.defineAll InputObject.numbers).names
      (InputObject.aggregateFieldsWith integers doubles) InputObject.aggregateFields →
      (make integers doubles).StandsFor (ts.defineAll InputObject.numbers).names x)
    (hplain : IsPlainName x.name) (hops : x.name ∉ FieldKind.operatorsNames) :
    Finds l (do
      let integers ← operators .int
      let doubles ← operators .float
      named x.name (pure (make integers doubles))) g
      (ts.defineAll (InputObject.numbers ++ [x])) x.name := by
  rw [InputObject.numbers, List.append_assoc, InputTypes.defineAll_append]
  refine (finds_operators .int hg).bind fun integers g₁ hg₁ hintegers => ?_
  refine (finds_operators .float hg₁).named_last (fun doubles hdoubles => ?_) hplain hops
  rw [← InputTypes.defineAll_append]
  refine hx integers doubles (standFor_aggregateFields ?_ ?_)
  · rw [InputObject.numbers, InputTypes.defineAll_append]
    exact getElem?_of_prefix (InputTypes.names_prefix_defineAll _ _) hintegers
  · rw [InputObject.numbers, InputTypes.defineAll_append]
    exact hdoubles

lemma finds_aggregate (hg : g.Draws l ts) :
    Finds l aggregate g (ts.defineAll (InputObject.numbers ++ [.aggregate]))
      InputObject.aggregate.name :=
  .numbers hg (fun _ _ hfields => InputObject.standsFor_ofFields hfields _) (.inl (by decide))
    (by decide)

lemma finds_conditionalAggregate {filter : String} {id : Nat} (hg : g.Draws l ts)
    (hid : ts.names[id]? = some filter) :
    Finds l (conditionalAggregate filter id) g
      (ts.defineAll (InputObject.numbers ++ [.conditionalAggregate filter]))
      (InputObject.conditionalAggregate filter).name := by
  refine .numbers hg (fun _ _ hfields => InputObject.standsFor_ofFields (hfields.append ?_) _)
    (isPlainName_conditionalAggregate filter)
    (FieldKind.conditionalAggregate_notMem_operatorsNames filter)
  simp [InputField.StandFor, InputField.map, InputType.map, InputObject.conditionField,
    getElem?_of_prefix (InputTypes.names_prefix_defineAll _ _) hid]

end Generating

/-! ## The fields of a filter -/

/-- Define what is needed, given how to define the filters that are. -/
def InputTypes.defineNeeds (ts : InputTypes) (follow : Entity → InputTypes → InputTypes)
    (needs : List Need) : InputTypes :=
  needs.foldl (fun ts need =>
    match need with
    | .object o => ts.define o
    | .filter target => follow target ts) ts

namespace FilterLanguage

open Generating

/-- What asking for filters ends in while the fields of a filter are made. -/
structure Calls (l : FilterLanguage) (again : Entity → Nat → Generating Nat)
    (follow : Entity → InputTypes → InputTypes) (e : Entity) (depth : Nat) : Prop where
  own : ∀ g ts, g.Draws l ts → l.nameOf e depth ∈ ts.names →
    Finds l (again e depth) g ts (l.nameOf e depth)
  nested : depth + 1 < l.maxDepth → ∀ target g ts, g.Draws l ts →
    Finds l (again target (depth + 1)) g (follow target ts) (l.nameOf target (depth + 1))
  stays : ∀ target ts, l.nameOf target (depth + 1) ∈ ts.names → follow target ts = ts
  grows : ∀ target ts, ts.objects <+: (follow target ts).objects

variable {l : FilterLanguage} {again : Entity → Nat → Generating Nat}
  {follow : Entity → InputTypes → InputTypes} {e : Entity} {depth : Nat} {g : Generation}
  {ts : InputTypes}

lemma defineNeeds_append (needs needs' : List Need) :
    ts.defineNeeds follow (needs ++ needs') =
      (ts.defineNeeds follow needs).defineNeeds follow needs' := List.foldl_append

lemma defineNeeds_objects (objects : List InputObject) :
    ts.defineNeeds follow (objects.map .object) = ts.defineAll objects := List.foldl_map

lemma Calls.prefix_defineNeeds (hcalls : l.Calls again follow e depth) (needs : List Need) :
    ts.objects <+: (ts.defineNeeds follow needs).objects :=
  relates_foldl (R := fun ts ts' => ts.objects <+: ts'.objects) (fun _ => List.prefix_rfl)
    List.IsPrefix.trans needs (fun o _ ts => ts.prefix_define o)
    (fun target _ => hcalls.grows target) ts

lemma Calls.names_prefix (hcalls : l.Calls again follow e depth) (needs : List Need) :
    ts.names <+: (ts.defineNeeds follow needs).names := (hcalls.prefix_defineNeeds needs).map _

/-- A step makes the fields of some offers and what they need. -/
def Makes (l : FilterLanguage) (follow : Entity → InputTypes → InputTypes) (e : Entity)
    (depth : Nat) (m : Generating (List (InputField Nat))) (offers : List Offer) : Prop :=
  ∀ g ts, g.Draws l ts → l.nameOf e depth ∈ ts.names →
    Ends l m g (ts.defineNeeds follow (offers.flatMap Offer.needs)) fun fs =>
      InputField.StandFor (ts.defineNeeds follow (offers.flatMap Offer.needs)).names fs
        (offers.map Offer.field)

variable {m : Generating (List (InputField Nat))}
  {ms ms' : List (Generating (List (InputField Nat)))} {offers offers' : List Offer}

lemma makes_nil : l.Makes follow e depth (inOrder []) [] := fun _ _ hg _ =>
  ends_pure hg InputField.standFor_nil

lemma makes_singleton (hm : l.Makes follow e depth m offers) :
    l.Makes follow e depth (inOrder [m]) offers := by
  rwa [inOrder_singleton]

lemma makes_append (hcalls : l.Calls again follow e depth)
    (hms : l.Makes follow e depth (inOrder ms) offers)
    (hms' : l.Makes follow e depth (inOrder ms') offers') :
    l.Makes follow e depth (inOrder (ms ++ ms')) (offers ++ offers') := by
  intro g ts hg hown
  rw [inOrder_append, List.flatMap_append, defineNeeds_append, List.map_append]
  refine (hms g ts hg hown).bind fun fs g₁ hg₁ hfs => ?_
  refine (hms' g₁ _ hg₁ ((hcalls.names_prefix _).subset hown)).bind fun fs' g₂ hg₂ hfs' => ?_
  exact ends_pure hg₂ ((hfs.mono (hcalls.names_prefix _)).append hfs')

lemma makes_cons (hcalls : l.Calls again follow e depth) (hm : l.Makes follow e depth m offers)
    (hms : l.Makes follow e depth (inOrder ms) offers') :
    l.Makes follow e depth (inOrder (m :: ms)) (offers ++ offers') :=
  makes_append hcalls (makes_singleton hm) hms

lemma makes_map {α : Type} (hcalls : l.Calls again follow e depth) (as : List α)
    {step : α → Generating (List (InputField Nat))} {offersOf : α → List Offer}
    (h : ∀ a, l.Makes follow e depth (step a) (offersOf a)) :
    l.Makes follow e depth (inOrder (as.map step)) (as.flatMap offersOf) := by
  induction as with
  | nil => exact makes_nil
  | cons a as ih => exact makes_cons hcalls (h a) ih

lemma makes_ite {c : Prop} [Decidable c] (h : c → l.Makes follow e depth (inOrder ms) offers) :
    l.Makes follow e depth (inOrder (if c then ms else [])) (if c then offers else []) := by
  split
  · next hc => exact h hc
  · exact makes_nil

/-! ### Fields that refer to objects -/

variable {type : Generating Nat} {name n : String} {objects : List InputObject}

lemma ends_objectField (h : Finds l type g ts n) :
    Ends l (objectField name type) g ts
      (InputField.StandFor ts.names · [⟨name, .object n, none⟩]) :=
  h.bind fun _ _ hg hid => ends_pure hg
    (InputField.standFor_cons rfl (InputType.standsFor_object hid) rfl InputField.standFor_nil)

lemma makes_objectField (h : ∀ g ts, g.Draws l ts → Finds l type g (ts.defineAll objects) n) :
    l.Makes follow e depth (objectField name type) [.ofObjects name (.object n) objects] := by
  intro g ts hg _
  rw [List.flatMap_singleton, Offer.ofObjects, defineNeeds_objects]
  exact ends_objectField (h g ts hg)

lemma makes_listField (h : ∀ g ts, g.Draws l ts → Finds l type g (ts.defineAll objects) n) :
    l.Makes follow e depth (listField name type) [.ofObjects name (.list (.object n)) objects] := by
  intro g ts hg _
  rw [List.flatMap_singleton, Offer.ofObjects, defineNeeds_objects]
  exact (h g ts hg).bind fun id g' hg' hid => ends_pure hg'
    (InputField.standFor_cons rfl (congrArg InputType.list (InputType.standsFor_object hid)) rfl
      InputField.standFor_nil)

lemma makes_operatorsFields (kind : FieldKind) (description : Option String) :
    l.Makes follow e depth (l.operatorsFields name kind description)
      (l.operatorsOffers name kind description) := by
  intro g ts hg _
  unfold operatorsFields operatorsOffers
  split
  · exact ends_pure hg InputField.standFor_nil
  · rw [List.flatMap_singleton, Offer.ofObjects, defineNeeds_objects]
    exact (finds_operators kind hg).bind fun id g' hg' hid => ends_pure hg'
      (InputField.standFor_cons rfl (InputType.standsFor_object hid) rfl InputField.standFor_nil)

lemma makes_fieldFields (hcalls : l.Calls again follow e depth) (f : Field) :
    l.Makes follow e depth (l.fieldFields f) (l.fieldOffers f) := by
  refine makes_cons hcalls (makes_operatorsFields f.kind (describe f)) ?_
  refine makes_ite fun _ => makes_append hcalls (makes_ite fun _ => ?_) (makes_ite fun _ => ?_)
  · exact makes_singleton (makes_objectField fun _ _ => finds_trunc f.kind)
  · exact makes_singleton (makes_objectField fun _ _ => finds_extract)

/-! ### Fields that refer to filters -/

/-- The filters on related rows that a relation to many rows offers. -/
def quantifiedOffers (l : FilterLanguage) (r : Relation) (target : Entity) (depth : Nat) :
    List Offer :=
  [Quantifier.some, .every, .none].map fun quantifier =>
    l.nestedOffer (r.name ++ quantifier.ending) target depth quantifier.description

/-- The filter that they refer to is defined once. -/
lemma Calls.defineNeeds_quantifiedOffers (hcalls : l.Calls again follow e depth) (r : Relation)
    {target : Entity} (h : l.nameOf target (depth + 1) ∈ ts.names) :
    ts.defineNeeds follow ((l.quantifiedOffers r target (depth + 1)).flatMap Offer.needs) = ts := by
  have hstays := hcalls.stays target ts h
  show follow target (follow target (follow target ts)) = ts
  rw [hstays, hstays, hstays]

lemma Calls.defineNeeds_quantifiedOffers_of_new (hcalls : l.Calls again follow e depth)
    (r : Relation) {target : Entity}
    (h : l.nameOf target (depth + 1) ∈ (follow target ts).names) :
    ts.defineNeeds follow ((l.quantifiedOffers r target (depth + 1)).flatMap Offer.needs) =
      follow target ts := by
  have hstays := hcalls.stays target (follow target ts) h
  show follow target (follow target (follow target ts)) = follow target ts
  rw [hstays, hstays]

lemma standFor_quantifiedOffers {names : List String} {id : Nat} {target : Entity}
    (hid : names[id]? = some (l.nameOf target depth)) (r : Relation) :
    InputField.StandFor names
      [⟨r.name ++ "_some", .object id, "At least one related row matches"⟩,
       ⟨r.name ++ "_every", .object id, "There are related rows and every one matches"⟩,
       ⟨r.name ++ "_none", .object id, "No related row matches"⟩]
      ((l.quantifiedOffers r target depth).map Offer.field) := by
  simp [InputField.StandFor, InputField.map, InputType.map, quantifiedOffers, nestedOffer,
    Quantifier.ending, Quantifier.description, hid]

lemma makes_nestedFields (hcalls : l.Calls again follow e depth) (hdepth : depth + 1 < l.maxDepth)
    (r : Relation) (target : Entity) :
    l.Makes follow e depth (l.nestedFields again r target (depth + 1))
      ((if l.features.conditionalAggregation then
        [l.conditionalOffer (r.name ++ "_cond_agg") target (depth + 1)] else []) ++
      l.quantifiedOffers r target (depth + 1)) := by
  intro g ts hg _
  refine (hcalls.nested hdepth target g ts hg).bind fun id g₁ hg₁ hid => ?_
  rw [List.flatMap_append, defineNeeds_append, List.map_append, conditionalFields]
  split
  · have hneeds : ts.defineNeeds follow ([l.conditionalOffer (r.name ++ "_cond_agg") target
        (depth + 1)].flatMap Offer.needs) = (follow target ts).defineAll (InputObject.numbers ++
          [.conditionalAggregate (l.nameOf target (depth + 1))]) := by
      rw [List.flatMap_singleton]
      exact defineNeeds_objects _
    have hid₂ := getElem?_of_prefix ((follow target ts).names_prefix_defineAll
      (InputObject.numbers ++ [.conditionalAggregate (l.nameOf target (depth + 1))])) hid
    rw [hneeds, hcalls.defineNeeds_quantifiedOffers r (List.mem_of_getElem? hid₂)]
    refine (ends_objectField (finds_conditionalAggregate hg₁ hid)).bind fun fs g₂ hg₂ hfs => ?_
    exact ends_pure hg₂ (hfs.append (standFor_quantifiedOffers hid₂ r))
  · have hneeds : ts.defineNeeds follow (([] : List Offer).flatMap Offer.needs) = ts := rfl
    rw [hneeds, hcalls.defineNeeds_quantifiedOffers_of_new r (List.mem_of_getElem? hid)]
    refine (ends_pure (P := (· = [])) hg₁ rfl).bind fun fs g₂ hg₂ hfs => ?_
    subst hfs
    exact ends_pure hg₂ (standFor_quantifiedOffers hid r)

lemma makes_toManyFields (hcalls : l.Calls again follow e depth) (r : Relation) (target : Entity) :
    l.Makes follow e depth (inOrder (l.toManyFields again e r target depth))
      (l.toManyOffers e r target depth) := by
  refine makes_append hcalls (makes_append hcalls ?_ ?_) (makes_ite fun hdepth => ?_)
  · exact makes_singleton (makes_objectField fun _ _ => finds_aggregate)
  · split
    · exact makes_nil
    · exact makes_singleton (makes_operatorsFields .int none)
  · exact makes_singleton (makes_nestedFields hcalls hdepth r target)

lemma makes_relationFields (hcalls : l.Calls again follow e depth) (r : Relation) :
    l.Makes follow e depth (l.relationFields again e depth r) (l.relationOffers e depth r) := by
  unfold relationFields relationOffers
  cases l.catalog.entity? r.target with
  | none => exact fun g ts hg _ => ends_pure hg InputField.standFor_nil
  | some target =>
    refine makes_cons hcalls (makes_operatorsFields _ _) ?_
    split
    · exact makes_toManyFields hcalls r target
    · refine makes_ite fun hdepth => makes_singleton fun g ts hg _ => ?_
      exact ends_objectField (hcalls.nested hdepth target g ts hg)

/-- The filter on the same rows has a place while its fields are made. -/
lemma makes_combiningFields (hcalls : l.Calls again follow e depth) :
    l.Makes follow e depth (combiningFields (again e depth))
      [⟨⟨"AND", .list (.object (l.nameOf e depth)), none⟩, []⟩,
       ⟨⟨"OR", .list (.object (l.nameOf e depth)), none⟩, []⟩,
       ⟨⟨"NOT", .object (l.nameOf e depth), none⟩, []⟩] := by
  intro g ts hg hown
  refine (hcalls.own g ts hg hown).bind fun id g' hg' hid => ends_pure hg' ?_
  show InputField.StandFor ts.names _ _
  simp [InputField.StandFor, InputField.map, InputType.map, hid]

lemma makes_specialFields (hcalls : l.Calls again follow e depth) :
    l.Makes follow e depth (inOrder (l.specialFields again e depth)) (l.specialOffers e depth) := by
  have hplain : l.Makes follow e depth (pure [
      ⟨"quick", .scalar .text, "Case-insensitive text match across the quick-search fields"⟩,
      ⟨"include", .list (.scalar .id), "Identifiers always part of the result"⟩])
      [⟨⟨"quick", .scalar .text, "Case-insensitive text match across the quick-search fields"⟩, []⟩,
       ⟨⟨"include", .list (.scalar .id), "Identifiers always part of the result"⟩, []⟩] :=
    fun g ts hg _ => ends_pure hg rfl
  have hkey : l.Makes follow e depth
      (l.operatorsFields "id" e.primaryKeyKind "Filter on the primary key")
      (l.operatorsOffers "id" e.primaryKeyKind "Filter on the primary key") :=
    makes_operatorsFields _ _
  have hcompare : l.Makes follow e depth (listField "_compare" comparison)
      [.ofObjects "_compare" (.list (.object InputObject.comparison.name)) [.comparison]] :=
    makes_listField fun _ _ => finds_comparison
  have hfirst := makes_cons hcalls hkey <| makes_cons hcalls hplain <|
    makes_cons hcalls (makes_combiningFields hcalls) <| makes_singleton hcompare
  refine makes_append hcalls (makes_append hcalls (makes_append hcalls (makes_append hcalls hfirst
    (makes_ite fun _ => ?_)) (makes_ite fun _ => ?_)) (makes_ite fun _ => ?_))
    (makes_ite fun _ => ?_)
  · exact makes_singleton (makes_listField fun _ _ => finds_window)
  · exact makes_singleton (makes_listField fun _ _ => finds_subquery)
  · exact makes_singleton (makes_listField fun _ _ => finds_existence)
  · exact makes_singleton (makes_objectField fun _ _ => finds_search)

/-- Making the fields of a filter makes what it offers, and what it needs. -/
theorem makes_whereFields (hcalls : l.Calls again follow e depth) :
    l.Makes follow e depth (l.whereFields again e depth) (l.offers e depth) := by
  refine makes_append hcalls (makes_append hcalls ?_ (makes_ite fun _ => ?_))
    (makes_specialFields hcalls)
  · exact makes_map hcalls _ fun f => makes_fieldFields hcalls f
  · exact makes_map hcalls _ fun r => makes_relationFields hcalls r

end FilterLanguage

end EntityFilter
