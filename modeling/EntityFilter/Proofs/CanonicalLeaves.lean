import EntityFilter.Proofs.LeafTruth
import EntityFilter.Proofs.MemberOrder

/-!
# Leaves of canonical documents

A leaf that is read from a canonical document makes the same tests as one that is read from the
document itself (`Leaf.test?_canonical`).  Its operators come in another order, and operands that
hold objects hold their members in another order.  Neither matters: all conditions of a leaf must be
met, and an operand that is a document is only compared with values or read as a leaf itself.

On the way to a test an operand is shaped and coerced.  Both leave documents inside it as they are,
so both commute with making it canonical (`OperatorFamily.shaped?_canonical`,
`Literal.IsCoercion.canonical`).
-/

namespace EntityFilter

/-! ## Literals -/

namespace Literal

mutual

/-- A literal whose documents are canonical. -/
def canonical : Literal → Literal
  | list items => list (canonicals items)
  | document d => document d.canonical
  | v => v

/-- Literals whose documents are canonical. -/
def canonicals : List Literal → List Literal
  | [] => []
  | v :: vs => v.canonical :: canonicals vs

end

/-- Whether the documents in a literal are well formed. -/
def WellFormed (v : Literal) : Prop := v.toDocument.WellFormed

variable {v x : Literal} {items : List Literal} {f : Literal → Literal} {d : Document}

lemma canonicals_eq_map (items : List Literal) : canonicals items = items.map canonical := by
  induction items with
  | nil => rfl
  | cons v vs ih => rw [canonicals, ih, List.map_cons]

lemma ofDocuments_eq_map (ds : List Document) : ofDocuments ds = ds.map ofDocument := by
  induction ds with
  | nil => rfl
  | cons d ds ih => rw [ofDocuments, ih, List.map_cons]

lemma toDocuments_eq_map (items : List Literal) : toDocuments items = items.map toDocument := by
  induction items with
  | nil => rfl
  | cons v vs ih => rw [toDocuments, ih, List.map_cons]

lemma wellFormed_list : (list items).WellFormed ↔ ∀ v ∈ items, v.WellFormed := by
  show Document.ItemsWellFormed (toDocuments items) ↔ _
  rw [Document.itemsWellFormed_iff, toDocuments_eq_map]
  simp [WellFormed]

lemma wellFormed_ofDocument (h : d.WellFormed) : (ofDocument d).WellFormed := by
  induction d using Document.of_parts with
  | scalar d hscalar =>
    cases d with
    | array | object => simp [Document.isScalar] at hscalar
    | int i =>
      rw [ofDocument]
      split
      · trivial
      · exact Document.wellFormed_ofFloat _
    | float x => exact Document.wellFormed_ofFloat _
    | _ => trivial
  | array items ih =>
    have hitems := Document.itemsWellFormed_iff.mp h
    rw [ofDocument, wellFormed_list, ofDocuments_eq_map, List.forall_mem_map]
    exact fun d hd => ih d hd (hitems d hd)
  | object ms => exact h

/-- **The literal of a canonical document is canonical.** -/
theorem ofDocument_canonical (d : Document) :
    ofDocument d.canonical = (ofDocument d).canonical := by
  induction d using Document.of_parts with
  | scalar d hscalar =>
    rw [Document.canonical_of_isScalar hscalar]
    cases d with
    | array | object => simp [Document.isScalar] at hscalar
    | int i =>
      rw [ofDocument]
      split <;> rfl
    | _ => rfl
  | array items ih =>
    rw [Document.canonical, ofDocument, ofDocument, canonical, ofDocuments_eq_map,
      ofDocuments_eq_map, canonicals_eq_map, Document.canonicalItems_eq_map, List.map_map,
      List.map_map]
    exact congrArg list (List.map_congr_left ih)
  | object ms => rfl

lemma toList_canonical (v : Literal) : v.canonical.toList = v.toList.map canonical := by
  cases v with
  | list items => exact canonicals_eq_map items
  | _ => rfl

lemma wellFormed_of_mem_toList (h : v.WellFormed) : ∀ x ∈ v.toList, x.WellFormed := by
  cases v with
  | list items => exact wellFormed_list.mp h
  | _ => exact fun x hx => List.mem_singleton.mp hx ▸ h

lemma asText?_canonical (v : Literal) : v.canonical.asText? = v.asText? := by cases v <;> rfl

lemma asBool?_canonical (v : Literal) : v.canonical.asBool? = v.asBool? := by cases v <;> rfl

/-! ## Comparing with a literal -/

/-- What is compared with a literal compares with its canonical form in the same way. -/
lemma orderOf?_canonical (h : v.WellFormed) (value : Document) :
    orderOf? value v.canonical = orderOf? value v := by
  cases v with
  | document d =>
    have hd : d.WellFormed := h
    simp only [canonical, orderOf?, Document.same_canonical hd]
  | list items =>
    rw [canonical, orderOf?, orderOf?]
    · cases ofDocument value <;> rfl
    all_goals simp
  | _ => rfl

lemma equals_canonical (h : v.WellFormed) (value : Document) :
    equals value v.canonical = equals value v := by
  rw [equals, equals, orderOf?_canonical h]

lemma any_equals_canonical (h : ∀ v ∈ items, v.WellFormed) (value : Document) :
    (items.map canonical).any (equals value) = items.any (equals value) := by
  rw [List.any_map]
  exact any_eq_of_mem fun v hv => equals_canonical (h v hv) value

lemma admits_canonical (h : v.WellFormed) (op : CompareOp) :
    v.canonical.admits op = v.admits op := by
  funext value
  simp only [admits, orderOf?_canonical h]

lemma compares_canonical (h : v.WellFormed) (op : CompareOp) :
    v.canonical.compares op = v.compares op := by
  have hadmits := admits_canonical h op
  cases v with
  | list items | document d => cases op <;> exact hadmits
  | _ => rfl

/-! ## Coercions -/

/-- Whether a literal holds neither literals nor a document. -/
def isPlain : Literal → Bool
  | list _ | document _ => false
  | _ => true

lemma canonical_of_isPlain (h : v.isPlain) : v.canonical = v := by
  cases v with
  | list | document => simp [isPlain] at h
  | _ => rfl

lemma wellFormed_of_isPlain (h : v.isPlain) : v.WellFormed := by
  cases v with
  | list | document => simp [isPlain] at h
  | float x => exact Document.wellFormed_ofFloat x
  | _ => trivial

section

variable {P : Literal → Prop}

mutual

/-- What holds of plain literals and of documents, and of every list of literals that it holds of,
holds of all literals. -/
theorem of_items (plain : ∀ v, v.isPlain → P v) (document : ∀ d, P (.document d))
    (list : ∀ items, (∀ v ∈ items, P v) → P (.list items)) : ∀ v, P v
  | .list items => list items (of_items_of_mem plain document list items)
  | .document d => document d
  | .null => plain _ rfl
  | .bool _ => plain _ rfl
  | .int _ => plain _ rfl
  | .float _ => plain _ rfl
  | .text _ => plain _ rfl
  | .date _ => plain _ rfl
  | .instant _ => plain _ rfl

theorem of_items_of_mem (plain : ∀ v, v.isPlain → P v) (document : ∀ d, P (.document d))
    (list : ∀ items, (∀ v ∈ items, P v) → P (.list items)) :
    ∀ items : List Literal, ∀ v ∈ items, P v
  | [], _, hv => absurd hv List.not_mem_nil
  | v :: vs, x, hx => (List.mem_cons.mp hx).elim (fun h => h ▸ of_items plain document list v)
      (of_items_of_mem plain document list vs x)

end

end

/-- A function that turns plain literals into plain ones, inside lists too, and leaves documents as
they are. -/
structure IsCoercion (f : Literal → Literal) : Prop where
  plain : ∀ v, v.isPlain → (f v).isPlain
  document : ∀ d, f (.document d) = .document d
  list : ∀ items, f (.list items) = .list (items.map f)

namespace IsCoercion

variable (hf : IsCoercion f)

include hf

/-- Literals are coerced in their canonical forms. -/
lemma canonical (v : Literal) : f v.canonical = (f v).canonical := by
  induction v using of_items with
  | plain v hv => rw [canonical_of_isPlain hv, canonical_of_isPlain (hf.plain v hv)]
  | document d => rw [Literal.canonical, hf.document, hf.document, Literal.canonical]
  | list items ih =>
    rw [Literal.canonical, hf.list, hf.list, Literal.canonical, canonicals_eq_map,
      canonicals_eq_map, List.map_map, List.map_map]
    exact congrArg Literal.list (List.map_congr_left ih)

lemma wellFormed (h : v.WellFormed) : (f v).WellFormed := by
  induction v using of_items with
  | plain v hv => exact wellFormed_of_isPlain (hf.plain v hv)
  | document d => rwa [hf.document]
  | list items ih =>
    rw [wellFormed_list] at h
    rw [hf.list, wellFormed_list, List.forall_mem_map]
    exact fun v hv => ih v hv (h v hv)

end IsCoercion

lemma isCoercion_id : IsCoercion id where
  plain _ h := h
  document _ := rfl
  list items := congrArg Literal.list (List.map_id items).symm

lemma isCoercion_coerceDate : IsCoercion coerceDate where
  plain v h := by
    cases v with
    | list | document => simp [isPlain] at h
    | text s =>
      rw [coerceDate]
      split <;> rfl
    | _ => rfl
  document _ := rfl
  list items := by
    have hmap : coerceDates items = items.map coerceDate := by
      induction items with
      | nil => rfl
      | cons v vs ih => rw [coerceDates, ih, List.map_cons]
    rw [coerceDate, hmap]

lemma isCoercion_coerceInstant : IsCoercion coerceInstant where
  plain v h := by
    cases v with
    | list | document => simp [isPlain] at h
    | text s =>
      rw [coerceInstant]
      split <;> rfl
    | _ => rfl
  document _ := rfl
  list items := by
    have hmap : coerceInstants items = items.map coerceInstant := by
      induction items with
      | nil => rfl
      | cons v vs ih => rw [coerceInstants, ih, List.map_cons]
    rw [coerceInstant, hmap]

/-! ## Shapes -/

lemma toDocument_canonical (v : Literal) : v.canonical.toDocument = v.toDocument.canonical := by
  induction v using of_items with
  | plain v hv =>
    rw [canonical_of_isPlain hv]
    cases v with
    | list | document => simp [isPlain] at hv
    | float x =>
      rw [toDocument, Document.ofFloat]
      split <;> rfl
    | _ => rfl
  | document d => rfl
  | list items ih =>
    rw [canonical, toDocument, toDocument, Document.canonical, canonicals_eq_map,
      toDocuments_eq_map, toDocuments_eq_map, Document.canonicalItems_eq_map, List.map_map,
      List.map_map]
    exact congrArg Document.array (List.map_congr_left ih)

end Literal

namespace OperatorFamily

variable {family : OperatorFamily} {shape : OperandShape} {v w : Literal}

lemma fits_canonical (family : OperatorFamily) (v : Literal) :
    family.fits v.canonical = family.fits v := by
  cases v <;> cases family <;> rfl

/-- **Operands are shaped in their canonical forms.** -/
theorem shaped?_canonical (family : OperatorFamily) (shape : OperandShape) (v : Literal) :
    family.shaped? shape v.canonical = (family.shaped? shape v).map Literal.canonical := by
  have hall : ∀ p : Literal → Bool, (∀ x, p x.canonical = p x) →
      (if v.canonical.toList.all p then some (Literal.list v.canonical.toList) else none) =
        (if v.toList.all p then some (Literal.list v.toList) else none).map Literal.canonical := by
    intro p hp
    rw [Literal.toList_canonical, List.all_map, show p ∘ Literal.canonical = p from funext hp]
    split
    · rw [Option.map_some, Literal.canonical, Literal.canonicals_eq_map]
    · rfl
  have hfits := fits_canonical family v
  cases shape with
  | list => exact hall family.fits (fits_canonical family)
  | keys => exact hall _ fun x => by rw [Literal.asText?_canonical]
  | ordered =>
    simp only [shaped?, hfits]
    split <;> rfl
  | flag =>
    simp only [shaped?, Literal.asBool?_canonical, Option.map_map]
    rfl
  | pattern | key =>
    simp only [shaped?, Literal.asText?_canonical, Option.map_map]
    rfl
  | value =>
    cases v with
    | list items =>
      simp only [shaped?, Literal.canonical]
      split
      · rw [Option.map_some, Literal.canonical, ← Literal.toDocument_canonical, Literal.canonical]
      · rfl
    | null => rfl
    | document d =>
      have hdocument : family.fits (.document d.canonical) = family.fits (.document d) := hfits
      simp only [shaped?, Literal.canonical, hdocument]
      split <;> rfl
    | _ =>
      simp only [shaped?, Literal.canonical]
      split <;> rfl
  | range =>
    cases v with
    | list items =>
      rcases items with _ | ⟨low, _ | ⟨high, _ | ⟨more, items⟩⟩⟩
      · rfl
      · rfl
      · simp only [shaped?, Literal.canonical, Literal.canonicals, fits_canonical]
        split <;> rfl
      · rfl
    | _ => rfl
  | integer =>
    cases v with
    | document d => cases d <;> rfl
    | float x =>
      simp only [shaped?, Literal.canonical, Option.map_map]
      rfl
    | _ => rfl

lemma wellFormed_of_shaped? (hv : v.WellFormed) (h : family.shaped? shape v = some w) :
    w.WellFormed := by
  have hlist : ∀ p : Literal → Bool,
      (if v.toList.all p then some (Literal.list v.toList) else none) = some w → w.WellFormed := by
    intro p hw
    split at hw
    · obtain rfl := Option.some.inj hw
      exact Literal.wellFormed_list.mpr (Literal.wellFormed_of_mem_toList hv)
    · simp at hw
  have hsame : ∀ {p : Prop} [Decidable p], (if p then some v else none) = some w →
      w.WellFormed := by
    intro p _ hw
    split at hw
    · exact Option.some.inj hw ▸ hv
    · simp at hw
  cases shape with
  | list | keys => exact hlist _ h
  | ordered => exact hsame h
  | flag | pattern | key =>
    obtain ⟨x, -, rfl⟩ := Option.map_eq_some_iff.mp h
    trivial
  | value =>
    cases v with
    | null => exact Option.some.inj h ▸ hv
    | list items =>
      simp only [shaped?] at h
      split at h
      · exact Option.some.inj h ▸ hv
      · simp at h
    | _ => exact hsame h
  | range =>
    simp only [shaped?] at h
    split at h
    · exact hsame h
    · simp at h
  | integer =>
    simp only [shaped?] at h
    split at h
    · exact Option.some.inj h ▸ hv
    · obtain ⟨i, -, rfl⟩ := Option.map_eq_some_iff.mp h
      trivial

end OperatorFamily

/-! ## Conditions -/

namespace Condition

variable {cond : Condition} {kind : FieldKind} {now : Instant} {v : Literal}

/-- A condition with its operand in canonical form. -/
def canonical (cond : Condition) : Condition := { cond with operand := cond.operand.canonical }

lemma ofOperator?_canonical (family : OperatorFamily) (name : String) (v : Literal) :
    ofOperator? family name v.canonical = (ofOperator? family name v).map canonical := by
  unfold ofOperator?
  cases family.operator? name with
  | none => rfl
  | some info =>
    simp only [Option.bind_eq_bind, Option.bind_some, OperatorFamily.shaped?_canonical]
    cases family.shaped? info.shape v <;> rfl

/-- Operands are coerced by a coercion that depends on the kind of the value alone. -/
lemma exists_isCoercion (kind : FieldKind) :
    ∃ f, Literal.IsCoercion f ∧ ∀ cond : Condition, cond.coerced kind = f cond.operand := by
  cases kind with
  | dateTime => exact ⟨_, Literal.isCoercion_coerceInstant, fun _ => rfl⟩
  | date => exact ⟨_, Literal.isCoercion_coerceDate, fun _ => rfl⟩
  | _ => exact ⟨id, Literal.isCoercion_id, fun _ => rfl⟩

lemma coerced_canonical (cond : Condition) (kind : FieldKind) :
    cond.canonical.coerced kind = (cond.coerced kind).canonical := by
  obtain ⟨f, hf, hcoerced⟩ := exists_isCoercion kind
  rw [hcoerced, hcoerced]
  exact hf.canonical cond.operand

lemma wellFormed_coerced (h : cond.operand.WellFormed) (kind : FieldKind) :
    (cond.coerced kind).WellFormed := by
  obtain ⟨f, hf, hcoerced⟩ := exists_isCoercion kind
  rw [hcoerced]
  exact hf.wellFormed h

lemma simpleTest?_canonical (h : cond.operand.WellFormed) (kind : FieldKind) (now : Instant) :
    cond.canonical.simpleTest? kind now = cond.simpleTest? kind now := by
  have hwell := wellFormed_coerced h kind
  have hinfo : cond.canonical.info = cond.info := rfl
  simp only [simpleTest?, hinfo, coerced_canonical]
  revert hwell
  generalize cond.coerced kind = v
  intro hwell
  have hmember := Literal.wellFormed_of_mem_toList hwell
  have hequals := Literal.any_equals_canonical hmember
  cases cond.info.operator with
  | compare op => exact congrArg some (Literal.compares_canonical hwell op)
  | member negated => simp only [Literal.toList_canonical, hequals]
  | between =>
    cases v with
    | list items =>
      rw [Literal.wellFormed_list] at hwell
      rcases items with _ | ⟨low, _ | ⟨high, _ | ⟨more, items⟩⟩⟩
      · rfl
      · rfl
      · rw [List.forall_mem_cons, List.forall_mem_cons] at hwell
        simp only [Literal.canonical, Literal.canonicals, Literal.admits_canonical hwell.1,
          Literal.admits_canonical hwell.2.1]
      · rfl
    | _ => rfl
  | isNull | period p => simp only [Literal.asBool?_canonical]
  | text how ignoreCase | regex ignoreCase => simp only [Literal.asText?_canonical]
  | keys mode =>
    have hnames : v.canonical.toList.mapM Literal.asText? = v.toList.mapM Literal.asText? := by
      rw [Literal.toList_canonical, List.mapM_map]
      exact congrArg (List.mapM · _) (funext Literal.asText?_canonical)
    simp only [hnames]
  | array how =>
    refine congrArg some (funext fun value => ?_)
    cases value with
    | none => rfl
    | some d =>
      cases d with
      | array items =>
        cases how with
        | contains =>
          simp only [ArrayMatch.holds, Literal.toList_canonical, List.all_map]
          rw [Bool.eq_iff_iff, List.all_eq_true, List.all_eq_true]
          refine forall₂_congr fun w hw => ?_
          have hsame : (items.any fun d => Literal.equals d w.canonical) =
              items.any fun d => Literal.equals d w :=
            any_eq_of_mem fun d _ => Literal.equals_canonical (hmember w hw) d
          exact Iff.of_eq (congrArg (· = true) hsame)
        | containedBy | overlaps => simp only [ArrayMatch.holds, Literal.toList_canonical, hequals]
      | _ => rfl
  | part p | length => rfl

end Condition

/-! ## Leaves -/

/-- The order of tests that must all be passed does not count. -/
lemma allOf?_eq_of_perm {α : Type} {tests tests' : List (α → Bool)} (h : tests.Perm tests') :
    allOf? tests = allOf? tests' := by
  cases tests with
  | nil => rw [h.nil_eq]
  | cons test tests =>
    cases tests' with
    | nil => exact absurd h.eq_nil (List.cons_ne_nil _ _)
    | cons test' tests' => exact congrArg some (funext fun a => h.all_eq)

namespace Leaf

variable {d : Document} {family : OperatorFamily} {kind : FieldKind} {now : Instant}

lemma entries_ofDocument_object {ms : List (String × Document)} (h : (Entries.keys ms).Nodup) :
    (ofDocument (.object ms)).operators.entries =
      ms.map fun m => (m.1, Literal.ofDocument m.2) := by
  refine OrderedMap.entries_ofList ?_
  rw [Entries.keys, List.map_map]
  exact h

lemma entries_ofDocument_of_not_isObject (h : ¬d.isObject) :
    (ofDocument d).operators.entries = [("eq", Literal.ofDocument d)] := by
  have hone : (OrderedMap.ofList [("eq", Literal.ofDocument d)]).entries =
      [("eq", Literal.ofDocument d)] := OrderedMap.entries_ofList (List.nodup_singleton _)
  cases d with
  | object ms => exact absurd rfl h
  | _ => exact hone

/-- The canonical document has the same operators in some order, with canonical operands. -/
lemma perm_operators_canonical (h : d.WellFormed) :
    (ofDocument d.canonical).operators.entries.Perm
      ((ofDocument d).operators.entries.map fun e => (e.1, e.2.canonical)) := by
  by_cases hobject : d.isObject
  · cases d with
    | object ms =>
      have hperm := Document.perm_canonical ms
      have hkeys : (Entries.keys (Document.sortMembers (Document.canonicalMembers ms))).Nodup := by
        refine (hperm.map Prod.fst).nodup_iff.mpr ?_
        rw [List.map_map]
        exact h.1
      rw [Document.canonical, entries_ofDocument_object hkeys, entries_ofDocument_object h.1]
      refine (hperm.map _).trans (.of_eq ?_)
      rw [List.map_map, List.map_map]
      exact List.map_congr_left fun m _ =>
        congrArg (Prod.mk m.1) (Literal.ofDocument_canonical m.2)
    | _ => simp [Document.isObject] at hobject
  · have hcanonical : ¬d.canonical.isObject := by
      cases d with
      | object ms => exact absurd rfl hobject
      | _ => exact Bool.false_ne_true
    rw [entries_ofDocument_of_not_isObject hcanonical, entries_ofDocument_of_not_isObject hobject,
      Literal.ofDocument_canonical]
    exact .refl _

lemma perm_conditions_canonical (h : d.WellFormed) (family : OperatorFamily) :
    ((ofDocument d.canonical).conditions family).Perm
      (((ofDocument d).conditions family).map Condition.canonical) := by
  refine ((perm_operators_canonical h).filterMap _).trans (.of_eq ?_)
  rw [conditions, List.filterMap_map, List.map_filterMap]
  refine congrArg (List.filterMap · _) (funext fun e => ?_)
  exact Condition.ofOperator?_canonical family e.1 e.2

lemma wellFormed_of_mem_operators (h : d.WellFormed) :
    ∀ e ∈ (ofDocument d).operators.entries, e.2.WellFormed := by
  by_cases hobject : d.isObject
  · cases d with
    | object ms =>
      rw [entries_ofDocument_object h.1, List.forall_mem_map]
      exact fun m hm =>
        Literal.wellFormed_ofDocument (Document.membersWellFormed_iff.mp h.2 m hm)
    | _ => simp [Document.isObject] at hobject
  · rw [entries_ofDocument_of_not_isObject hobject, List.forall_mem_singleton]
    exact Literal.wellFormed_ofDocument h

lemma wellFormed_of_mem_conditions (h : d.WellFormed) :
    ∀ cond ∈ (ofDocument d).conditions family, cond.operand.WellFormed := by
  intro cond hcond
  obtain ⟨⟨name, v⟩, hv, hof⟩ := List.mem_filterMap.mp hcond
  obtain ⟨-, -, hshaped⟩ := Condition.ofOperator?_eq_some hof
  exact OperatorFamily.wellFormed_of_shaped? (wellFormed_of_mem_operators h _ hv) hshaped

/-- Tests that do not tell a condition from its canonical form. -/
lemma allOf?_conditions_canonical (h : d.WellFormed) {test? : Condition → Option ValueTest}
    (htest : ∀ cond, cond.operand.WellFormed → test? cond.canonical = test? cond) :
    allOf? (((ofDocument d.canonical).conditions family).filterMap test?) =
      allOf? (((ofDocument d).conditions family).filterMap test?) := by
  refine allOf?_eq_of_perm (((perm_conditions_canonical h family).filterMap test?).trans
    (.of_eq ?_))
  rw [List.filterMap_map]
  exact List.filterMap_congr fun cond hcond =>
    htest cond (wellFormed_of_mem_conditions h cond hcond)

lemma numericTest?_canonical (h : d.WellFormed) (now : Instant) :
    (ofDocument d.canonical).numericTest? now = (ofDocument d).numericTest? now :=
  allOf?_conditions_canonical h fun _ hcond => Condition.simpleTest?_canonical hcond .int now

end Leaf

namespace Condition

variable {cond : Condition}

lemma integerTest?_canonical {v : Literal} (h : v.WellFormed) (now : Instant) :
    integerTest? now v.canonical = integerTest? now v := by
  cases v with
  | document d => exact Leaf.numericTest?_canonical h now
  | _ => rfl

lemma test?_canonical (h : cond.operand.WellFormed) (stored : Bool) (kind : FieldKind)
    (now : Instant) : cond.canonical.test? stored kind now = cond.test? stored kind now := by
  have hsimple := simpleTest?_canonical h kind now
  have hinfo : cond.canonical.info = cond.info := rfl
  have hreading : cond.canonical.reading? kind = cond.reading? kind := rfl
  have hinteger : integerTest? now cond.canonical.operand = integerTest? now cond.operand :=
    integerTest?_canonical h now
  simp only [test?, hinfo, hreading, hinteger, hsimple]

end Condition

/-- **A leaf tests the same in canonical form.** -/
theorem Leaf.test?_canonical {d : Document} (h : d.WellFormed) (stored : Bool) (kind : FieldKind)
    (now : Instant) :
    (Leaf.ofDocument d.canonical).test? stored kind now =
      (Leaf.ofDocument d).test? stored kind now :=
  Leaf.allOf?_conditions_canonical h fun _ hcond => Condition.test?_canonical hcond stored kind now

end EntityFilter
