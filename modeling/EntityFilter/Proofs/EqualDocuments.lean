import EntityFilter.Proofs.CanonicalLeaves
import EntityFilter.Proofs.Counting
import EntityFilter.Proofs.LeafAnswers

/-!
# Fields that equal a document

Two documents are equal if they have the same structure and equal numbers, texts and truth values
in the same places; the order of members does not count (`Document.Equal`).  `Document.same` decides
this for documents without repeated keys (`Document.same_iff_equal`).

A field that holds documents can be asked to equal an array or an object.  An object is kept as it
is when it becomes an operand.  An array is turned into a list of literals first and back into an
array when it is compared, and on this way an integer without 64 signed bits becomes a double,
unless it stands inside an object.  No document has a double in the place of an integer and is still
equal, so the operator is equality exactly for operands without such integers
(`Leaf.equality_exact_iff`).
-/

namespace EntityFilter

namespace Document

/-! ## Equality -/

/-- Two documents are equal: items in order, members by their keys, numbers by their value.  An
integer and a double are different numbers. -/
inductive Equal : Document → Document → Prop
  | null : Equal null null
  | bool (b : Bool) : Equal (bool b) (bool b)
  | int (i : Int) : Equal (int i) (int i)
  | float {x y : Float} (hvalue : Binary64.orderKey x = Binary64.orderKey y) :
    Equal (float x) (float y)
  | text (s : String) : Equal (text s) (text s)
  | array {as bs : List Document} (hlength : as.length = bs.length)
    (hitems : ∀ (i : Nat) (ha : i < as.length) (hb : i < bs.length), Equal as[i] bs[i]) :
    Equal (array as) (array bs)
  | object {as bs : List (String × Document)}
    (hkeys : ∀ key, Entries.contains key as = Entries.contains key bs)
    (hmembers : ∀ key a b, Entries.get? key as = some a → Entries.get? key bs = some b →
      Equal a b) :
    Equal (object as) (object bs)

variable {a b d w x : Document} {as bs items : List Document} {ms ns : List (String × Document)}

lemma sameItems_iff :
    sameItems as bs ↔ as.length = bs.length ∧
      ∀ (i : Nat) (ha : i < as.length) (hb : i < bs.length), as[i].same bs[i] := by
  induction as generalizing bs with
  | nil => cases bs <;> simp [sameItems]
  | cons a as ih =>
    cases bs with
    | nil => simp [sameItems]
    | cons b bs =>
      rw [sameItems, Bool.and_eq_true, ih]
      constructor
      · rintro ⟨hfirst, hlength, hrest⟩
        refine ⟨congrArg (· + 1) hlength, fun i ha hb => ?_⟩
        cases i with
        | zero => exact hfirst
        | succ i => exact hrest i (Nat.lt_of_succ_lt_succ ha) (Nat.lt_of_succ_lt_succ hb)
      · rintro ⟨hlength, hall⟩
        exact ⟨hall 0 (Nat.zero_lt_succ _) (Nat.zero_lt_succ _), Nat.succ.inj hlength,
          fun i ha hb => hall (i + 1) (Nat.succ_lt_succ ha) (Nat.succ_lt_succ hb)⟩

/-- Two objects with equally many members have the same keys if the keys of the first are keys of
the second. -/
lemma contains_eq_of_subset (hms : (Entries.keys ms).Nodup) (hlength : ms.length = ns.length)
    (hsubset : Entries.keys ms ⊆ Entries.keys ns) (key : String) :
    Entries.contains key ms = Entries.contains key ns := by
  have hperm : (Entries.keys ms).Perm (Entries.keys ns) := by
    refine (List.subperm_of_subset hms hsubset).perm_of_length_le ?_
    rw [Entries.keys, Entries.keys, List.length_map, List.length_map]
    exact Nat.le_of_eq hlength.symm
  rw [Bool.eq_iff_iff, Entries.contains_iff_mem_keys, Entries.contains_iff_mem_keys, hperm.mem_iff]

lemma length_eq_of_contains_eq (hms : (Entries.keys ms).Nodup) (hns : (Entries.keys ns).Nodup)
    (hkeys : ∀ key, Entries.contains key ms = Entries.contains key ns) : ms.length = ns.length := by
  have hperm : (Entries.keys ms).Perm (Entries.keys ns) := by
    refine (List.perm_ext_iff_of_nodup hms hns).mpr fun key => ?_
    rw [← Entries.contains_iff_mem_keys, ← Entries.contains_iff_mem_keys, hkeys]
  simpa [Entries.keys] using hperm.length_eq

/-- Objects without repeated keys are compared key by key. -/
lemma same_object_iff (hms : (Entries.keys ms).Nodup) (hns : (Entries.keys ns).Nodup) :
    (object ms).same (object ns) ↔
      (∀ key, Entries.contains key ms = Entries.contains key ns) ∧
        ∀ key x y, Entries.get? key ms = some x → Entries.get? key ns = some y → x.same y := by
  rw [same, Bool.and_eq_true, beq_iff_eq, sameMembers_iff]
  constructor
  · rintro ⟨hlength, hmembers⟩
    have hsubset : Entries.keys ms ⊆ Entries.keys ns := by
      intro key hkey
      obtain ⟨m, hm, rfl⟩ := List.mem_map.mp hkey
      obtain ⟨y, hy, -⟩ := hmembers m hm
      exact Entries.contains_iff_mem_keys.mp (Option.isSome_iff_exists.mpr ⟨y, hy⟩)
    refine ⟨contains_eq_of_subset hms hlength hsubset, fun key x y hx hy => ?_⟩
    obtain ⟨y', hy', hsame⟩ := hmembers _ (Entries.mem_of_get? hx)
    obtain rfl : y = y' := Option.some.inj (hy.symm.trans hy')
    exact hsame
  · rintro ⟨hkeys, hmembers⟩
    refine ⟨length_eq_of_contains_eq hms hns hkeys, fun m hm => ?_⟩
    have hx : Entries.get? m.1 ms = some m.2 := Entries.get?_of_mem hms hm
    have hkey : (Entries.get? m.1 ns).isSome := by
      have hcontains := hkeys m.1
      rw [Entries.contains, hx] at hcontains
      exact hcontains.symm
    obtain ⟨y, hy⟩ := Option.isSome_iff_exists.mp hkey
    exact ⟨y, hy, hmembers m.1 m.2 y hx hy⟩

lemma equal_array_iff : (array as).Equal (array bs) ↔ as.length = bs.length ∧
    ∀ (i : Nat) (ha : i < as.length) (hb : i < bs.length), as[i].Equal bs[i] := by
  constructor
  · intro h
    cases h with
    | array hlength hitems => exact ⟨hlength, hitems⟩
  · rintro ⟨hlength, hitems⟩
    exact .array hlength hitems

lemma equal_object_iff : (object ms).Equal (object ns) ↔
    (∀ key, Entries.contains key ms = Entries.contains key ns) ∧
      ∀ key x y, Entries.get? key ms = some x → Entries.get? key ns = some y → x.Equal y := by
  constructor
  · intro h
    cases h with
    | object hkeys hmembers => exact ⟨hkeys, hmembers⟩
  · rintro ⟨hkeys, hmembers⟩
    exact .object hkeys hmembers

lemma same_iff_equal_of_isScalar (ha : a.isScalar) : a.same b ↔ a.Equal b := by
  constructor
  · intro h
    cases a with
    | array | object => simp [isScalar] at ha
    | null =>
      cases b with
      | null => exact .null
      | _ => simp [same] at h
    | bool x =>
      cases b with
      | bool y => exact beq_iff_eq.mp h ▸ .bool x
      | _ => simp [same] at h
    | int x =>
      cases b with
      | int y => exact beq_iff_eq.mp h ▸ .int x
      | _ => simp [same] at h
    | float x =>
      cases b with
      | float y => exact .float (beq_iff_eq.mp h)
      | _ => simp [same] at h
    | text x =>
      cases b with
      | text y => exact beq_iff_eq.mp h ▸ .text x
      | _ => simp [same] at h
  · intro h
    cases h with
    | array | object => simp [isScalar] at ha
    | float hvalue => exact beq_iff_eq.mpr hvalue
    | _ => simp [same]

/-- **Deciding equality.**  Documents without repeated keys are equal exactly if the comparison of
their members and items says so. -/
theorem same_iff_equal (ha : a.WellFormed) (hb : b.WellFormed) : a.same b ↔ a.Equal b := by
  induction a using of_parts generalizing b with
  | scalar a hscalar => exact same_iff_equal_of_isScalar hscalar
  | array as ih =>
    cases b with
    | array bs =>
      have hitem : ∀ (i : Nat) (hi : i < as.length) (hj : i < bs.length),
          as[i].same bs[i] ↔ as[i].Equal bs[i] := fun i hi hj =>
        ih _ (List.getElem_mem hi) (itemsWellFormed_iff.mp ha _ (List.getElem_mem hi))
          (itemsWellFormed_iff.mp hb _ (List.getElem_mem hj))
      rw [same, sameItems_iff, equal_array_iff]
      simp only [hitem]
    | _ => exact ⟨fun h => by simp [same] at h, nofun⟩
  | object ms ih =>
    cases b with
    | object ns =>
      have hmember : ∀ key x y, Entries.get? key ms = some x → Entries.get? key ns = some y →
          (x.same y ↔ x.Equal y) := fun key x y hx hy =>
        ih _ (Entries.mem_of_get? hx) (membersWellFormed_iff.mp ha.2 _ (Entries.mem_of_get? hx))
          (membersWellFormed_iff.mp hb.2 _ (Entries.mem_of_get? hy))
      rw [same_object_iff ha.1 hb.1, equal_object_iff]
      refine and_congr_right fun _ => ⟨fun h key x y hx hy => ?_, fun h key x y hx hy => ?_⟩
      · exact (hmember key x y hx hy).mp (h key x y hx hy)
      · exact (hmember key x y hx hy).mpr (h key x y hx hy)
    | _ => exact ⟨fun h => by simp [same] at h, nofun⟩

lemma Equal.refl (h : d.WellFormed) : d.Equal d := (same_iff_equal h h).mp (same_refl d h)

/-! ## Arrays that become lists and arrays again -/

/-- The document stands in the other one, and no object is around it. -/
inductive StandsInLists : Document → Document → Prop
  | self (d : Document) : StandsInLists d d
  | item {x d : Document} {items : List Document} (hd : d ∈ items) (hx : StandsInLists x d) :
    StandsInLists x (array items)

lemma standsInLists_array : StandsInLists x (array items) ↔
    x = array items ∨ ∃ d ∈ items, StandsInLists x d := by
  constructor
  · intro h
    cases h with
    | self => exact .inl rfl
    | item hd hx => exact .inr ⟨_, hd, hx⟩
  · rintro (rfl | ⟨d, hd, hx⟩)
    · exact .self _
    · exact .item hd hx

lemma standsInLists_int {i : Int} : StandsInLists x (int i) ↔ x = int i :=
  ⟨fun h => by cases h; rfl, fun h => h ▸ .self _⟩

lemma standsInLists_object : StandsInLists x (object ms) ↔ x = object ms :=
  ⟨fun h => by cases h; rfl, fun h => h ▸ .self _⟩

/-- What an operand is compared as. -/
def asOperand (d : Document) : Document := (Literal.ofDocument d).toDocument

lemma asOperand_array (items : List Document) :
    (array items).asOperand = array (items.map asOperand) := by
  rw [asOperand, Literal.ofDocument, Literal.toDocument, Literal.ofDocuments_eq_map,
    Literal.toDocuments_eq_map, List.map_map]
  rfl

lemma wellFormed_asOperand (h : d.WellFormed) : d.asOperand.WellFormed :=
  Literal.wellFormed_ofDocument h

/-- The doubles of a document, those inside of objects aside, are finite, as written numbers are. -/
def HasFiniteDoubles (d : Document) : Prop :=
  ∀ x, StandsInLists (float x) d → Binary64.isFinite x

/-- The integers of a document, those inside of objects aside, have 64 signed bits. -/
def HasSignedIntegers (d : Document) : Prop :=
  ∀ i, StandsInLists (int i) d → (int i).isInt64

lemma asOperand_int_of_isInt64 {i : Int} (h : (int i).isInt64) : (int i).asOperand = int i := by
  rw [asOperand, Literal.ofDocument_int h]
  rfl

lemma asOperand_eq_self (hfinite : d.HasFiniteDoubles) (hsigned : d.HasSignedIntegers) :
    d.asOperand = d := by
  induction d using of_parts with
  | scalar d hscalar =>
    cases d with
    | array | object => simp [isScalar] at hscalar
    | int i => exact asOperand_int_of_isInt64 (hsigned i (.self _))
    | float x =>
      show ofFloat x = float x
      rw [ofFloat, if_pos (hfinite x (.self _))]
    | _ => rfl
  | array items ih =>
    rw [asOperand_array]
    have hitems : ∀ d ∈ items, d.asOperand = id d := fun d hd =>
      ih d hd (fun x hx => hfinite x (.item hd hx)) fun i hi => hsigned i (.item hd hi)
    rw [List.map_congr_left hitems, List.map_id]
  | object ms => rfl

lemma isInt64_of_equal_asOperand {i : Int} (h : (int i).Equal (int i).asOperand) :
    (int i).isInt64 := by
  by_contra hbig
  have hfloat : (int i).asOperand = ofFloat (Binary64.ofInt i) := by
    rw [asOperand, Literal.ofDocument, if_neg (by simpa [isInt64] using hbig)]
    rfl
  rw [hfloat, ofFloat] at h
  split at h <;> cases h

/-- If an array equals its operand, then so do its items. -/
lemma equal_asOperand_of_standsInLists (hx : StandsInLists x d) (h : d.Equal d.asOperand) :
    x.Equal x.asOperand := by
  induction hx with
  | self => exact h
  | item hd _ ih =>
    rw [asOperand_array] at h
    obtain ⟨k, hk, rfl⟩ := List.getElem_of_mem hd
    have hitem := (equal_array_iff.mp h).2 k hk (by simpa using hk)
    rw [List.getElem_map] at hitem
    exact ih hitem

/-- An integer without 64 signed bits is nothing that a document and its operand have in common. -/
lemma hasSignedIntegers_of_equal_asOperand (h : d.Equal d.asOperand) : d.HasSignedIntegers :=
  fun _ hi => isInt64_of_equal_asOperand (equal_asOperand_of_standsInLists hi h)

end Document

namespace Leaf

open Document

variable {d w row : Document} {now : Instant} {path : FieldPath}

/-- **What a field of documents is compared with**, as the answer of a leaf. -/
lemma answer?_eq_document (h : d.isScalar = false) :
    (single "eq" (.ofDocument d)).answer? .json now path row =
      some ((row.fieldValue? path).any (·.same d.asOperand)) := by
  obtain ⟨info, hinfo, hcompare, hshape⟩ : ∃ info,
      FieldKind.json.family.operator? "eq" = some info ∧
        info.operator = .compare .eq ∧ info.shape = .value := ⟨_, rfl, rfl, rfl⟩
  have hshaped : FieldKind.json.family.shaped? info.shape (.ofDocument d) =
      some (.document d.asOperand) := by
    rw [hshape]
    cases d with
    | array items => rfl
    | object ms => rfl
    | _ => simp [isScalar] at h
  have htest : (Condition.mk info (.document d.asOperand)).simpleTest? .json now =
      some ((Literal.document d.asOperand).admits .eq) := by
    simp only [Condition.simpleTest?, hcompare]
    rfl
  rw [answer?_of_simpleTest? hinfo hshaped (by rw [hcompare]; rfl) htest, Literal.admits]
  cases row.fieldValue? path with
  | none => rfl
  | some w => cases hsame : w.same d.asOperand <;> simp [Literal.orderOf?, hsame, CompareOp.holds]

/-- A field that holds a document is compared with the operand, also if it holds null. -/
lemma answer?_eq_of_readField? (h : d.isScalar = false) (hrow : row.readField? path = some w) :
    (single "eq" (.ofDocument d)).answer? .json now path row = some (w.same d.asOperand) := by
  have hfind : (Operand.field path).find? (.ofRow row) = some w := hrow
  have hnull : null.same d.asOperand = false := by
    cases d with
    | array | object => rfl
    | _ => simp [isScalar] at h
  rw [answer?_eq_document h, fieldValue?, Operand.value?, hfind]
  cases w with
  | null => rw [hnull]; rfl
  | _ => rfl

/-- **When the operator is equality of documents.**  The leaf has an answer for each row whose field
holds a document, and it is whether that document equals the operand as it is compared.  The operand
itself is what all documents are compared with exactly if it has no integer outside of objects that
needs more than 64 signed bits. -/
theorem equality_exact_iff (h : d.isScalar = false) (hwell : d.WellFormed)
    (hfinite : d.HasFiniteDoubles) (now : Instant) (path : FieldPath) :
    (∀ row w : Document, w.WellFormed → row.readField? path = some w →
      ∃ answer, (single "eq" (.ofDocument d)).answer? .json now path row = some answer ∧
        (answer ↔ w.Equal d.asOperand)) ∧
    ((∀ row w : Document, w.WellFormed → row.readField? path = some w →
      ((single "eq" (.ofDocument d)).answer? .json now path row = some true ↔ w.Equal d)) ↔
        d.HasSignedIntegers) := by
  have hanswer : ∀ row w : Document, w.WellFormed → row.readField? path = some w →
      ∃ answer, (single "eq" (.ofDocument d)).answer? .json now path row = some answer ∧
        (answer ↔ w.Equal d.asOperand) := fun row w hw hrow =>
    ⟨_, answer?_eq_of_readField? h hrow, same_iff_equal hw (wellFormed_asOperand hwell)⟩
  refine ⟨hanswer, fun hexact => ?_, fun hsigned row w hw hrow => ?_⟩
  · -- the operand itself stands in some field
    obtain ⟨row, hrow⟩ := exists_readField? path d
    obtain ⟨answer, hsome, hequal⟩ := hanswer row d hwell hrow
    have htrue : some answer = some true :=
      hsome.symm.trans ((hexact row d hwell hrow).mpr (.refl hwell))
    exact hasSignedIntegers_of_equal_asOperand (hequal.mp (Option.some.inj htrue))
  · obtain ⟨answer, hsome, hequal⟩ := hanswer row w hw hrow
    rw [hsome, Option.some.injEq, hequal, asOperand_eq_self hfinite hsigned]

/-- An integer that needs 64 unsigned bits does no harm inside an object. -/
theorem equality_exact_iff_nested :
    let d := Document.array [.int 1, .object [("serial", .int 18446744073709551615)]]
    (d.isScalar = false ∧ d.WellFormed ∧ d.HasFiniteDoubles) ∧
      (single "eq" (.ofDocument d)).answer? .json ⟨0, 0⟩ (.single "data")
        (.object [("data", d)]) = some true := by
  intro d
  have hwell : d.WellFormed := by
    simp [d, WellFormed, ItemsWellFormed, MembersWellFormed, Entries.keys]
  have hfinite : d.HasFiniteDoubles := by
    simp [d, HasFiniteDoubles, standsInLists_array, standsInLists_int, standsInLists_object]
  have hsigned : d.HasSignedIntegers := by
    simp [d, HasSignedIntegers, standsInLists_array, standsInLists_int, standsInLists_object,
      isInt64, Binary64.minInt64, Binary64.maxInt64]
  have hexact :=
    (equality_exact_iff (d := d) rfl hwell hfinite ⟨0, 0⟩ (.single "data")).2.mpr hsigned
  exact ⟨⟨rfl, hwell, hfinite⟩,
    (hexact (.object [("data", d)]) d hwell rfl).mpr (.refl hwell)⟩

/-- An integer that needs 64 unsigned bits is not equal to itself in a list. -/
theorem equality_not_always_exact :
    ¬∀ (d w row : Document) (now : Instant) (path : FieldPath), d.isScalar = false →
      d.WellFormed → d.HasFiniteDoubles → w.WellFormed → row.readField? path = some w →
      ((single "eq" (.ofDocument d)).answer? .json now path row = some true ↔ w.Equal d) := by
  intro h
  have hwell : (Document.array [.int 18446744073709551615]).WellFormed := by
    simp [WellFormed, ItemsWellFormed]
  have hfinite : (Document.array [.int 18446744073709551615]).HasFiniteDoubles := by
    simp [HasFiniteDoubles, standsInLists_array, standsInLists_int]
  have hlost := (h _ _ (.object [("data", .array [.int 18446744073709551615])]) ⟨0, 0⟩
    (.single "data") rfl hwell hfinite hwell rfl).mpr (.refl hwell)
  exact absurd hlost (by decide)

end Leaf

end EntityFilter
