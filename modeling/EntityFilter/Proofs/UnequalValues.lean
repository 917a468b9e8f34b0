import EntityFilter.Proofs.MissingValues

/-!
# Values that are not equal

That a value is not equal to a literal can be asked in two ways, by `neq` and by `not_in` with a
list of one.  The first orders the value against the literal and wants it to be less or greater; the
second wants it not to be equal.  They differ where there is no order, which is between values of
different sorts: a text is neither less than 5 nor greater, so `neq` with 5 passes over it, and it
is not in a list of 5, so `not_in` does not.  Identifiers may be numbers and texts side by side.

A literal orders the values of its own sort and no others (`Literal.isSome_orderOf?`).  Hence the
two leaves agree on a row exactly if it lacks the value or has one of the sort of the literal; where
they do not agree, it is `neq` that does not hold (`Leaf.neq_agrees_iff`).
-/

namespace EntityFilter

/-- The families that ask for what is not among some values. -/
def OperatorFamily.hasMembership : OperatorFamily → Bool
  | text | numeric | identifier => true
  | _ => false

/-! ## Sorts -/

namespace Literal

variable {v : Literal} {d : Document} {family : OperatorFamily}

/-- Whether a document is a text, as the literal is, or a number, as the literal is. -/
def isLike (v : Literal) (d : Document) : Bool :=
  match v, d with
  | text _, .text _ => true
  | int _, .int _ | int _, .float _ | float _, .int _ | float _, .float _ => true
  | _, _ => false

/-- A single value of these families is a text or a number. -/
lemma sort_of_fits (hfamily : family.hasMembership) (hv : family.fits v) :
    (∃ s, v = text s) ∨ (∃ i, v = int i) ∨ ∃ x, v = float x := by
  cases v with
  | text s => exact .inl ⟨s, rfl⟩
  | int i => exact .inr (.inl ⟨i, rfl⟩)
  | float x => exact .inr (.inr ⟨x, rfl⟩)
  | _ => cases family <;> simp [OperatorFamily.hasMembership, OperatorFamily.fits] at hfamily hv

lemma isSome_compareSame?_text (a : Literal) (s : String) :
    (a.compareSame? (text s)).isSome = a.asText?.isSome := by
  cases a <;> rfl

lemma isSome_compareSame?_number (a v : Literal) (hv : v.isNumeric) :
    (a.compareSame? v).isSome = a.isNumeric := by
  cases v with
  | int | float => cases a <;> rfl
  | _ => simp [isNumeric] at hv

lemma isSome_asText?_ofDocument (d : Document) (s : String) :
    (ofDocument d).asText?.isSome = (text s).isLike d := by
  cases d with
  | int i =>
    rw [ofDocument]
    split <;> rfl
  | _ => rfl

lemma isNumeric_ofDocument (d : Document) (v : Literal) (hv : v.isNumeric) :
    (ofDocument d).isNumeric = v.isLike d := by
  cases v with
  | int | float =>
    cases d with
    | int i =>
      rw [ofDocument]
      split <;> rfl
    | _ => rfl
  | _ => simp [isNumeric] at hv

/-- **A text orders texts and a number orders numbers**, and neither orders anything else. -/
lemma isSome_orderOf? (hfamily : family.hasMembership) (hv : family.fits v) :
    (orderOf? d v).isSome = v.isLike d := by
  rcases sort_of_fits hfamily hv with ⟨s, rfl⟩ | ⟨i, rfl⟩ | ⟨x, rfl⟩
  · show ((ofDocument d).compareSame? (text s)).isSome = _
    rw [isSome_compareSame?_text, isSome_asText?_ofDocument d s]
  · show ((ofDocument d).compareSame? (int i)).isSome = _
    rw [isSome_compareSame?_number _ (int i) rfl, isNumeric_ofDocument d (int i) rfl]
  · show ((ofDocument d).compareSame? (float x)).isSome = _
    rw [isSome_compareSame?_number _ (float x) rfl, isNumeric_ofDocument d (float x) rfl]

end Literal

/-! ## The two leaves -/

namespace OperatorFamily

variable {family : OperatorFamily} {v : Literal}

/-- The two operators, in the families that have both. -/
lemma unequal_operators (hfamily : family.hasMembership) :
    (∃ info, family.operator? "neq" = some info ∧
      info.operator = .compare .neq ∧ info.shape = .value) ∧
    ∃ info, family.operator? "not_in" = some info ∧
      info.operator = .member true ∧ info.shape = .list := by
  cases family with
  | text | numeric | identifier => exact ⟨⟨_, rfl, rfl, rfl⟩, ⟨_, rfl, rfl, rfl⟩⟩
  | _ => simp [hasMembership] at hfamily

/-- A single value is taken by either. -/
lemma fits_shaped? (hfamily : family.hasMembership) (hv : family.fits v) :
    family.shaped? .value v = some v ∧ family.shaped? .list (.list [v]) = some (.list [v]) := by
  constructor
  · rcases Literal.sort_of_fits hfamily hv with ⟨s, rfl⟩ | ⟨i, rfl⟩ | ⟨x, rfl⟩ <;>
      simp [shaped?, hv]
  · simp [shaped?, Literal.toList, hv]

end OperatorFamily

/-- Where a value and a literal have an order, not to be equal is to be less or greater; where they
have none, the value is not equal, and neither less nor greater. -/
lemma Predicate.unequal_agree (ctx : RowContext) (o : Operand) (v : Literal) :
    ((compare o .neq v).holds ctx = true → (member o [v] true).holds ctx = true) ∧
      ((compare o .neq v).holds ctx = (member o [v] true).holds ctx ↔
        ∀ d, o.value? ctx = some d → (Literal.orderOf? d v).isSome) := by
  simp only [holds]
  cases hvalue : o.value? ctx with
  | none => simp
  | some d =>
    cases horder : Literal.orderOf? d v with
    | none => simp [Literal.equals, horder]
    | some ordering => cases ordering <;> simp [Literal.equals, horder, CompareOp.holds]

/-- Outside of dates and instants nothing is coerced. -/
lemma Condition.coerced_of_hasMembership {kind : FieldKind} (h : kind.family.hasMembership)
    (cond : Condition) : cond.coerced kind = cond.operand := by
  cases kind with
  | date | dateTime => simp [FieldKind.family, OperatorFamily.hasMembership] at h
  | _ => rfl

namespace Leaf

variable {path : FieldPath} {kind : FieldKind} {now : Instant} {v operand shaped : Literal}
  {row : Document} {o : Operand} {info : OperatorInfo} {p : Predicate} {name : String}

/-- The leaf of one operator. -/
def single (operator : String) (operand : Literal) : Leaf := ⟨.ofList [(operator, operand)]⟩

/-- The predicate of the leaf of one operator is that of its condition. -/
lemma predicate?_single (hinfo : kind.family.operator? name = some info)
    (hshaped : kind.family.shaped? info.shape operand = some shaped)
    (hp : (Condition.mk info shaped).predicate? o kind now = some p) :
    (single name operand).predicate? o kind now = Predicate.and? [p] := by
  have hof : Condition.ofOperator? kind.family name operand = some ⟨info, shaped⟩ := by
    simp [Condition.ofOperator?, hinfo, hshaped]
  have hconds : (single name operand).conditions kind.family = [⟨info, shaped⟩] := by
    show List.filterMap _ [(name, operand)] = _
    simp only [List.filterMap_cons, List.filterMap_nil, hof]
  simp only [predicate?, hconds, List.filterMap_cons, List.filterMap_nil, hp]

lemma predicate?_neq (hfamily : kind.family.hasMembership) (hv : kind.family.fits v) :
    (single "neq" v).predicate? o kind now = some (.compare o .neq v) := by
  obtain ⟨⟨info, hinfo, hop, hshape⟩, -⟩ := OperatorFamily.unequal_operators hfamily
  obtain ⟨hshaped, -⟩ := OperatorFamily.fits_shaped? hfamily hv
  have hcomparison : Predicate.comparison o .neq v = .compare o .neq v := by
    rcases Literal.sort_of_fits hfamily hv with ⟨s, rfl⟩ | ⟨i, rfl⟩ | ⟨x, rfl⟩ <;> rfl
  have hcond : (Condition.mk info v).predicate? o kind now = some (.compare o .neq v) := by
    simp only [Condition.predicate?, Condition.simplePredicate?, hop,
      Condition.coerced_of_hasMembership hfamily, hcomparison]
  rw [predicate?_single hinfo (by rw [hshape]; exact hshaped) hcond]
  rfl

lemma predicate?_not_in (hfamily : kind.family.hasMembership) (hv : kind.family.fits v) :
    (single "not_in" (.list [v])).predicate? o kind now = some (.member o [v] true) := by
  obtain ⟨-, info, hinfo, hop, hshape⟩ := OperatorFamily.unequal_operators hfamily
  obtain ⟨-, hshaped⟩ := OperatorFamily.fits_shaped? hfamily hv
  have hcond : (Condition.mk info (.list [v])).predicate? o kind now =
      some (.member o [v] true) := by
    simp only [Condition.predicate?, Condition.simplePredicate?, hop,
      Condition.coerced_of_hasMembership hfamily, Literal.toList]
  rw [predicate?_single hinfo (by rw [hshape]; exact hshaped) hcond]
  rfl

/-- **When `neq` and `not_in` agree**: on rows without the value, and on those with a value of the
sort of the literal.  Elsewhere it is `neq` that does not hold. -/
theorem neq_agrees_iff (hfamily : kind.family.hasMembership) (hv : kind.family.fits v) :
    ∃ p q, (single "neq" v).predicate? (.field path) kind now = some p ∧
      (single "not_in" (.list [v])).predicate? (.field path) kind now = some q ∧
      ∀ row : Document, (p.holdsOf row = true → q.holdsOf row = true) ∧
        (p.holdsOf row = q.holdsOf row ↔
          row.Lacks path ∨ ∃ d, row.readField? path = some d ∧ v.isLike d = true) := by
  refine ⟨_, _, predicate?_neq hfamily hv, predicate?_not_in hfamily hv, fun row => ?_⟩
  obtain ⟨hweaker, hagree⟩ := Predicate.unequal_agree (.ofRow row) (.field path) v
  refine ⟨hweaker, hagree.trans ?_⟩
  cases hvalue : (Operand.field path).value? (.ofRow row) with
  | none => simp [Operand.value?_eq_none_iff.mp hvalue]
  | some d =>
    have hlacks : ¬row.Lacks path := by
      rw [← Operand.value?_eq_none_iff, hvalue]
      simp
    simp [hlacks, Operand.readField?_of_value? hvalue, Literal.isSome_orderOf? hfamily hv]

theorem neq_agrees_iff_code :
    FieldKind.id.family.hasMembership ∧ FieldKind.id.family.fits (.int 5) ∧
    ∃ p q, (single "neq" (.int 5)).predicate? (.field (.single "code")) .id ⟨0, 0⟩ = some p ∧
      (single "not_in" (.list [.int 5])).predicate? (.field (.single "code")) .id ⟨0, 0⟩ = some q ∧
      ∀ row : Document, (p.holdsOf row = true → q.holdsOf row = true) ∧
        (p.holdsOf row = q.holdsOf row ↔ row.Lacks (.single "code") ∨
          ∃ d, row.readField? (.single "code") = some d ∧ (Literal.int 5).isLike d = true) :=
  ⟨by decide, by decide, neq_agrees_iff (by decide) (by decide)⟩

/-- A code that is a text is not 5, and `neq` passes over it. -/
theorem neq_overlooks_text :
    ¬∀ (kind : FieldKind) (v : Literal) (path : FieldPath) (now : Instant) (p q : Predicate)
      (row : Document), kind.family.hasMembership → kind.family.fits v →
      (single "neq" v).predicate? (.field path) kind now = some p →
      (single "not_in" (.list [v])).predicate? (.field path) kind now = some q →
      p.holdsOf row = q.holdsOf row := by
  intro h
  have hagree := h .id (.int 5) (.single "code") ⟨0, 0⟩ _ _ (.object [("code", .text "abc")])
    (by decide) (by decide) rfl rfl
  exact absurd hagree (by decide)

end Leaf

end EntityFilter
