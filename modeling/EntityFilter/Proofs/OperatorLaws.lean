import EntityFilter.Proofs.LeafAnswers

/-!
# Laws of the operators

The operators of a leaf can be expressed by each other: a range by its two ends, a weak comparison
by a strict one and equality, the search among several values by equality with each of them.  Each
operator is compiled for itself, with its own way to coerce the operand and to read the value, so
the laws are not there by construction; and they cannot be the usual laws of an order, since a value
and an operand of different sorts have no order.  They hold all the same, because none of the tests
involved is passed without an order, and with one they are the laws of `Ordering`.

`Leaf.operatorLaws` collects them, for every kind, every operand that the operators take, every
present and every row, whatever the row holds in the field.
-/

namespace EntityFilter

/-- How the answers that leaves on a field give for one row hang together. -/
structure OperatorLaws (kind : FieldKind) (answer? : Leaf → Option Bool) (missing : Prop) : Prop where
  /-- A range is its two ends. -/
  between : ∀ low high,
    (Condition.ofOperator? kind.family "between" (.list [low, high])).isSome →
      ∃ b, answer? (.single "between" (.list [low, high])) = some b ∧
        answer? ⟨.ofList [("gte", low), ("lte", high)]⟩ = some b
  /-- To be at least a value is to be greater or equal. -/
  atLeast : ∀ v, (Condition.ofOperator? kind.family "gte" v).isSome →
    ∃ greater equal, answer? (.single "gt" v) = some greater ∧
      answer? (.single "eq" v) = some equal ∧ answer? (.single "gte" v) = some (greater || equal)
  /-- To be at most a value is to be less or equal. -/
  atMost : ∀ v, (Condition.ofOperator? kind.family "lte" v).isSome →
    ∃ less equal, answer? (.single "lt" v) = some less ∧
      answer? (.single "eq" v) = some equal ∧ answer? (.single "lte" v) = some (less || equal)
  /-- To be among some values is to equal one of them. -/
  among : ∀ vs, (Condition.ofOperator? kind.family "in" (.list vs)).isSome →
    (∀ v ∈ vs, (answer? (.single "eq" v)).isSome) ∧
      answer? (.single "in" (.list vs)) =
        some (vs.any fun v => answer? (.single "eq" v) == some true)
  /-- To be among none of them is to be there, and not among them. -/
  amongNone : ∀ vs, (Condition.ofOperator? kind.family "not_in" (.list vs)).isSome →
    ∃ b, answer? (.single "in" (.list vs)) = some b ∧
      (answer? (.single "not_in" (.list vs)) = some true ↔ ¬missing ∧ b = false)
  /-- One value alone stands for the list of it. -/
  alone : ∀ name v, v.asList? = none →
    name ∈ ["in", "not_in"] ∨ kind.isArray ∧ name ∈ ["contains", "contained_by", "overlaps"] →
      answer? (.single name v) = answer? (.single name (.list [v]))
  /-- Several operators are passed if each of them is that says anything. -/
  several : ∀ l : Leaf, answer? l =
    conjoined? (l.operators.entries.filterMap fun x => answer? (.single x.1 x.2))

/-! ## Operands that are taken -/

namespace OperatorFamily

variable {family : OperatorFamily} {name : String} {v low high : Literal} {vs : List Literal}

/-- An operand that is taken has the shape that the table says. -/
lemma exists_row {P : OperatorInfo → Bool} (hrow : (family.operator? name).all P)
    (h : (Condition.ofOperator? family name v).isSome) :
    ∃ info, P info = true ∧ (family.shaped? info.shape v).isSome := by
  obtain ⟨cond, hof⟩ := Option.isSome_iff_exists.mp h
  obtain ⟨info, hinfo, hof⟩ := Option.bind_eq_some_iff.mp hof
  obtain ⟨shaped, hshaped, -⟩ := Option.bind_eq_some_iff.mp hof
  rw [hinfo, Option.all_some] at hrow
  exact ⟨info, hrow, by rw [hshaped]; rfl⟩

/-- The ends of a range are values of an ordered family. -/
lemma fits_of_between (h : (Condition.ofOperator? family "between" (.list [low, high])).isSome) :
    family.isOrdered ∧ family.fits low ∧ family.fits high := by
  have hrow : (family.operator? "between").all fun info =>
      info.shape = .range ∧ family.isOrdered := by
    cases family <;> decide
  obtain ⟨info, hinfo, hshaped⟩ := exists_row hrow h
  obtain ⟨hshape, hfamily⟩ := of_decide_eq_true hinfo
  simp only [hshape, shaped?, Option.isSome_ite, Bool.and_eq_true] at hshaped
  exact ⟨hfamily, hshaped⟩

/-- What an order is asked against is a value of an ordered family. -/
lemma fits_of_ordered (hname : name = "gte" ∨ name = "lte")
    (h : (Condition.ofOperator? family name v).isSome) : family.isOrdered ∧ family.fits v := by
  have hrow : (family.operator? name).all fun info => info.shape = .ordered ∧ family.isOrdered := by
    rcases hname with rfl | rfl <;> cases family <;> decide
  obtain ⟨info, hinfo, hshaped⟩ := exists_row hrow h
  obtain ⟨hshape, hfamily⟩ := of_decide_eq_true hinfo
  simp only [hshape, shaped?, Option.isSome_ite] at hshaped
  exact ⟨hfamily, hshaped⟩

/-- What is searched among is a list of values of a family with such a search. -/
lemma fits_of_member {negated : Bool}
    (h : (Condition.ofOperator? family (memberName negated) (.list vs)).isSome) :
    family.hasMembership ∧ vs.all family.fits := by
  have hrow : (family.operator? (memberName negated)).all fun info =>
      info.shape = .list ∧ family.hasMembership := by
    cases family <;> cases negated <;> decide
  obtain ⟨info, hinfo, hshaped⟩ := exists_row hrow h
  obtain ⟨hshape, hfamily⟩ := of_decide_eq_true hinfo
  rw [hshape] at hshaped
  exact ⟨hfamily, by simpa [shaped?, Literal.toList] using hshaped⟩

/-- Where there is an order or a search among values, there are the comparisons for it. -/
lemma isSome_compare (op : CompareOp)
    (h : family.isOrdered ∨ family.hasMembership ∧ op = .eq) : (family.operator? op.name).isSome := by
  cases family <;> cases op <;> first | rfl | simp [isOrdered, hasMembership] at h

/-- One value and the list of it have the same shape where a list is asked for. -/
lemma ofOperator?_alone (hrow : (family.operator? name).all (·.shape = .list))
    (hv : v.asList? = none) :
    Condition.ofOperator? family name v = Condition.ofOperator? family name (.list [v]) := by
  have hlist : v.toList = [v] := by
    cases v with
    | list items => simp [Literal.asList?] at hv
    | _ => rfl
  unfold Condition.ofOperator?
  cases hinfo : family.operator? name with
  | none => rfl
  | some info =>
    rw [hinfo, Option.all_some, decide_eq_true_eq] at hrow
    have hshaped : family.shaped? .list v = family.shaped? .list (.list [v]) := by
      rw [shaped?, shaped?, hlist, Literal.toList]
    simp only [Option.bind_eq_bind, Option.bind_some, hrow, hshaped]

end OperatorFamily

/-- The operators that take a list, or one value in place of it. -/
lemma FieldKind.takesList {kind : FieldKind} {name : String}
    (h : name ∈ ["in", "not_in"] ∨
      kind.isArray ∧ name ∈ ["contains", "contained_by", "overlaps"]) :
    (kind.family.operator? name).all (·.shape = .list) := by
  have hmember : ∀ family : OperatorFamily, ∀ name ∈ ["in", "not_in"],
      (family.operator? name).all (·.shape = .list) := by
    intro family
    cases family <;> decide
  have harray : ∀ name ∈ ["contains", "contained_by", "overlaps"],
      (OperatorFamily.array.operator? name).all (·.shape = .list) := by decide
  rcases h with hname | ⟨hkind, hname⟩
  · exact hmember kind.family name hname
  · cases kind with
    | array element => exact harray name hname
    | _ => simp [isArray] at hkind

/-! ## The laws -/

/-- A weak comparison is a strict one or equality, with an order or without. -/
lemma Literal.admits_weak (v : Literal) (value : Option Document) :
    v.admits .gte value = (v.admits .gt value || v.admits .eq value) ∧
      v.admits .lte value = (v.admits .lt value || v.admits .eq value) := by
  unfold admits
  cases value.bind fun d => orderOf? d v with
  | none => exact ⟨rfl, rfl⟩
  | some order => cases order <;> exact ⟨rfl, rfl⟩

lemma Literal.any_equals (v : Literal) (value : Option Document) :
    value.any (equals · v) = v.admits .eq value := by
  cases value with
  | none => rfl
  | some d =>
    simp only [Option.any_some, admits, Option.bind_some, equals]
    cases orderOf? d v with
    | none => rfl
    | some order => cases order <;> rfl

namespace Leaf

variable {kind : FieldKind} {now : Instant} {path : FieldPath} {row : Document}
  {v low high : Literal} {vs : List Literal}

lemma answer?_ordered (op : CompareOp) (hfamily : kind.family.isOrdered) (hv : kind.family.fits v) :
    (single op.name v).answer? kind now path row =
      some ((kind.coerce v).admits op (row.fieldValue? path)) :=
  answer?_compare op (OperatorFamily.isSome_compare op (.inl hfamily)) hv
    (OperatorFamily.isNull_of_fits (.inl hfamily) hv)

lemma answer?_bounds (hfamily : kind.family.isOrdered) (hlow : kind.family.fits low)
    (hhigh : kind.family.fits high) :
    answer? ⟨.ofList [("gte", low), ("lte", high)]⟩ kind now path row =
      some ((kind.coerce low).admits .gte (row.fieldValue? path) &&
        (kind.coerce high).admits .lte (row.fieldValue? path)) := by
  have hentries : (OrderedMap.ofList [("gte", low), ("lte", high)]).entries =
      [("gte", low), ("lte", high)] := rfl
  have hgte : (single "gte" low).answer? kind now path row =
      some ((kind.coerce low).admits .gte (row.fieldValue? path)) := answer?_ordered .gte hfamily hlow
  have hlte : (single "lte" high).answer? kind now path row =
      some ((kind.coerce high).admits .lte (row.fieldValue? path)) := answer?_ordered .lte hfamily hhigh
  rw [answer?_eq, hentries]
  simp [hgte, hlte, conjoined?]

lemma answer?_equal (hfamily : kind.family.hasMembership) (hv : kind.family.fits v) :
    (single "eq" v).answer? kind now path row =
      some ((row.fieldValue? path).any (Literal.equals · v)) := by
  have heq : (single "eq" v).answer? kind now path row =
      some ((kind.coerce v).admits .eq (row.fieldValue? path)) :=
    answer?_compare .eq (OperatorFamily.isSome_compare .eq (.inr ⟨hfamily, rfl⟩)) hv
      (OperatorFamily.isNull_of_fits (.inr hfamily) hv)
  rw [heq, FieldKind.coerce_of_not_isTemporal (FieldKind.not_isTemporal_of_hasMembership hfamily),
    Literal.any_equals]

lemma answer?_among (hfamily : kind.family.hasMembership) (hvs : vs.all kind.family.fits) :
    (single "in" (.list vs)).answer? kind now path row =
      some (vs.any fun v => (single "eq" v).answer? kind now path row == some true) := by
  have heach : ∀ v ∈ vs, ((single "eq" v).answer? kind now path row == some true) =
      (row.fieldValue? path).any (Literal.equals · v) := by
    intro v hv
    rw [answer?_equal hfamily (List.all_eq_true.mp hvs v hv)]
    cases (row.fieldValue? path).any (Literal.equals · v) <;> rfl
  have hmember : (single "in" (.list vs)).answer? kind now path row =
      some ((row.fieldValue? path).any fun d => vs.any (Literal.equals d) != false) :=
    answer?_member hfamily hvs false
  rw [hmember, any_eq_of_mem heach]
  cases row.fieldValue? path <;> simp

lemma answer?_amongNone (hfamily : kind.family.hasMembership) (hvs : vs.all kind.family.fits) :
    ∃ b, (single "in" (.list vs)).answer? kind now path row = some b ∧
      ((single "not_in" (.list vs)).answer? kind now path row = some true ↔
        ¬row.Lacks path ∧ b = false) := by
  have hnot : (single "not_in" (.list vs)).answer? kind now path row =
      some ((row.fieldValue? path).any fun d => vs.any (Literal.equals d) != true) :=
    answer?_member hfamily hvs true
  refine ⟨_, answer?_member hfamily hvs false, ?_⟩
  rw [hnot, ← Document.fieldValue?_eq_none_iff]
  cases row.fieldValue? path <;> simp

/-- **The laws of the operators** hold for every kind, present and row. -/
theorem operatorLaws (kind : FieldKind) (now : Instant) (path : FieldPath) (row : Document) :
    OperatorLaws kind (·.answer? kind now path row) (row.Lacks path) where
  between low high h := by
    obtain ⟨hfamily, hlow, hhigh⟩ := OperatorFamily.fits_of_between h
    exact ⟨_, answer?_between hfamily hlow hhigh, answer?_bounds hfamily hlow hhigh⟩
  atLeast v h := by
    obtain ⟨hfamily, hv⟩ := OperatorFamily.fits_of_ordered (.inl rfl) h
    refine ⟨_, _, answer?_ordered .gt hfamily hv, answer?_ordered .eq hfamily hv, ?_⟩
    rw [← ((kind.coerce v).admits_weak _).1]
    exact answer?_ordered .gte hfamily hv
  atMost v h := by
    obtain ⟨hfamily, hv⟩ := OperatorFamily.fits_of_ordered (.inr rfl) h
    refine ⟨_, _, answer?_ordered .lt hfamily hv, answer?_ordered .eq hfamily hv, ?_⟩
    rw [← ((kind.coerce v).admits_weak _).2]
    exact answer?_ordered .lte hfamily hv
  among vs h := by
    obtain ⟨hfamily, hvs⟩ := @OperatorFamily.fits_of_member _ vs false h
    refine ⟨fun v hv => ?_, answer?_among hfamily hvs⟩
    rw [answer?_equal hfamily (List.all_eq_true.mp hvs v hv)]
    rfl
  amongNone vs h := by
    obtain ⟨hfamily, hvs⟩ := @OperatorFamily.fits_of_member _ vs true h
    exact answer?_amongNone hfamily hvs
  alone name v hv hname := by
    rw [answer?_single, answer?_single,
      OperatorFamily.ofOperator?_alone (FieldKind.takesList hname) hv]
  several l := l.answer?_eq kind now path row

/-- A price of 7 in all seven laws: between 5 and 10, against 7 itself, and among 5 and 7. -/
theorem operatorLaws_price :
    let row := Document.object [("price", .int 7)]
    let price := FieldPath.single "price"
    let answer? (l : Leaf) := l.answer? .int ⟨0, 0⟩ price row
    let range : Leaf := ⟨.ofList [("gte", .int 5), ("lte", .int 10)]⟩
    let taken := [("between", .list [.int 5, .int 10]), ("gte", .int 7), ("lte", .int 7),
      ("in", .list [.int 5, .int 7]), ("not_in", .list [.int 5, .int 7])]
    (∀ x ∈ taken, (Condition.ofOperator? FieldKind.int.family x.1 x.2).isSome) ∧
      (∃ b, answer? (.single "between" (.list [.int 5, .int 10])) = some b ∧
        answer? range = some b) ∧
      (∃ greater equal, answer? (.single "gt" (.int 7)) = some greater ∧
        answer? (.single "eq" (.int 7)) = some equal ∧
        answer? (.single "gte" (.int 7)) = some (greater || equal)) ∧
      (∃ less equal, answer? (.single "lt" (.int 7)) = some less ∧
        answer? (.single "eq" (.int 7)) = some equal ∧
        answer? (.single "lte" (.int 7)) = some (less || equal)) ∧
      ((∀ v ∈ [Literal.int 5, .int 7], (answer? (.single "eq" v)).isSome) ∧
        answer? (.single "in" (.list [.int 5, .int 7])) =
          some ([Literal.int 5, .int 7].any fun v => answer? (.single "eq" v) == some true)) ∧
      (∃ b, answer? (.single "in" (.list [.int 5, .int 7])) = some b ∧
        (answer? (.single "not_in" (.list [.int 5, .int 7])) = some true ↔
          ¬row.Lacks price ∧ b = false)) ∧
      answer? (.single "in" (.int 7)) = answer? (.single "in" (.list [.int 7])) ∧
      answer? range =
        conjoined? ([answer? (.single "gte" (.int 5)), answer? (.single "lte" (.int 10))].filterMap
          id) := by
  intro row price answer? range taken
  have laws := operatorLaws .int ⟨0, 0⟩ price row
  exact ⟨by decide, laws.between _ _ rfl, laws.atLeast _ rfl, laws.atMost _ rfl, laws.among _ rfl,
    laws.amongNone _ rfl, laws.alone _ _ rfl (.inl List.mem_cons_self), laws.several range⟩

end Leaf

end EntityFilter
