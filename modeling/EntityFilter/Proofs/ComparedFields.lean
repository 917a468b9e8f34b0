import EntityFilter.Proofs.Counting
import EntityFilter.Proofs.LeafAnswers
import EntityFilter.Proofs.WrittenDates
import Mathlib

/-!
# Fields that are compared

A field can be compared with a value, by a leaf, or with another field of the same row.  The leaf
turns its operand into a date or an instant if the field holds these, and then the value too; the
comparison of two fields takes the documents as they are.

For texts, numbers, truth values and identifiers this makes no difference: comparing with a field is
comparing with its value.  For dates and instants it does.  The leaf follows the order in time, the
comparison of fields the order of the texts, and the two agree if the texts are in one notation
(`Compiler.comparison_agrees`).  They disagree already where two instants are written with two
offsets (`Compiler.comparison_disagrees`).

That the bits of a double are those that it is made from rests on the library's lemmas about packed
floats, which no part of Mathlib brings along but the whole.
-/

namespace EntityFilter

/-! ## Numbers

An integer that does not fit into 64 signed bits is a double as a literal and an integer as a
document.  It has the same place among the doubles either way. -/

namespace Binary64

variable {n : Nat} {i : Int}

open Float.Model in
/-- Bits whose exponent field is not the greatest are those of a number. -/
lemma toBits_ofBits {bits : UInt64} (h : bits.toNat / fractions % 2048 ≠ 2047) :
    (Float.ofBits bits).toBits = bits := by
  let encoded : BitVec Format.binary64.numBits := bits.toBitVec
  have hnumber : UnpackedFloat.isNaNBits encoded = false := by
    unfold UnpackedFloat.isNaNBits
    rw [decide_eq_false_iff_not]
    rintro ⟨hall, -⟩
    have hfield := congrArg BitVec.toNat hall
    simp only [encoded, UnpackedFloat.unpackExponent, Format.binary64, BitVec.extractLsb,
      BitVec.toNat_cast, BitVec.extractLsb'_toNat, UInt64.toNat_toBitVec] at hfield
    rw [Nat.shiftRight_eq_div_pow] at hfield
    exact h hfield
  have hpack := UnpackedFloat.pack_unpack encoded
  rw [hnumber] at hpack
  exact UInt64.toBitVec_inj.mp hpack

/-- The magnitude of a 64-bit integer leaves the greatest exponent field to what is no number. -/
lemma magnitudeOfNat_lt_infinity (h : n < 2 ^ 64) : magnitudeOfNat n < 2047 * fractions := by
  rcases Nat.eq_zero_or_pos n with rfl | hn
  · decide
  have hlog : n.log2 < 64 := (Nat.log2_lt (by omega)).mpr h
  calc magnitudeOfNat n ≤ (n.log2 + 1024) * fractions := (magnitudeOfNat_bounds (by omega)).2
    _ < 2047 * fractions := Nat.mul_lt_mul_of_pos_right (by omega) (by decide)

/-- **The double nearest to an integer** has the place of the integer. -/
theorem orderKey_ofInt (h : i.natAbs < 2 ^ 64) : orderKey (ofInt i) = keyOfInt i := by
  have hsign : signBit = 2048 * fractions := rfl
  have hsize : fractions = 2 ^ 52 := rfl
  have hmagnitude := magnitudeOfNat_lt_infinity h
  have hkey : ∀ sign, sign = 0 ∨ sign = signBit →
      (Float.ofBits (UInt64.ofNat (sign + magnitudeOfNat i.natAbs))).toBits.toNat =
        sign + magnitudeOfNat i.natAbs := by
    intro sign hcases
    have hbits : (UInt64.ofNat (sign + magnitudeOfNat i.natAbs)).toNat =
        sign + magnitudeOfNat i.natAbs := by
      rw [UInt64.toNat_ofNat', Nat.mod_eq_of_lt]
      omega
    have hfield : (UInt64.ofNat (sign + magnitudeOfNat i.natAbs)).toNat / fractions % 2048 ≠
        2047 := by
      rw [hbits, hsize]
      omega
    rw [toBits_ofBits hfield, hbits]
  unfold orderKey ofInt keyOfInt
  split
  · next hneg =>
    rw [hkey signBit (.inr rfl), if_neg (by omega), Nat.add_sub_cancel_left]
  · next hpos =>
    rw [hkey 0 (.inl rfl), if_pos (by omega), Nat.zero_add]

end Binary64

/-- Whether a document is a text, a truth value or a number.  The integers among the documents have
64 bits, with a sign or without. -/
def Document.isComparable : Document → Bool
  | text _ | bool _ | float _ => true
  | int i => Binary64.minInt64 ≤ i ∧ i ≤ Binary64.maxUInt64
  | _ => false

namespace Literal

variable {x y d : Document} {v w : Literal}

/-- A number keeps its place as a literal, also if it becomes a double. -/
lemma numberKey?_ofDocument (hd : d.isComparable) : (ofDocument d).numberKey? = d.numberKey? := by
  cases d with
  | int i =>
    simp only [Document.isComparable, decide_eq_true_eq] at hd
    have hbits : i.natAbs < 2 ^ 64 := by
      simp only [Binary64.minInt64, Binary64.maxUInt64] at hd
      omega
    rw [ofDocument]
    split
    · rfl
    · exact congrArg some (Binary64.orderKey_ofInt hbits)
  | null | array items | object members => simp [Document.isComparable] at hd
  | _ => rfl

lemma compareSame?_of_isNumeric (hv : v.isNumeric) :
    w.compareSame? v = match w.numberKey?, v.numberKey? with
      | some a, some b => some (compare a b)
      | _, _ => none := by
  cases v with
  | int | float => cases w <;> rfl
  | _ => simp [isNumeric] at hv

lemma isNull_ofDocument (hd : d.isComparable) : (ofDocument d).isNull = false := by
  cases d with
  | int i =>
    rw [ofDocument]
    split <;> rfl
  | null | array items | object members => simp [Document.isComparable] at hd
  | _ => rfl

/-- **A document is ordered against another** as against the literal that it writes. -/
lemma orderOf?_ofDocument (hx : x.isComparable) (hy : y.isComparable) :
    orderOf? x (ofDocument y) = x.compare? y := by
  have hnumber : ∀ v : Literal, v.isNumeric → v.numberKey? = y.numberKey? →
      orderOf? x v = match x.numberKey?, y.numberKey? with
        | some a, some b => some (compare a b)
        | _, _ => none := by
    intro v hv hkey
    have hsame : orderOf? x v = (ofDocument x).compareSame? v := by
      cases v with
      | int | float => rfl
      | _ => simp [isNumeric] at hv
    rw [hsame, compareSame?_of_isNumeric hv, numberKey?_ofDocument hx, hkey]
  cases y with
  | int i =>
    rw [hnumber _ (by rw [isNumeric_ofDocument _ (.int 0) rfl]; rfl) (numberKey?_ofDocument hy)]
    cases x <;> rfl
  | float z =>
    rw [ofDocument, hnumber _ rfl rfl]
    cases x <;> rfl
  | text s =>
    cases x with
    | int i =>
      rw [ofDocument, orderOf?, ofDocument]
      split <;> rfl
      all_goals simp
    | _ => rfl
  | bool z =>
    cases x with
    | int i =>
      rw [ofDocument, orderOf?, ofDocument]
      split <;> rfl
      all_goals simp
    | _ => rfl
  | _ => simp [Document.isComparable] at hy

end Literal

/-! ## Values of a field -/

namespace FieldKind

/-- Whether a document is written as the values of a kind are. -/
def isValue (kind : FieldKind) (d : Document) : Bool :=
  match kind.family, d with
  | .text, .text _ => true
  | .numeric, .int _ | .numeric, .float _ => d.isComparable
  | .boolean, .bool _ => true
  | .temporal, .text s => (Literal.instantOfText? s).isSome
  | .identifier, .int _ => d.isInt64
  | .identifier, .text _ => true
  | _, _ => false

lemma isArray_eq_false {kind : FieldKind} (h : kind.family ≠ .array) : kind.isArray = false := by
  cases kind with
  | array element => exact absurd rfl h
  | _ => rfl

lemma isSome_of_isValue {kind : FieldKind} {t : String} (hkind : kind.isTemporal)
    (h : kind.isValue (.text t)) : (Literal.instantOfText? t).isSome := by
  cases kind with
  | date | dateTime => exact h
  | _ => simp [isTemporal] at hkind

/-- The order in time of what two texts write: of dates, or of instants. -/
def timeOrder? (kind : FieldKind) (t u : String) : Option Ordering :=
  match kind with
  | .date => (Literal.dateOfText? t).bind fun a => (Literal.dateOfText? u).map (compare a)
  | _ => (Literal.instantOfText? t).bind fun a => (Literal.instantOfText? u).map (compare a)

/-- Values in one notation: both are dates, with four, two and two digits, or both are instants with
such dates, clocks with two digits for hour, minute and second, and the same fraction and offset. -/
inductive InOneNotation : FieldKind → Document → Document → Prop
  | dates (kind : FieldKind) (t u : DateText) :
    InOneNotation kind (.text t.text) (.text u.text)
  | instants (t u : InstantText) (rest : String) :
    InOneNotation .dateTime (.text (t.text rest)) (.text (u.text rest))

variable {kind : FieldKind} {d x y : Document} {t u : String}

lemma InOneNotation.texts (h : kind.InOneNotation x y) : ∃ t u, x = .text t ∧ y = .text u := by
  cases h with
  | dates kind t u => exact ⟨_, _, rfl, rfl⟩
  | instants t u rest => exact ⟨_, _, rfl, rfl⟩

lemma isComparable_of_isValue (h : kind.isValue d) : d.isComparable := by
  cases d with
  | int i =>
    unfold isValue at h
    split at h <;> try contradiction
    · exact h
    · simp only [Document.isInt64, Bool.and_eq_true, decide_eq_true_eq] at h
      simp only [Document.isComparable, decide_eq_true_eq]
      simp only [Binary64.minInt64, Binary64.maxInt64, Binary64.maxUInt64] at h ⊢
      omega
  | null | array items | object members => simp [isValue] at h
  | _ => rfl

lemma fits_ofDocument_of_isValue (h : kind.isValue d) : kind.family.fits (.ofDocument d) := by
  unfold isValue at h
  split at h
  · next hfamily => rw [hfamily]; rfl
  · next hfamily => rw [hfamily, Literal.ofDocument]; split <;> rfl
  · next hfamily => rw [hfamily]; rfl
  · next hfamily => rw [hfamily]; rfl
  · next hfamily => rw [hfamily]; rfl
  · next hfamily => rw [hfamily, Literal.ofDocument_int h]; rfl
  · next hfamily => rw [hfamily]; rfl
  · contradiction

/-- What writes an instant writes a date, and the other way around. -/
lemma isSome_dateOfText? (t : String) :
    (Literal.dateOfText? t).isSome = (Literal.instantOfText? t).isSome := by
  unfold Literal.dateOfText? Literal.instantOfText?
  cases Date.read? t <;> cases Instant.read? t <;> rfl

/-- **A leaf on dates or instants follows the order in time.** -/
lemma orderOf?_coerce (hkind : kind.isTemporal) (ht : (Literal.instantOfText? t).isSome)
    (hu : (Literal.instantOfText? u).isSome) :
    ∃ order, kind.timeOrder? t u = some order ∧
      Literal.orderOf? (.text t) (kind.coerce (.text u)) = some order := by
  cases kind with
  | date =>
    rw [← isSome_dateOfText?] at ht hu
    obtain ⟨a, ha⟩ := Option.isSome_iff_exists.mp ht
    obtain ⟨b, hb⟩ := Option.isSome_iff_exists.mp hu
    refine ⟨compare a b, by simp [timeOrder?, ha, hb], ?_⟩
    simp [coerce, Literal.coerceDate, Literal.orderOf?, Literal.ofDocument, Literal.compareSame?,
      ha, hb]
  | dateTime =>
    obtain ⟨a, ha⟩ := Option.isSome_iff_exists.mp ht
    obtain ⟨b, hb⟩ := Option.isSome_iff_exists.mp hu
    refine ⟨compare a b, by simp [timeOrder?, ha, hb], ?_⟩
    simp [coerce, Literal.coerceInstant, Literal.orderOf?, Literal.ofDocument,
      Literal.compareSame?, ha, hb]
  | _ => simp [isTemporal] at hkind

end FieldKind

/-! ## One notation -/

lemma DateText.dateOfText?_text (t : DateText) : Literal.dateOfText? t.text = t.date? := by
  rw [Literal.dateOfText?, t.date_read?_text, t.instant_read?_text]
  cases t.date? <;> rfl

lemma DateText.instantOfText?_text (t : DateText) :
    Literal.instantOfText? t.text = t.date?.map .midnight := by
  rw [Literal.instantOfText?, t.date_read?_text, t.instant_read?_text]

lemma InstantText.instantOfText?_text (t : InstantText) (rest : String) :
    Literal.instantOfText? (t.text rest) = Instant.read? (t.text rest) := by
  have hchars : (t.text rest).toList = t.date.chars ++ 'T' :: (t.clock.chars ++ rest.toList) := by
    simp [text, chars]
  have hdate : Date.read? (t.text rest) = none := by
    rw [Date.read?, hchars, DateText.date?_append]
    cases t.date.date? <;> rfl
  rw [Literal.instantOfText?, hdate]
  cases Instant.read? (t.text rest) <;> rfl

lemma Instant.compare_midnight (a b : Date) : compare (midnight a) (midnight b) = compare a b := by
  have hday : compare (a.day * daySeconds) (b.day * daySeconds) = compare a.day b.day := by
    unfold daySeconds
    exact compare_eq_compare (by omega) (by omega) (by omega)
  show (compare (a.day * daySeconds) (b.day * daySeconds)).then (compare 0 0) =
    compare a.day b.day
  rw [hday]
  exact Ordering.then_eq

/-- **In one notation** the order in time is that of the texts. -/
lemma FieldKind.timeOrder?_eq_compareText {kind : FieldKind} {t u : String}
    (halike : kind.InOneNotation (.text t) (.text u)) (ht : (Literal.instantOfText? t).isSome)
    (hu : (Literal.instantOfText? u).isSome) :
    kind.timeOrder? t u = some (Document.compareText t u) := by
  cases halike with
  | dates kind t u =>
    rw [DateText.instantOfText?_text, Option.isSome_map] at ht hu
    obtain ⟨a, ha⟩ := Option.isSome_iff_exists.mp ht
    obtain ⟨b, hb⟩ := Option.isSome_iff_exists.mp hu
    rw [DateText.compareText_eq ha hb]
    unfold timeOrder?
    split
    · simp [DateText.dateOfText?_text, ha, hb]
    · simp [DateText.instantOfText?_text, ha, hb, Instant.compare_midnight]
  | instants t u rest =>
    rw [InstantText.instantOfText?_text] at ht hu
    obtain ⟨i, hi⟩ := Option.isSome_iff_exists.mp ht
    obtain ⟨j, hj⟩ := Option.isSome_iff_exists.mp hu
    rw [InstantText.compareText_eq hi hj]
    simp [timeOrder?, InstantText.instantOfText?_text, hi, hj]

/-! ## The agreement -/

lemma OperatorFamily.of_isComparableWith {p q : OperatorFamily} (h : p.isComparableWith q) :
    p = q ∧ p ≠ .array := by
  simp only [isComparableWith, Bool.and_eq_true, decide_eq_true_eq] at h
  exact ⟨h.1.1, h.2⟩

/-- How the comparison of two fields agrees with the leaf on the first field that compares it with
the value of the second one. -/
structure ComparisonAgrees (kind : FieldKind) (op : CompareOp) (x y : Document)
    (compared leaf : Bool) : Prop where
  /-- Apart from dates and instants there is no difference. -/
  settled : kind.isTemporal = false → compared = leaf
  /-- The leaf follows the order in time, the comparison that of the texts. -/
  temporal : ∀ t u, kind.isTemporal → x = .text t → y = .text u →
    ∃ order, kind.timeOrder? t u = some order ∧ leaf = op.holds order ∧
      compared = op.holds (Document.compareText t u)
  /-- In one notation there is no difference. -/
  alike : kind.InOneNotation x y → compared = leaf

namespace Compiler

variable {c : Compiler} {s : Scope} {a b : String} {f g : Field} {row x y : Document}
  {op : CompareOp}

/-- **Comparing with a field and comparing with its value.** -/
theorem comparison_agrees (hf : s.entity.field? a = some f) (hg : s.entity.field? b = some g)
    (hfamily : f.kind.family.isComparableWith g.kind.family)
    (hop : (f.kind.family.operator? op.name).isSome)
    (hx : row.fieldValue? (s.fieldPath a) = some x) (hy : row.fieldValue? (s.fieldPath b) = some y)
    (hxvalue : f.kind.isValue x) (hyvalue : g.kind.isValue y) :
    ∃ compared leaf, comparisonAnswer? s ⟨a, op, b⟩ row = some compared ∧
      c.fieldAnswer? s a (.ofDocument (.object [(op.name, y)])) row = some leaf ∧
      ComparisonAgrees f.kind op x y compared leaf := by
  obtain ⟨hsame, harray⟩ := OperatorFamily.of_isComparableWith hfamily
  have hkind : f.kind.isArray = false := FieldKind.isArray_eq_false harray
  have hvalue : f.kind.isValue y := by
    unfold FieldKind.isValue at hyvalue ⊢
    rwa [hsame]
  have hleaf : c.fieldAnswer? s a (.ofDocument (.object [(op.name, y)])) row =
      some ((f.kind.coerce (.ofDocument y)).admits op (some x)) := by
    rw [fieldAnswer?_eq hf hkind, ← hx]
    exact Leaf.answer?_compare op hop (FieldKind.fits_ofDocument_of_isValue hvalue)
      (Literal.isNull_ofDocument (FieldKind.isComparable_of_isValue hvalue))
  refine ⟨_, _, comparisonAnswer?_eq op hf hg hfamily hx hy, hleaf, ?_⟩
  have htemporal : ∀ t u, f.kind.isTemporal → x = .text t → y = .text u →
      ∃ order, f.kind.timeOrder? t u = some order ∧
        (f.kind.coerce (.ofDocument y)).admits op (some x) = op.holds order ∧
        (x.compare? y).any op.holds = op.holds (Document.compareText t u) := by
    rintro t u hkind rfl rfl
    obtain ⟨order, htime, horder⟩ := FieldKind.orderOf?_coerce hkind
      (FieldKind.isSome_of_isValue hkind hxvalue) (FieldKind.isSome_of_isValue hkind hvalue)
    refine ⟨order, htime, ?_, rfl⟩
    rw [Literal.admits, Option.bind_some, Literal.ofDocument, horder, Option.any_some]
  have hsettled : f.kind.isTemporal = false →
      (x.compare? y).any op.holds = (f.kind.coerce (.ofDocument y)).admits op (some x) := by
    intro hkind
    rw [FieldKind.coerce_of_not_isTemporal hkind, Literal.admits, Option.bind_some,
      Literal.orderOf?_ofDocument (FieldKind.isComparable_of_isValue hxvalue)
        (FieldKind.isComparable_of_isValue hvalue)]
  refine ⟨hsettled, htemporal, fun halike => ?_⟩
  by_cases hkind : f.kind.isTemporal
  · obtain ⟨t, u, rfl, rfl⟩ := halike.texts
    obtain ⟨order, htime, hfollows, hcompared⟩ := htemporal t u hkind rfl rfl
    have horder := FieldKind.timeOrder?_eq_compareText halike
      (FieldKind.isSome_of_isValue hkind hxvalue) (FieldKind.isSome_of_isValue hkind hvalue)
    rw [hcompared, hfollows, Option.some.inj (htime.symm.trans horder)]
  · exact hsettled (Bool.eq_false_iff.mpr hkind)

end Compiler

namespace Agenda

/-- A meeting has a time at which it begins and one at which it ends. -/
def meeting : Entity :=
  (Entity.withField { name := "Meeting" } { name := "begins", kind := .dateTime }).withField
    { name := "ends", kind := .dateTime }

def scope : Scope := { entity := meeting }

def compiler : Compiler :=
  { catalog := Catalog.withEntity {} meeting
    settings := {}
    now := ⟨0, 0⟩ }

/-- A quarter past nine. -/
def begin : InstantText where
  date := ⟨['2', '0', '2', '4'], ['0', '3'], ['1', '0'], .of_all rfl rfl, .of_all rfl rfl,
    .of_all rfl rfl⟩
  clock := ⟨['0', '9'], ['1', '5'], ['0', '0'], .of_all rfl rfl, .of_all rfl rfl, .of_all rfl rfl⟩

/-- Half past nine on the same day. -/
def finish : InstantText where
  date := begin.date
  clock := ⟨['0', '9'], ['3', '0'], ['0', '0'], .of_all rfl rfl, .of_all rfl rfl, .of_all rfl rfl⟩

/-- A row with a time for either field. -/
def row (x y : String) : Document := .object [("begins", .text x), ("ends", .text y)]

end Agenda

namespace Compiler

theorem comparison_agrees_meeting :
    comparisonAnswer? Agenda.scope ⟨"begins", .lt, "ends"⟩
        (Agenda.row (Agenda.begin.text "Z") (Agenda.finish.text "Z")) =
      Agenda.compiler.fieldAnswer? Agenda.scope "begins"
        (.ofDocument (.object [("lt", .text (Agenda.finish.text "Z"))]))
        (Agenda.row (Agenda.begin.text "Z") (Agenda.finish.text "Z")) := by
  obtain ⟨compared, leaf, hcompared, hleaf, hagrees⟩ := @comparison_agrees Agenda.compiler
    Agenda.scope "begins" "ends" _ _ (Agenda.row (Agenda.begin.text "Z") (Agenda.finish.text "Z"))
    _ _ .lt rfl rfl rfl rfl rfl rfl (by decide) (by decide)
  have hsame := hagrees.alike (.instants Agenda.begin Agenda.finish "Z")
  exact hcompared.trans (hsame ▸ hleaf.symm)

/-- Nine o'clock two hours east of Greenwich is before eight o'clock at Greenwich. -/
theorem comparison_disagrees :
    ¬∀ (c : Compiler) (s : Scope) (a b : String) (f g : Field) (op : CompareOp)
      (row x y : Document), s.entity.field? a = some f → s.entity.field? b = some g →
      f.kind.family.isComparableWith g.kind.family →
      (f.kind.family.operator? op.name).isSome →
      row.fieldValue? (s.fieldPath a) = some x → row.fieldValue? (s.fieldPath b) = some y →
      f.kind.isValue x → g.kind.isValue y →
      comparisonAnswer? s ⟨a, op, b⟩ row =
        c.fieldAnswer? s a (.ofDocument (.object [(op.name, y)])) row := by
  intro h
  have hagree := h Agenda.compiler Agenda.scope "begins" "ends" _ _ .lt
    (Agenda.row "2024-03-10T09:00:00+02:00" "2024-03-10T08:00:00Z") _ _ rfl rfl rfl rfl rfl rfl
    (by decide) (by decide)
  exact absurd hagree (by decide)

end Compiler

end EntityFilter
