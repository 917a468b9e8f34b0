import EntityFilter.OrderKey
import Mathlib.Data.String.Basic

/-!
# Signs of ordering keys

A text writes an ordering key in one of three ways: with a minus sign, with a plus sign, or as the
bare name of the field, which then must not begin with a sign itself (`OrderKey.Spells`).  A key is
written back with a minus sign or bare.

The plus sign is dropped when a key is written back.  Nothing is lost by that, unless the name
behind it begins with a sign: bare, this sign is taken for the direction.  So a key reads back
exactly if its text does not begin with a plus sign and another sign behind it
(`OrderKey.read?_write_eq_some_iff`).  The key that `+-price` writes, the field `-price` in
ascending order, comes back as `price` in descending order (`OrderKey.not_read?_write`).
-/

namespace EntityFilter.OrderKey

variable {s field : String} {k : OrderKey}

/-- Whether a text begins with a sign. -/
def isSigned (s : String) : Bool := Text.startsWith s "-" || Text.startsWith s "+"

/-- How a text writes a key. -/
inductive Spells : String → OrderKey → Prop
  | minus {field : String} (hfield : field ≠ "") : Spells ("-" ++ field) ⟨field, true⟩
  | plus {field : String} (hfield : field ≠ "") : Spells ("+" ++ field) ⟨field, false⟩
  | bare {field : String} (hfield : field ≠ "") (hsign : isSigned field = false) :
    Spells field ⟨field, false⟩

/-! ## What a text writes -/

lemma eq_minus_iff : s = "-" ++ field ↔ s.toList = '-' :: field.toList := by
  rw [← String.toList_inj, String.toList_append]
  rfl

lemma eq_plus_iff : s = "+" ++ field ↔ s.toList = '+' :: field.toList := by
  rw [← String.toList_inj, String.toList_append]
  rfl

lemma isSigned_iff : isSigned s ↔ ∃ field, s = "-" ++ field ∨ s = "+" ++ field := by
  simp only [isSigned, Text.startsWith, Bool.or_eq_true, List.isPrefixOf_iff_prefix, eq_minus_iff,
    eq_plus_iff]
  constructor
  · rintro (⟨cs, hcs⟩ | ⟨cs, hcs⟩)
    · exact ⟨.ofList cs, .inl (by simp [← hcs])⟩
    · exact ⟨.ofList cs, .inr (by simp [← hcs])⟩
  · rintro ⟨field, hs | hs⟩
    · exact .inl ⟨field.toList, hs.symm⟩
    · exact .inr ⟨field.toList, hs.symm⟩

lemma read?_minus (field : String) :
    read? ("-" ++ field) = if field = "" then none else some ⟨field, true⟩ := by
  rw [read?, eq_minus_iff.mp rfl, ofChars?]
  simp

lemma read?_plus (field : String) :
    read? ("+" ++ field) = if field = "" then none else some ⟨field, false⟩ := by
  rw [read?, eq_plus_iff.mp rfl, ofChars?]
  simp

lemma read?_bare (hsign : isSigned field = false) :
    read? field = if field = "" then none else some ⟨field, false⟩ := by
  rw [← Bool.not_eq_true, isSigned_iff] at hsign
  rw [read?, ofChars?.eq_def]
  split
  · next rest hs =>
    exact absurd ⟨.ofList rest, .inl (eq_minus_iff.mpr (by simpa using hs))⟩ hsign
  · next rest hs =>
    exact absurd ⟨.ofList rest, .inr (eq_plus_iff.mpr (by simpa using hs))⟩ hsign
  · simp

/-- A text is read as the key that it writes, and a text that writes no key is not read. -/
theorem read?_eq_some_iff : read? s = some k ↔ Spells s k := by
  constructor
  · intro h
    by_cases hsign : isSigned s
    · obtain ⟨field, rfl | rfl⟩ := isSigned_iff.mp hsign
      · rw [read?_minus, Option.ite_none_left_eq_some, Option.some.injEq] at h
        obtain ⟨hfield, rfl⟩ := h
        exact .minus hfield
      · rw [read?_plus, Option.ite_none_left_eq_some, Option.some.injEq] at h
        obtain ⟨hfield, rfl⟩ := h
        exact .plus hfield
    · rw [Bool.not_eq_true] at hsign
      rw [read?_bare hsign, Option.ite_none_left_eq_some, Option.some.injEq] at h
      obtain ⟨hs, rfl⟩ := h
      exact .bare hs hsign
  · rintro (hfield | hfield | ⟨hfield, hsign⟩)
    · rw [read?_minus, if_neg hfield]
    · rw [read?_plus, if_neg hfield]
    · rw [read?_bare hsign, if_neg hfield]

/-! ## What a key is written as -/

lemma Spells.field_ne (h : Spells s k) : k.field ≠ "" := by
  cases h <;> assumption

/-- A bare name is read as the key in ascending order exactly if it has no sign: the name behind a
plus sign is shorter than the name with it. -/
lemma read?_eq_ascending_iff :
    read? field = some ⟨field, false⟩ ↔ field ≠ "" ∧ isSigned field = false := by
  cases hsign : isSigned field with
  | false => simp [read?_bare hsign]
  | true =>
    obtain ⟨rest, rfl | rfl⟩ := isSigned_iff.mp hsign
    · simp [read?_minus]
    · have hshorter : rest ≠ "+" ++ rest := by
        intro h
        simpa using congrArg String.length h
      simp [read?_plus, hshorter]

/-- The keys that are read from what they are written as. -/
theorem read?_write_iff :
    read? k.write = some k ↔ k.field ≠ "" ∧ (k.descending ∨ isSigned k.field = false) := by
  obtain ⟨field, descending⟩ := k
  cases descending with
  | true =>
    rw [write, if_pos rfl, read?_minus]
    simp
  | false =>
    rw [write, if_neg Bool.false_ne_true, read?_eq_ascending_iff]
    simp

lemma startsWith_signs_iff :
    (Text.startsWith s "+-" ∨ Text.startsWith s "++") ↔
      ∃ field, s = "+" ++ field ∧ isSigned field := by
  simp only [Text.startsWith, List.isPrefixOf_iff_prefix, eq_plus_iff]
  constructor
  · rintro (⟨cs, hcs⟩ | ⟨cs, hcs⟩)
    · exact ⟨"-" ++ .ofList cs, by simp [← hcs], isSigned_iff.mpr ⟨_, .inl rfl⟩⟩
    · exact ⟨"+" ++ .ofList cs, by simp [← hcs], isSigned_iff.mpr ⟨_, .inr rfl⟩⟩
  · rintro ⟨field, hs, hsign⟩
    obtain ⟨rest, rfl | rfl⟩ := isSigned_iff.mp hsign
    · exact .inl ⟨rest.toList, by simp [hs]⟩
    · exact .inr ⟨rest.toList, by simp [hs]⟩

/-- The direction and the name that a text gives, by the two characters at its beginning. -/
lemma Spells.startsWith_signs_iff (h : Spells s k) :
    (Text.startsWith s "+-" ∨ Text.startsWith s "++") ↔
      k.descending = false ∧ isSigned k.field := by
  rw [OrderKey.startsWith_signs_iff]
  cases h with
  | minus => simp [eq_plus_iff]
  | plus => simp only [String.append_right_inj, exists_eq_left', true_and]
  | bare _ hsign =>
    rw [hsign]
    constructor
    · rintro ⟨rest, rfl, -⟩
      exact absurd (isSigned_iff.mpr ⟨rest, .inr rfl⟩) (by simp [hsign])
    · rintro ⟨-, ⟨⟩⟩

/-- **When a key reads back.**  A key in descending order always does, and one in ascending order
does if the name of its field does not begin with a sign.  In terms of the text: unless a plus sign
and another sign behind it stand at its beginning. -/
theorem read?_write_eq_some_iff (h : read? s = some k) :
    (read? k.write = some k ↔ k.descending ∨ isSigned k.field = false) ∧
    (read? k.write = some k ↔ ¬(Text.startsWith s "+-" ∨ Text.startsWith s "++")) := by
  have hspells := read?_eq_some_iff.mp h
  have hback : read? k.write = some k ↔ k.descending ∨ isSigned k.field = false := by
    rw [read?_write_iff, and_iff_right hspells.field_ne]
  refine ⟨hback, ?_⟩
  rw [hback, hspells.startsWith_signs_iff, not_and, Bool.not_eq_true]
  cases k.descending <;> simp

/-- Signs inside of a name and behind a minus sign do not matter. -/
theorem read?_write_eq_some_iff_signs :
    read? "+created-at" = some ⟨"created-at", false⟩ ∧
      read? (write ⟨"created-at", false⟩) = some ⟨"created-at", false⟩ ∧
      read? "-+price" = some ⟨"+price", true⟩ ∧
      read? (write ⟨"+price", true⟩) = some ⟨"+price", true⟩ := by
  have hinside : read? "+created-at" = some ⟨"created-at", false⟩ := by decide
  have hbehind : read? "-+price" = some ⟨"+price", true⟩ := by decide
  exact ⟨hinside, (read?_write_eq_some_iff hinside).2.mpr (by decide), hbehind,
    (read?_write_eq_some_iff hbehind).1.mpr (.inl rfl)⟩

/-- `+-price` writes the field `-price` in ascending order, and what this key is written as writes
`price` in descending order. -/
theorem not_read?_write :
    ¬∀ (s : String) (k : OrderKey), read? s = some k → read? k.write = some k := by
  intro h
  have hback := h "+-price" ⟨"-price", false⟩ (by decide)
  have hprice : read? (write ⟨"-price", false⟩) = some ⟨"price", true⟩ := by decide
  rw [hprice] at hback
  exact absurd hback (by decide)

end EntityFilter.OrderKey
