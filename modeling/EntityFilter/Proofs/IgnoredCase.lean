import EntityFilter.Proofs.LeafAnswers
import Mathlib.Data.List.Infix

/-!
# Texts that are matched in lower case

An operator that ignores case matches the operand in lower case against the text in lower case.
Lower-casing goes character by character, so what stands somewhere in a text stands there in lower
case as well; there is one exception.  A capital sigma becomes a final one at the end of a word, so
its small form depends on the letters around it, and at the edges of the operand these letters
belong to the rest of the text.

Inside of the operand nothing can happen (`Text.Lowercase.piece_eq_of_edges`).  At its end a sigma
becomes final as long as the operand stands alone, and does not if the text goes on with a letter;
at its beginning it is the other way around.  Hence a match can get lost when case is ignored
exactly if the operand ends or begins in this way (`Leaf.keeps_ignoringCase_iff`), as `ΑΣ` does,
which `ΑΣΑ` contains (`Leaf.ignoringCase_loses_match`).
-/

namespace EntityFilter

lemma Text.hasSegment_iff {α : Type} [DecidableEq α] {segment xs : List α} :
    hasSegment segment xs ↔ segment <:+: xs := by
  induction xs with
  | nil => simp [hasSegment]
  | cons x xs ih => rw [hasSegment, Bool.or_eq_true, List.isPrefixOf_iff_prefix, ih,
      List.infix_cons_iff]

namespace Text.Lowercase

variable {before before' behind behind' cs xs ys zs : List Char}

/-! ## Letters around a sigma -/

lemma isIgnored_sigma : isIgnored 'Σ' = false := by decide +kernel

/-- The characters that casing ignores are looked through. -/
lemma meetsCased_append (xs ys : List Char) :
    meetsCased (xs ++ ys) = if xs.all isIgnored then meetsCased ys else meetsCased xs := by
  induction xs with
  | nil => rfl
  | cons c xs ih =>
    cases hc : isIgnored c with
    | true => simpa [meetsCased, hc] using ih
    | false => simp [meetsCased, hc]

lemma meetsCased_of_all_isIgnored (h : cs.all isIgnored) : meetsCased cs = false := by
  have hempty : meetsCased (cs ++ []) = meetsCased [] := by rw [meetsCased_append, if_pos h]
  rw [List.append_nil] at hempty
  exact hempty

/-- Nothing is seen through a sigma. -/
lemma meetsCased_sigma (xs ys : List Char) :
    meetsCased (xs ++ 'Σ' :: ys) = meetsCased (xs ++ ['Σ']) := by
  have hsigma : meetsCased ('Σ' :: ys) = meetsCased ['Σ'] := by
    simp [meetsCased, isIgnored_sigma]
  rw [meetsCased_append, meetsCased_append, hsigma]

/-- Whether a sigma ends a word, given the characters before it, last one first, and behind it. -/
def endsWord (before behind : List Char) : Bool := meetsCased before && !meetsCased behind

/-- The small form of a sigma. -/
def smallSigma (before behind : List Char) : Char := if endsWord before behind then 'ς' else 'σ'

lemma smallSigma_inj :
    smallSigma before behind = smallSigma before' behind' ↔
      endsWord before behind = endsWord before' behind' := by
  unfold smallSigma
  cases endsWord before behind <;> cases endsWord before' behind' <;> decide

/-- The last character that casing does not ignore is a sigma, and a letter stands before it: the
sigma is final unless a letter follows. -/
def endsInSigma (cs : List Char) : Bool :=
  match cs.reverse.dropWhile isIgnored with
  | 'Σ' :: before => meetsCased before
  | _ => false

/-- The first character that casing does not ignore is a sigma, and no letter stands behind it: the
sigma is not final unless a letter precedes. -/
def beginsWithSigma (cs : List Char) : Bool :=
  match cs.dropWhile isIgnored with
  | 'Σ' :: behind => !meetsCased behind
  | _ => false

/-- A list begins with ignored characters and goes on with a sigma. -/
lemma dropWhile_eq_sigma_iff :
    cs.dropWhile isIgnored = 'Σ' :: ys ↔ ∃ xs, xs.all isIgnored ∧ cs = xs ++ 'Σ' :: ys := by
  constructor
  · intro h
    refine ⟨cs.takeWhile isIgnored, List.all_takeWhile, ?_⟩
    rw [← h, List.takeWhile_append_dropWhile]
  · rintro ⟨xs, hxs, rfl⟩
    rw [List.dropWhile_append_of_pos (List.all_eq_true.mp hxs)]
    simp [isIgnored_sigma]

lemma beginsWithSigma_iff :
    beginsWithSigma cs ↔
      ∃ xs ys, cs = xs ++ 'Σ' :: ys ∧ xs.all isIgnored ∧ meetsCased ys = false := by
  constructor
  · intro h
    unfold beginsWithSigma at h
    split at h
    · next ys hys =>
      obtain ⟨xs, hxs, rfl⟩ := dropWhile_eq_sigma_iff.mp hys
      exact ⟨xs, ys, rfl, hxs, by simpa using h⟩
    · contradiction
  · rintro ⟨xs, ys, rfl, hxs, hys⟩
    unfold beginsWithSigma
    rw [dropWhile_eq_sigma_iff.mpr ⟨xs, hxs, rfl⟩]
    simp [hys]

lemma endsInSigma_iff :
    endsInSigma cs ↔
      ∃ xs ys, cs = xs ++ 'Σ' :: ys ∧ ys.all isIgnored ∧ meetsCased xs.reverse := by
  constructor
  · intro h
    unfold endsInSigma at h
    split at h
    · next before hbefore =>
      obtain ⟨ys, hys, hcs⟩ := dropWhile_eq_sigma_iff.mp hbefore
      refine ⟨before.reverse, ys.reverse, ?_, by simpa using hys, by simpa using h⟩
      rw [← List.reverse_reverse cs, hcs]
      simp
    · contradiction
  · rintro ⟨xs, ys, rfl, hys, hxs⟩
    have hdrop : (xs ++ 'Σ' :: ys).reverse.dropWhile isIgnored = 'Σ' :: xs.reverse :=
      dropWhile_eq_sigma_iff.mpr ⟨ys.reverse, by simpa using hys, by simp⟩
    unfold endsInSigma
    rw [hdrop]
    exact hxs

/-! ## Pieces of a text in lower case -/

/-- A character in lower case, given the characters before it, last one first, and behind it. -/
def form (before : List Char) (c : Char) (behind : List Char) : List Char :=
  if c = 'Σ' then [smallSigma before behind]
  else if c = 'İ' then ['i', '\u0307']
  else [single c]

/-- A piece of a text in lower case, given the characters before it, last one first, and behind
it. -/
def piece (before behind : List Char) : List Char → List Char
  | [] => []
  | c :: rest => form before c (rest ++ behind) ++ piece (c :: before) behind rest

lemma chars_eq_piece (before cs : List Char) : chars before cs = piece before [] cs := by
  induction cs generalizing before with
  | nil => rfl
  | cons c rest ih =>
    simp only [chars, piece, form, smallSigma, endsWord, ih, beq_iff_eq, List.append_nil]

lemma toList_lowercase (s : String) : (lowercase s).toList = piece [] [] s.toList := by
  rw [lowercase, String.toList_ofList, chars_eq_piece]

/-- A text in lower case is made of its pieces in lower case. -/
lemma piece_append (before behind xs ys : List Char) :
    piece before behind (xs ++ ys) =
      piece before (ys ++ behind) xs ++ piece (xs.reverse ++ before) behind ys := by
  induction xs generalizing before with
  | nil => rfl
  | cons c xs ih => simp [piece, ih]

lemma length_form (c : Char) :
    (form before c behind).length = (form before' c behind').length := by
  unfold form
  split
  · rfl
  · split <;> rfl

lemma form_eq_iff {c : Char} :
    form before c behind = form before' c behind' ↔
      (c = 'Σ' → endsWord before behind = endsWord before' behind') := by
  by_cases hc : c = 'Σ'
  · simp [form, hc, smallSigma_inj]
  · simp [form, hc]

/-- **A piece is the same in two texts** if each of its sigmas ends a word in both or in none. -/
lemma piece_eq_iff :
    piece before behind cs = piece before' behind' cs ↔
      ∀ xs ys, cs = xs ++ 'Σ' :: ys →
        endsWord (xs.reverse ++ before) (ys ++ behind) =
          endsWord (xs.reverse ++ before') (ys ++ behind') := by
  induction cs generalizing before before' with
  | nil => simp [piece]
  | cons c rest ih =>
    have hsplit : piece before behind (c :: rest) = piece before' behind' (c :: rest) ↔
        form before c (rest ++ behind) = form before' c (rest ++ behind') ∧
          piece (c :: before) behind rest = piece (c :: before') behind' rest :=
      ⟨fun h => List.append_inj h (length_form c), fun ⟨hform, hrest⟩ => by
        rw [piece, piece, hform, hrest]⟩
    rw [hsplit, form_eq_iff, ih]
    constructor
    · rintro ⟨hfirst, hrest⟩ xs ys hcs
      cases xs with
      | nil =>
        obtain ⟨rfl, rfl⟩ := List.cons.inj hcs
        exact hfirst rfl
      | cons x xs =>
        obtain ⟨rfl, rfl⟩ := List.cons.inj hcs
        simpa using hrest xs ys rfl
    · intro h
      refine ⟨?_, fun xs ys hrest => ?_⟩
      · rintro rfl
        exact h [] rest rfl
      · have hsigma := h (c :: xs) ys (by rw [hrest, List.cons_append])
        simpa using hsigma

/-- A piece without sigmas is the same in all texts. -/
lemma piece_of_all_isIgnored (h : cs.all isIgnored) :
    piece before behind cs = piece before' behind' cs := by
  refine piece_eq_iff.mpr fun xs ys hcs => ?_
  rw [hcs] at h
  simp [isIgnored_sigma] at h

/-- What stands behind a sigma does not matter to what stands before it, and the other way
around. -/
lemma piece_sigma (before behind xs ys : List Char) :
    piece before behind (xs ++ 'Σ' :: ys) =
      piece before ['Σ'] xs ++
        smallSigma (xs.reverse ++ before) (ys ++ behind) :: piece ['Σ'] behind ys := by
  have hbefore : piece before ('Σ' :: ys ++ behind) xs = piece before ['Σ'] xs := by
    refine piece_eq_iff.mpr fun us vs _ => ?_
    rw [endsWord, endsWord, List.cons_append, meetsCased_sigma]
  have hbehind : piece ('Σ' :: (xs.reverse ++ before)) behind ys = piece ['Σ'] behind ys := by
    refine piece_eq_iff.mpr fun us vs _ => ?_
    rw [endsWord, endsWord, meetsCased_sigma]
  rw [piece_append, hbefore, piece, hbehind]
  simp [form]

/-! ## Sigmas at the edges -/

/-- **Only at the edges does the rest of the text matter**: a letter before a sigma at the
beginning, or one behind a sigma at the end. -/
lemma piece_eq_of_edges (hbefore : ¬(beginsWithSigma cs ∧ meetsCased before))
    (hbehind : ¬(endsInSigma cs ∧ meetsCased behind)) :
    piece before behind cs = piece [] [] cs := by
  refine piece_eq_iff.mpr fun xs ys hcs => ?_
  simp only [endsWord, meetsCased_append, List.append_nil, List.all_reverse]
  cases hxs : xs.all isIgnored with
  | false =>
    cases hys : ys.all isIgnored with
    | false => rfl
    | true =>
      -- nothing but ignored characters behind the sigma
      cases hletter : meetsCased xs.reverse with
      | false => rfl
      | true =>
        have hend : endsInSigma cs := endsInSigma_iff.mpr ⟨xs, ys, hcs, hys, hletter⟩
        have hnone : meetsCased behind = false := by simpa [hend] using hbehind
        simp [hnone, meetsCased_of_all_isIgnored hys]
  | true =>
    have halone : meetsCased xs.reverse = false :=
      meetsCased_of_all_isIgnored (by rwa [List.all_reverse])
    cases hletter : meetsCased ys with
    | true =>
      have hys : ys.all isIgnored = false := by
        rw [Bool.eq_false_iff]
        intro hall
        simp [meetsCased_of_all_isIgnored hall] at hletter
      simp [halone, hys]
    | false =>
      have hbegin : beginsWithSigma cs := beginsWithSigma_iff.mpr ⟨xs, ys, hcs, hxs, hletter⟩
      have hnone : meetsCased before = false := by simpa [hbegin] using hbefore
      simp [halone, hnone]

/-- A sigma at the end is final, and is no more when the text goes on with a letter. -/
lemma count_lt_of_endsInSigma (h : endsInSigma cs) :
    (piece [] [] (cs ++ ['a'])).count 'ς' < (piece [] [] cs).count 'ς' := by
  obtain ⟨xs, ys, rfl, hys, hxs⟩ := endsInSigma_iff.mp h
  have hletter : meetsCased (ys ++ ['a']) = true := by
    rw [meetsCased_append, if_pos hys]
    rfl
  have halone : smallSigma xs.reverse ys = 'ς' := by
    simp [smallSigma, endsWord, hxs, meetsCased_of_all_isIgnored hys]
  have hwithin : smallSigma xs.reverse (ys ++ ['a']) = 'σ' := by
    simp [smallSigma, endsWord, hletter]
  have hrest : piece ['Σ'] [] (ys ++ ['a']) = piece ['Σ'] [] ys ++ ['a'] := by
    rw [piece_append, piece_of_all_isIgnored hys]
    rfl
  rw [List.append_assoc, List.cons_append, piece_sigma, piece_sigma]
  simp [halone, hwithin, hrest]

/-- A sigma at the beginning is not final, and becomes so when a letter precedes. -/
lemma count_lt_of_beginsWithSigma (h : beginsWithSigma cs) :
    (piece [] [] ('a' :: cs)).count 'σ' < (piece [] [] cs).count 'σ' := by
  obtain ⟨xs, ys, rfl, hxs, hys⟩ := beginsWithSigma_iff.mp h
  have hignored : xs.reverse.all isIgnored := by rwa [List.all_reverse]
  have hletter : meetsCased (xs.reverse ++ ['a']) = true := by
    rw [meetsCased_append, if_pos hignored]
    rfl
  have halone : smallSigma xs.reverse ys = 'σ' := by
    simp [smallSigma, endsWord, meetsCased_of_all_isIgnored hignored]
  have hwithin : smallSigma (xs.reverse ++ ['a']) ys = 'ς' := by
    simp [smallSigma, endsWord, hletter, hys]
  have hfirst : piece [] [] ('a' :: (xs ++ 'Σ' :: ys)) = 'a' :: piece ['a'] [] (xs ++ 'Σ' :: ys) :=
    rfl
  have hsame : piece ['a'] ['Σ'] xs = piece [] ['Σ'] xs := piece_of_all_isIgnored hxs
  rw [hfirst, piece_sigma, piece_sigma]
  simp [halone, hwithin, hsame]

end Text.Lowercase

/-! ## Matches -/

open Text.Lowercase

namespace TextMatch

variable {kind : TextMatch} {text value : String} {before behind : List Char}

/-- A match: the text is the operand with something before and behind it, where the match allows
that. -/
structure Splits (kind : TextMatch) (text value : String) (before behind : List Char) : Prop where
  eq_append : text.toList = before ++ value.toList ++ behind
  before_eq_nil : kind = startsWith → before = []
  behind_eq_nil : kind = endsWith → behind = []

lemma holds_iff_exists_splits :
    kind.holds text value ↔ ∃ before behind, kind.Splits text value before behind := by
  cases kind with
  | contains =>
    show Text.hasSegment value.toList text.toList = true ↔ _
    rw [Text.hasSegment_iff]
    exact ⟨fun ⟨before, behind, h⟩ => ⟨before, behind, h.symm, by simp, by simp⟩,
      fun ⟨before, behind, h⟩ => ⟨before, behind, h.eq_append.symm⟩⟩
  | startsWith =>
    show value.toList.isPrefixOf text.toList = true ↔ _
    rw [List.isPrefixOf_iff_prefix]
    constructor
    · rintro ⟨behind, h⟩
      exact ⟨[], behind, h.symm, fun _ => rfl, by simp⟩
    · rintro ⟨before, behind, h, hbefore, -⟩
      obtain rfl := hbefore rfl
      exact ⟨behind, h.symm⟩
  | endsWith =>
    show value.toList.isSuffixOf text.toList = true ↔ _
    rw [List.isSuffixOf_iff_suffix]
    constructor
    · rintro ⟨before, h⟩
      exact ⟨before, [], by rw [List.append_nil, h], by simp, fun _ => rfl⟩
    · rintro ⟨before, behind, h, -, hbehind⟩
      obtain rfl := hbehind rfl
      exact ⟨before, by rw [h, List.append_nil]⟩

/-- A match is kept in lower case if the rest of the text leaves the sigmas of the operand alone. -/
lemma Splits.holds_lowercase (h : kind.Splits text value before behind)
    (hbefore : ¬(beginsWithSigma value.toList ∧ meetsCased before.reverse))
    (hbehind : ¬(endsInSigma value.toList ∧ meetsCased behind)) :
    kind.holds (Text.lowercase text) (Text.lowercase value) := by
  have hvalue : piece before.reverse behind value.toList = piece [] [] value.toList :=
    piece_eq_of_edges hbefore hbehind
  refine holds_iff_exists_splits.mpr ⟨piece [] (value.toList ++ behind) before,
    piece (value.toList.reverse ++ before.reverse) [] behind, ?_, fun hkind => ?_, fun hkind => ?_⟩
  · rw [toList_lowercase, toList_lowercase, h.eq_append, List.append_assoc, piece_append,
      piece_append, List.append_nil, List.append_nil, List.append_nil, hvalue, List.append_assoc]
  · rw [h.before_eq_nil hkind, piece]
  · rw [h.behind_eq_nil hkind, piece]

/-- Whether a match of the operand gets lost in some text when case is ignored. -/
def isFragile (kind : TextMatch) (value : String) : Bool :=
  (kind != startsWith && beginsWithSigma value.toList) ||
    (kind != endsWith && endsInSigma value.toList)

/-- What matches stands in the text, character by character. -/
lemma count_le_of_holds (h : kind.holds text value) (c : Char) :
    value.toList.count c ≤ text.toList.count c := by
  obtain ⟨before, behind, hsplit⟩ := holds_iff_exists_splits.mp h
  rw [hsplit.eq_append, List.count_append, List.count_append]
  omega

/-- **Ignoring case keeps all matches of an operand** exactly if no sigma at an edge of it depends
on what stands there in the text. -/
theorem keeps_lowercase_iff :
    (∀ text, kind.holds text value → kind.holds (Text.lowercase text) (Text.lowercase value)) ↔
      kind.isFragile value = false := by
  constructor
  · intro hkeeps
    rw [Bool.eq_false_iff]
    intro hfragile
    simp only [isFragile, Bool.or_eq_true, Bool.and_eq_true, bne_iff_ne] at hfragile
    rcases hfragile with ⟨hkind, hbegin⟩ | ⟨hkind, hend⟩
    · have hsplit : kind.Splits (String.ofList ('a' :: value.toList)) value ['a'] [] :=
        ⟨by simp, fun h => absurd h hkind, fun _ => rfl⟩
      have hcount := count_le_of_holds (hkeeps _ (holds_iff_exists_splits.mpr ⟨_, _, hsplit⟩)) 'σ'
      rw [toList_lowercase, toList_lowercase, String.toList_ofList] at hcount
      exact absurd hcount (Nat.not_le.mpr (count_lt_of_beginsWithSigma hbegin))
    · have hsplit : kind.Splits (String.ofList (value.toList ++ ['a'])) value [] ['a'] :=
        ⟨by simp, fun _ => rfl, fun h => absurd h hkind⟩
      have hcount := count_le_of_holds (hkeeps _ (holds_iff_exists_splits.mpr ⟨_, _, hsplit⟩)) 'ς'
      rw [toList_lowercase, toList_lowercase, String.toList_ofList] at hcount
      exact absurd hcount (Nat.not_le.mpr (count_lt_of_endsInSigma hend))
  · intro hfragile text htext
    simp only [isFragile, Bool.or_eq_false_iff, Bool.and_eq_false_iff, bne_eq_false_iff_eq]
      at hfragile
    obtain ⟨before, behind, hsplit⟩ := holds_iff_exists_splits.mp htext
    refine hsplit.holds_lowercase ?_ ?_
    · rintro ⟨hbegin, hletter⟩
      rcases hfragile.1 with hkind | hnone
      · rw [hsplit.before_eq_nil hkind] at hletter
        contradiction
      · rw [hnone] at hbegin
        contradiction
    · rintro ⟨hend, hletter⟩
      rcases hfragile.2 with hkind | hnone
      · rw [hsplit.behind_eq_nil hkind] at hletter
        contradiction
      · rw [hnone] at hend
        contradiction

/-- The name of the operator that asks for a match. -/
def operator (kind : TextMatch) (ignoreCase : Bool) : String :=
  match kind, ignoreCase with
  | contains, false => "contains"
  | contains, true => "icontains"
  | startsWith, false => "starts_with"
  | startsWith, true => "istarts_with"
  | endsWith, false => "ends_with"
  | endsWith, true => "iends_with"

/-- The leaf that asks for a match. -/
def leaf (kind : TextMatch) (ignoreCase : Bool) (value : String) : Leaf :=
  .single (kind.operator ignoreCase) (.text value)

end TextMatch

/-! ## Leaves -/

namespace Leaf

variable {now : Instant} {path : FieldPath} {row : Document} {text : String}

/-- **What a text matches**, as the answer of a leaf. -/
lemma answer?_textMatch (kind : TextMatch) (ignoreCase : Bool) (value : String) :
    (kind.leaf ignoreCase value).answer? .text now path row =
      some (((row.fieldValue? path).bind Document.asText?).any
        (Predicate.textHolds kind value ignoreCase)) := by
  have hrow : ∃ info, FieldKind.text.family.operator? (kind.operator ignoreCase) = some info ∧
      info.operator = .text kind ignoreCase ∧ info.shape = .pattern := by
    cases kind <;> cases ignoreCase <;> exact ⟨_, rfl, rfl, rfl⟩
  obtain ⟨info, hinfo, hop, hshape⟩ := hrow
  have hshaped : FieldKind.text.family.shaped? info.shape (.text value) = some (.text value) := by
    rw [hshape]
    rfl
  have htest : (Condition.mk info (.text value)).simpleTest? .text now =
      some fun v => (v.bind Document.asText?).any (Predicate.textHolds kind value ignoreCase) := by
    simp only [Condition.simpleTest?, hop]
    rfl
  exact answer?_of_simpleTest? hinfo hshaped (by rw [hop]; rfl) htest

lemma answer?_textMatch_eq_true_iff {kind : TextMatch} {ignoreCase : Bool} {value : String} :
    (kind.leaf ignoreCase value).answer? .text now path row = some true ↔
      ∃ text, row.fieldValue? path = some (.text text) ∧
        Predicate.textHolds kind value ignoreCase text := by
  rw [answer?_textMatch, Option.some.injEq]
  cases row.fieldValue? path with
  | none => simp
  | some d => cases d <;> simp [Document.asText?]

/-- **When ignoring case loses no match.**  A row that a text operator matches is matched by the
operator that ignores case as well, if the operand stands in the text at some place where no letter
around it changes a sigma at an edge of it.  All rows are, exactly if the operand has no sigma at an
edge that depends on the letters around it. -/
theorem keeps_ignoringCase_iff (kind : TextMatch) (value : String) (now : Instant)
    (path : FieldPath) :
    (∀ (row : Document) (text : String) (before behind : List Char),
      row.fieldValue? path = some (.text text) → kind.Splits text value before behind →
      ¬(beginsWithSigma value.toList ∧ meetsCased before.reverse) →
      ¬(endsInSigma value.toList ∧ meetsCased behind) →
      (kind.leaf false value).answer? .text now path row = some true ∧
        (kind.leaf true value).answer? .text now path row = some true) ∧
    ((∀ row : Document, (kind.leaf false value).answer? .text now path row = some true →
        (kind.leaf true value).answer? .text now path row = some true) ↔
      kind.isFragile value = false) := by
  constructor
  · intro row text before behind hrow hsplit hbefore hbehind
    have hholds : kind.holds text value :=
      TextMatch.holds_iff_exists_splits.mpr ⟨before, behind, hsplit⟩
    exact ⟨answer?_textMatch_eq_true_iff.mpr ⟨text, hrow, hholds⟩,
      answer?_textMatch_eq_true_iff.mpr ⟨text, hrow, hsplit.holds_lowercase hbefore hbehind⟩⟩
  · rw [← TextMatch.keeps_lowercase_iff]
    constructor
    · intro hkeeps text htext
      obtain ⟨row, hread⟩ := Document.exists_readField? path (.text text)
      have hrow := Document.fieldValue?_of_readField? hread rfl
      have hmatch := hkeeps row (answer?_textMatch_eq_true_iff.mpr ⟨text, hrow, htext⟩)
      obtain ⟨text', hrow', htext'⟩ := answer?_textMatch_eq_true_iff.mp hmatch
      obtain rfl : text = text' := Document.text.inj (Option.some.inj (hrow.symm.trans hrow'))
      exact htext'
    · intro hkeeps row hmatch
      obtain ⟨text, hrow, htext⟩ := answer?_textMatch_eq_true_iff.mp hmatch
      exact answer?_textMatch_eq_true_iff.mpr ⟨text, hrow, hkeeps text htext⟩

/-- The street with the number 5 is found with or without case, although the operand ends in a
sigma: no letter follows.  An operand that begins with a sigma and goes on with a letter is found
anywhere. -/
theorem keeps_ignoringCase_iff_street :
    let street := Document.object [("name", .text "ΟΔΟΣ 5")]
    let inside := Document.object [("name", .text "ΜΕΣΑ")]
    (TextMatch.contains.leaf true "ΟΔΟΣ").answer? .text ⟨0, 0⟩ (.single "name") street =
        some true ∧
      (TextMatch.contains.leaf true "ΣΑ").answer? .text ⟨0, 0⟩ (.single "name") inside =
        some true := by
  intro street inside
  have hsplit : TextMatch.contains.Splits "ΟΔΟΣ 5" "ΟΔΟΣ" [] [' ', '5'] :=
    ⟨by decide, fun _ => rfl, by decide⟩
  exact ⟨((keeps_ignoringCase_iff .contains "ΟΔΟΣ" ⟨0, 0⟩ (.single "name")).1 street "ΟΔΟΣ 5" [] _
      rfl hsplit (by decide +kernel) (by decide +kernel)).2,
    (keeps_ignoringCase_iff .contains "ΣΑ" ⟨0, 0⟩ (.single "name")).2.mpr (by decide +kernel) inside
      (by decide)⟩

/-- `ΑΣΑ` contains `ΑΣ`, and `ασα` does not contain `ας`. -/
theorem ignoringCase_loses_match :
    ¬∀ (kind : TextMatch) (value : String) (now : Instant) (path : FieldPath) (row : Document),
      (kind.leaf false value).answer? .text now path row = some true →
      (kind.leaf true value).answer? .text now path row = some true := by
  intro h
  have hlost := h .contains "ΑΣ" ⟨0, 0⟩ (.single "name") (.object [("name", .text "ΑΣΑ")])
    (by decide)
  exact absurd hlost (by decide +kernel)

end Leaf

end EntityFilter
