import EntityFilter.Document.Token
import EntityFilter.Proofs.ShortestDigits

/-!
# Written numbers read back

The text of a number is a numeral, and reading it stops where the number ends
(`Document.Token.numeral?_chars`).  The numeral of an integer has neither point nor exponent and
gives its digits (`Document.Token.numeral?_toString`).  The numeral of a finite double has a point
or an exponent, in every layout, and what it stands for reads back as the double
(`Document.Token.numeral?_render`).

So the text of a number tells which number it is, and no integer is written as a double is.
-/

namespace EntityFilter

/-! ## Digits as characters -/

lemma isDigit_digitChar : ∀ {d : Nat}, d < 10 → (Nat.digitChar d).isDigit := by
  decide

namespace Document.Token

variable {ds : List Nat} {cs rest : List Char} {e : Option Int} {f : Option (List Nat)}
  {plus : Bool}

/-- Digits are read up to the first other character. -/
lemma digits_append (hds : ∀ d ∈ ds, d < 10) (hrest : ∀ c ∈ rest.head?, c.isDigit = false) :
    digits (ds.map Nat.digitChar ++ rest) = (ds, rest) := by
  have hall : ∀ c ∈ ds.map Nat.digitChar, c.isDigit := by
    intro c hc
    obtain ⟨d, hd, rfl⟩ := List.mem_map.mp hc
    exact isDigit_digitChar (hds d hd)
  have hstop : rest.takeWhile Char.isDigit = [] ∧ rest.dropWhile Char.isDigit = rest := by
    cases rest with
    | nil => exact ⟨rfl, rfl⟩
    | cons c cs =>
      have hc : ¬c.isDigit := Bool.eq_false_iff.mp (hrest c rfl)
      exact ⟨List.takeWhile_cons_of_neg hc, List.dropWhile_cons_of_neg hc⟩
  have hback : (ds.map Nat.digitChar).map (fun c => c.toNat - '0'.toNat) = ds := by
    rw [List.map_map]
    exact (List.map_congr_left fun d hd => value_digitChar (hds d hd)).trans (List.map_id ds)
  rw [digits, List.takeWhile_append_of_pos hall, List.dropWhile_append_of_pos hall, hstop.1,
    hstop.2, List.append_nil, hback]

/-! ## Numerals in three steps -/

/-- The sign in front of a numeral. -/
def sign : List Char → Bool × List Char
  | '-' :: rest => (true, rest)
  | rest => (false, rest)

/-- The digits behind a point, if there is a point. -/
def fraction? : List Char → Option (Option (List Nat) × List Char)
  | '.' :: rest =>
    match digits rest with
    | ([], _) => none
    | (ds, rest) => some (some ds, rest)
  | rest => some (none, rest)

/-- The exponent, if there is one. -/
def power? : List Char → Option (Option Int × List Char)
  | 'e' :: rest | 'E' :: rest => (exponent? rest).map fun (e, rest) => (some e, rest)
  | rest => some (none, rest)

section

variable {α : Type}

lemma fraction?_bind (cs : List Char) (k : Option (List Nat) × List Char → Option α) :
    (fraction? cs).bind k =
      match cs with
      | '.' :: rest =>
        match digits rest with
        | ([], _) => none >>= k
        | (ds, rest) => some (some ds, rest) >>= k
      | rest => some (none, rest) >>= k := by
  unfold fraction?
  split
  · split <;> rfl
  · rfl

lemma power?_bind (cs : List Char) (k : Option Int × List Char → Option α) :
    (power? cs).bind k =
      match cs with
      | 'e' :: rest => ((exponent? rest).map fun (e, rest) => (some e, rest)) >>= k
      | 'E' :: rest => ((exponent? rest).map fun (e, rest) => (some e, rest)) >>= k
      | rest => some (none, rest) >>= k := by
  unfold power?
  split <;> rfl

end

/-- A numeral is read in steps: sign, digits, fraction, exponent. -/
lemma numeral?_eq (cs : List Char) :
    numeral? cs =
      if (digits (sign cs).2).1.isEmpty ||
          ((digits (sign cs).2).1.length > 1 && (digits (sign cs).2).1.head? == some 0) then none
      else
        (fraction? (digits (sign cs).2).2).bind fun fraction =>
          (power? fraction.2).bind fun power =>
            some (⟨(sign cs).1, (digits (sign cs).2).1, fraction.1, power.1⟩, power.2) := by
  simp only [fraction?_bind, power?_bind]
  rfl

/-- What may follow a numeral, so that it ends there. -/
def EndsNumeral (rest : List Char) : Prop :=
  ∀ c ∈ rest.head?, c.isDigit = false ∧ c ≠ '.' ∧ c ≠ 'e' ∧ c ≠ 'E'

/-- A fraction behind its point. -/
def fractionChars : Option (List Nat) → List Char
  | none => []
  | some ds => '.' :: ds.map Nat.digitChar

/-- An exponent behind its letter. -/
def powerChars (plus : Bool) : Option Int → List Char
  | none => []
  | some e => 'e' :: ((if 0 ≤ e && plus then ['+'] else []) ++ (toString e).toList)

/-- The characters of an integer. -/
lemma toList_toString_int (i : Int) :
    (toString i).toList =
      (if i < 0 then ['-'] else []) ++ (textDigits i.natAbs).map Nat.digitChar := by
  rw [Int.toString_eq_repr, Int.repr_eq_if]
  split
  · next h =>
    obtain ⟨n, rfl⟩ := Int.eq_ofNat_of_zero_le h
    rw [if_neg (by omega)]
    exact toList_toString n
  · next h =>
    obtain ⟨n, hn⟩ : ∃ n : Nat, -i = n := ⟨(-i).toNat, by omega⟩
    rw [if_pos (by omega), hn, String.toList_append, show i.natAbs = n by omega]
    exact congrArg ('-' :: ·) (toList_toString n)

/-- The sign in front of an exponent. -/
def powerSign : List Char → Bool × List Char
  | '+' :: rest => (false, rest)
  | '-' :: rest => (true, rest)
  | rest => (false, rest)

lemma powerSign_of_isDigit {c : Char} (hc : c.isDigit) :
    powerSign (c :: cs) = (false, c :: cs) := by
  unfold powerSign
  split
  · next h => exact absurd hc (by rw [(List.cons.inj h).1]; decide)
  · next h => exact absurd hc (by rw [(List.cons.inj h).1]; decide)
  · rfl

/-- An exponent is read as its digits under its sign. -/
lemma exponent?_of_powerSign {i : Int}
    (h : powerSign cs = (decide (i < 0), (textDigits i.natAbs).map Nat.digitChar ++ rest))
    (hrest : ∀ c ∈ rest.head?, c.isDigit = false) : exponent? cs = some (i, rest) := by
  have hdigits := areDigits_textDigits i.natAbs
  obtain ⟨d, ds, hds⟩ := List.exists_cons_of_ne_nil hdigits.ne_nil
  have hvalue := hdigits.digitsValue_eq
  show (match digits (powerSign cs).2 with
    | ([], _) => none
    | (ds, rest) =>
      some (if (powerSign cs).1 then -(digitsValue ds : Int) else digitsValue ds, rest)) = _
  rw [h]
  dsimp only
  rw [digits_append hdigits.lt_ten hrest, hds]
  show some (if decide (i < 0) then -(digitsValue (d :: ds) : Int) else digitsValue (d :: ds),
    rest) = _
  rw [← hds, hvalue, Option.some.injEq, Prod.mk.injEq]
  refine ⟨?_, rfl⟩
  split <;> simp only [decide_eq_true_eq] at * <;> omega

lemma sign_of_isDigit {c : Char} (hc : c.isDigit) : sign (c :: cs) = (false, c :: cs) := by
  unfold sign
  split
  · next h => exact absurd hc (by rw [(List.cons.inj h).1]; decide)
  · rfl

lemma exponent?_chars (hrest : ∀ c ∈ rest.head?, c.isDigit = false) (i : Int) :
    exponent? ((if 0 ≤ i && plus then ['+'] else []) ++ (toString i).toList ++ rest) =
      some (i, rest) := by
  refine exponent?_of_powerSign ?_ hrest
  have hdigits := areDigits_textDigits i.natAbs
  obtain ⟨d, ds, hds⟩ := List.exists_cons_of_ne_nil hdigits.ne_nil
  have hfirst : (Nat.digitChar d).isDigit :=
    isDigit_digitChar (hdigits.lt_ten d (hds ▸ List.mem_cons_self ..))
  rw [toList_toString_int, hds]
  rcases Int.lt_or_le i 0 with hneg | hpos
  · rw [if_neg (by simp; omega), if_pos hneg, decide_eq_true hneg]
    rfl
  · rw [if_neg (not_lt.mpr hpos), decide_eq_false (not_lt.mpr hpos)]
    split
    · rfl
    · exact powerSign_of_isDigit hfirst

lemma power?_chars (hrest : EndsNumeral rest) :
    power? (powerChars plus e ++ rest) = some (e, rest) := by
  cases e with
  | none =>
    cases rest with
    | nil => rfl
    | cons c cs =>
      obtain ⟨-, -, hlower, hupper⟩ := hrest c rfl
      unfold power?
      split
      · next h => exact absurd (List.cons.inj h).1 hlower
      · next h => exact absurd (List.cons.inj h).1 hupper
      · rfl
  | some i =>
    show (exponent? ((if 0 ≤ i && plus then ['+'] else []) ++ (toString i).toList ++ rest)).map
      (fun (e, rest) => (some e, rest)) = _
    rw [exponent?_chars fun c hc => (hrest c hc).1]
    rfl

lemma head_powerChars (hrest : EndsNumeral rest) :
    ∀ c ∈ (powerChars plus e ++ rest).head?, c.isDigit = false ∧ c ≠ '.' := by
  cases e with
  | none => exact fun c hc => ⟨(hrest c hc).1, (hrest c hc).2.1⟩
  | some i =>
    intro c hc
    obtain rfl := Option.some.inj hc
    decide

/-- Behind the digits of a numeral no digit follows. -/
lemma head_fractionChars (hrest : EndsNumeral rest) :
    ∀ c ∈ (fractionChars f ++ (powerChars plus e ++ rest)).head?, c.isDigit = false := by
  cases f with
  | none => exact fun c hc => (head_powerChars hrest c hc).1
  | some ds =>
    intro c hc
    obtain rfl := Option.some.inj hc
    decide

lemma fraction?_chars (hf : ∀ ds ∈ f, ds ≠ [] ∧ ∀ d ∈ ds, d < 10) (hrest : EndsNumeral rest) :
    fraction? (fractionChars f ++ (powerChars plus e ++ rest)) =
      some (f, powerChars plus e ++ rest) := by
  cases f with
  | none =>
    unfold fraction?
    split
    · next rest' h =>
      have hhead : '.' ∈ (powerChars plus e ++ rest).head? := by
        rw [fractionChars, List.nil_append] at h
        rw [h]
        rfl
      exact absurd rfl (head_powerChars hrest '.' hhead).2
    · rfl
  | some ds =>
    obtain ⟨hne, hds⟩ := hf ds rfl
    show (match digits (ds.map Nat.digitChar ++ (powerChars plus e ++ rest)) with
      | ([], _) => none
      | (ds, rest) => some (some ds, rest)) = _
    rw [digits_append hds fun c hc => (head_powerChars hrest c hc).1]
    cases ds with
    | nil => exact absurd rfl hne
    | cons d ds => rfl

end Document.Token

namespace Numeral

/-- The number that a numeral stands for, its sign aside. -/
def magnitude (n : Numeral) : ℚ :=
  digitsValue (n.whole ++ n.fraction.getD []) *
    10 ^ (n.exponent.getD 0 - (n.fraction.getD []).length)

/-- The characters of a numeral; a positive exponent may carry a sign. -/
def chars (n : Numeral) (plus : Bool) : List Char :=
  (if n.negative then ['-'] else []) ++ (n.whole.map Nat.digitChar ++
    (Document.Token.fractionChars n.fraction ++ Document.Token.powerChars plus n.exponent))

/-- What may be written as a numeral: digits on both sides of a point, and no superfluous zero in
front. -/
structure IsProper (n : Numeral) : Prop where
  whole_lt : ∀ d ∈ n.whole, d < 10
  whole_ne : n.whole ≠ []
  head_ne : 1 < n.whole.length → n.whole.head? ≠ some 0
  fraction_spec : ∀ ds ∈ n.fraction, ds ≠ [] ∧ ∀ d ∈ ds, d < 10

end Numeral

namespace Document.Token

variable {n : Numeral}

/-- **A numeral is read back** as it was written. -/
theorem numeral?_chars (hn : n.IsProper) (hrest : EndsNumeral rest) :
    numeral? (n.chars plus ++ rest) = some (n, rest) := by
  obtain ⟨hwhole, hne, hhead, hfraction⟩ := hn
  have hsign : sign (n.chars plus ++ rest) = (n.negative, n.whole.map Nat.digitChar ++
      (fractionChars n.fraction ++ (powerChars plus n.exponent ++ rest))) := by
    obtain ⟨d, ds, hds⟩ := List.exists_cons_of_ne_nil hne
    have hfirst : (Nat.digitChar d).isDigit :=
      isDigit_digitChar (hwhole d (hds ▸ List.mem_cons_self ..))
    rw [Numeral.chars, List.append_assoc, List.append_assoc, List.append_assoc, hds]
    cases n.negative with
    | true => rfl
    | false => exact sign_of_isDigit hfirst
  have hempty : ¬(n.whole.isEmpty ||
      (decide (n.whole.length > 1) && n.whole.head? == some 0)) = true := by
    simpa [hne] using hhead
  rw [numeral?_eq, hsign]
  dsimp only
  rw [digits_append hwhole (head_fractionChars hrest)]
  dsimp only
  rw [if_neg hempty, fraction?_chars hfraction hrest, Option.bind_some]
  dsimp only
  rw [power?_chars hrest, Option.bind_some]

end Document.Token

/-! ## Integers -/

namespace Numeral

variable {i j : Int}

/-- The numeral of an integer. -/
def ofInt (i : Int) : Numeral := ⟨i < 0, textDigits i.natAbs, none, none⟩

lemma isProper_ofInt (i : Int) : (ofInt i).IsProper := by
  have hdigits := areDigits_textDigits i.natAbs
  refine ⟨hdigits.lt_ten, hdigits.ne_nil, fun hlong => hdigits.head_ne fun hzero => ?_, nofun⟩
  rw [ofInt] at hlong
  dsimp only at hlong
  rw [hzero] at hlong
  exact absurd hlong (by decide)

lemma chars_ofInt (i : Int) (plus : Bool) : (ofInt i).chars plus = (toString i).toList := by
  rw [Document.Token.toList_toString_int]
  simp [chars, ofInt, Document.Token.fractionChars, Document.Token.powerChars]

/-- The digits and the sign make the integer. -/
lemma ofInt_inj (h : ofInt i = ofInt j) : i = j := by
  have hdigits : textDigits i.natAbs = textDigits j.natAbs := congrArg Numeral.whole h
  have hnatAbs := congrArg digitsValue hdigits
  rw [(areDigits_textDigits _).digitsValue_eq, (areDigits_textDigits _).digitsValue_eq] at hnatAbs
  have hsign : i < 0 ↔ j < 0 := decide_eq_decide.mp (congrArg Numeral.negative h)
  omega

end Numeral

/-! ## Layouts -/

namespace Layout

open Document.Token (fractionChars powerChars)

variable {d : ShortDecimal} {ds : List Nat} {k : Nat} {plus negative : Bool}

lemma toList_digitText (hds : ∀ d ∈ ds, d < 10) :
    (digitText ds).toList = ds.map Nat.digitChar := by
  have hone : ∀ d ∈ ds, (toString d).toList = [Nat.digitChar d] := fun d hd => by
    rw [toList_toString, textDigits_of_lt (hds d hd), List.map_singleton]
  rw [digitText, String.toList_join, List.flatMap_map, List.map_eq_flatMap]
  exact List.flatMap_congr hone

/-- The numeral of a decimal without an exponent. -/
def plainNumeral (negative : Bool) (d : ShortDecimal) : Numeral :=
  if d.exponent < 0 then
    ⟨negative, [0], some (List.replicate ((-d.exponent).toNat - 1) 0 ++ d.digits), none⟩
  else
    let places := d.exponent.toNat + 1
    let fraction := d.digits.drop places
    ⟨negative, d.digits.take places ++ List.replicate (places - d.digits.length) 0,
      some (if fraction.isEmpty then [0] else fraction), none⟩

/-- The numeral of a decimal with an exponent. -/
def powerNumeral (negative : Bool) (d : ShortDecimal) : Numeral :=
  ⟨negative, d.digits.take 1,
    if (d.digits.drop 1).isEmpty then none else some (d.digits.drop 1), some d.exponent⟩

lemma chars_plainNumeral (hd : ∀ n ∈ d.digits, n < 10) :
    (plainNumeral negative d).chars plus =
      (if negative then ['-'] else []) ++ (plain d).toList := by
  unfold plainNumeral plain
  split
  · have hfraction : ∀ n ∈ List.replicate ((-d.exponent).toNat - 1) 0 ++ d.digits, n < 10 := by
      intro n hn
      rcases List.mem_append.mp hn with hn | hn
      · exact List.eq_of_mem_replicate hn ▸ by decide
      · exact hd n hn
    rw [String.toList_append, toList_digitText hfraction, Numeral.chars, powerChars,
      List.append_nil]
    rfl
  · have hwhole : ∀ n ∈ d.digits.take (d.exponent.toNat + 1) ++
        List.replicate (d.exponent.toNat + 1 - d.digits.length) 0, n < 10 := by
      intro n hn
      rcases List.mem_append.mp hn with hn | hn
      · exact hd n (List.mem_of_mem_take hn)
      · exact List.eq_of_mem_replicate hn ▸ by decide
    have hfraction : ∀ n ∈ d.digits.drop (d.exponent.toNat + 1), n < 10 :=
      fun n hn => hd n (List.mem_of_mem_drop hn)
    dsimp only
    rw [String.toList_append, String.toList_append, toList_digitText hwhole, Numeral.chars,
      powerChars, List.append_nil, List.append_assoc]
    split
    · rfl
    · rw [toList_digitText hfraction]
      rfl

lemma chars_powerNumeral (hd : ∀ n ∈ d.digits, n < 10) :
    (powerNumeral negative d).chars plus =
      (if negative then ['-'] else []) ++ (withExponent plus d).toList := by
  have hfirst : ∀ n ∈ d.digits.take 1, n < 10 := fun n hn => hd n (List.mem_of_mem_take hn)
  have hothers : ∀ n ∈ d.digits.drop 1, n < 10 := fun n hn => hd n (List.mem_of_mem_drop hn)
  have hsign : (if 0 ≤ d.exponent && plus then "+" else "").toList =
      if 0 ≤ d.exponent && plus then ['+'] else [] := by
    split <;> rfl
  unfold powerNumeral withExponent
  dsimp only
  rw [String.toList_append, String.toList_append, String.toList_append, hsign, Numeral.chars]
  dsimp only
  by_cases hone : (d.digits.drop 1).isEmpty
  · rw [if_pos hone, if_pos hone, toList_digitText hfirst]
    simp [fractionChars, powerChars]
  · rw [if_neg hone, if_neg hone, String.toList_append, String.toList_append,
      toList_digitText hfirst, toList_digitText hothers]
    simp [fractionChars, powerChars]

lemma digitsValue_replicate_append (m : Nat) (ds : List Nat) :
    digitsValue (List.replicate m 0 ++ ds) = digitsValue ds := by
  have hzeros : digitsValue (List.replicate m 0) = 0 := by
    rw [← List.nil_append (List.replicate m 0), digitsValue_append_replicate]
    exact Nat.zero_mul _
  rw [digitsValue_append, hzeros, Nat.zero_mul, Nat.zero_add]

/-- Without an exponent the numeral is proper. -/
lemma isProper_plainNumeral (hk : k ≠ 0) (hd : AreDigits d.digits k) :
    (plainNumeral negative d).IsProper := by
  have hzeros : ∀ m, ∀ n ∈ List.replicate m 0, n < 10 := fun m n hn =>
    List.eq_of_mem_replicate hn ▸ by decide
  obtain ⟨first, others, hdigits⟩ := List.exists_cons_of_ne_nil hd.ne_nil
  unfold plainNumeral
  split
  · refine ⟨by simp, by simp, by simp, ?_⟩
    rintro ds ⟨⟩
    refine ⟨by simp [hd.ne_nil], fun n hn => ?_⟩
    rcases List.mem_append.mp hn with hn | hn
    · exact hzeros _ n hn
    · exact hd.lt_ten n hn
  · refine ⟨fun n hn => ?_, by simp [hdigits], fun _ => ?_, ?_⟩
    · rcases List.mem_append.mp hn with hn | hn
      · exact hd.lt_ten n (List.mem_of_mem_take hn)
      · exact hzeros _ n hn
    · have hhead := hd.head_ne hk
      rw [hdigits] at hhead
      simpa [hdigits] using hhead
    · rintro ds ⟨⟩
      split
      · exact ⟨by simp, by simp⟩
      · next hne =>
        exact ⟨fun hnil => hne (hnil ▸ rfl), fun n hn => hd.lt_ten n (List.mem_of_mem_drop hn)⟩

/-- Without an exponent the numeral stands for the decimal. -/
lemma magnitude_plainNumeral (hd : AreDigits d.digits k) :
    (plainNumeral negative d).magnitude = d.value := by
  have hlength : 0 < d.digits.length := List.length_pos_of_ne_nil hd.ne_nil
  unfold plainNumeral ShortDecimal.value
  split
  · next hneg =>
    set m := (-d.exponent).toNat - 1 with hm
    have hfraction : (0 : Int) - ((List.replicate m 0 ++ d.digits).length : Int) =
        d.exponent - (d.digits.length - 1) := by
      rw [List.length_append, List.length_replicate]
      omega
    show (digitsValue (List.replicate 1 0 ++ (List.replicate m 0 ++ d.digits)) : ℚ) *
      10 ^ ((0 : Int) - ((List.replicate m 0 ++ d.digits).length : Int)) = _
    rw [digitsValue_replicate_append, digitsValue_replicate_append, hfraction]
  · next hpos =>
    rcases Nat.lt_or_ge (d.exponent.toNat + 1) d.digits.length with hlt | hge
    · have hfraction : (d.digits.drop (d.exponent.toNat + 1)).isEmpty = false := by
        simpa using hlt
      have hexponent : (0 : Int) - ((d.digits.drop (d.exponent.toNat + 1)).length : Int) =
          d.exponent - (d.digits.length - 1) := by
        rw [List.length_drop]
        omega
      dsimp only
      rw [Nat.sub_eq_zero_of_le hlt.le, hfraction]
      show (digitsValue (d.digits.take (d.exponent.toNat + 1) ++ [] ++
        d.digits.drop (d.exponent.toNat + 1)) : ℚ) *
          10 ^ ((0 : Int) - ((d.digits.drop (d.exponent.toNat + 1)).length : Int)) = _
      rw [List.append_nil, List.take_append_drop, hexponent]
    · have hzeros : d.exponent - (d.digits.length - 1) =
          ((d.exponent.toNat + 1 - d.digits.length : Nat) : Int) := by omega
      dsimp only
      rw [List.take_of_length_le hge, List.drop_of_length_le hge, hzeros, zpow_natCast]
      show (digitsValue (d.digits ++ List.replicate (d.exponent.toNat + 1 - d.digits.length) 0 ++
        List.replicate 1 0) : ℚ) * 10 ^ ((0 : Int) - 1) = _
      rw [digitsValue_append_replicate, digitsValue_append_replicate]
      push_cast
      norm_num
      ring

/-- With an exponent the numeral is proper and stands for the decimal. -/
lemma powerNumeral_spec (negative : Bool) (hd : AreDigits d.digits k) :
    (powerNumeral negative d).IsProper ∧ (powerNumeral negative d).magnitude = d.value := by
  obtain ⟨first, others, hdigits⟩ := List.exists_cons_of_ne_nil hd.ne_nil
  have hlt := hd.lt_ten
  have hsplit : (powerNumeral negative d).fraction.getD [] = others := by
    unfold powerNumeral
    rw [hdigits]
    cases others <;> rfl
  rw [hdigits, List.forall_mem_cons] at hlt
  constructor
  · refine ⟨fun n hn => hd.lt_ten n (List.mem_of_mem_take hn), ?_, ?_, ?_⟩
    · simp [powerNumeral, hdigits]
    · simp [powerNumeral, hdigits]
    · unfold powerNumeral
      rw [hdigits]
      intro ds hds
      cases others with
      | nil => cases hds
      | cons n ns =>
        obtain rfl := Option.some.inj hds
        exact ⟨by simp, hlt.2⟩
  · rw [Numeral.magnitude, hsplit, ShortDecimal.value]
    simp [powerNumeral, hdigits]

/-- The numeral of a double. -/
def numeral (l : Layout) (x : Float) : Numeral :=
  let p := Binary64.parts x
  if p.mantissa = 0 then ⟨p.negative, [0], some [0], none⟩
  else
    let d := ShortDecimal.ofParts l.tie p
    if l.plainFrom ≤ d.exponent && d.exponent ≤ l.plainTo then plainNumeral p.negative d
    else powerNumeral p.negative d

/-- The text of a double is its numeral. -/
lemma toList_render (l : Layout) {x : Float} (hx : Binary64.isFinite x) :
    (l.render x).toList = (l.numeral x).chars l.signsExponent := by
  have hsign : (if (Binary64.parts x).negative then "-" else "").toList =
      if (Binary64.parts x).negative then ['-'] else [] := by
    split <;> rfl
  unfold render numeral
  dsimp only
  by_cases hzero : (Binary64.parts x).mantissa = 0
  · rw [if_pos hzero, if_pos hzero, String.toList_append, hsign]
    rfl
  · obtain ⟨-, k, hk, hdigits⟩ :=
      ShortDecimal.roundsTo_ofParts (Binary64.proper_parts hx hzero) l.tie
    rw [if_neg hzero, if_neg hzero, String.toList_append, hsign]
    set d := ShortDecimal.ofParts l.tie (Binary64.parts x)
    by_cases hplain : (l.plainFrom ≤ d.exponent && d.exponent ≤ l.plainTo) = true
    · rw [if_pos hplain, if_pos hplain, chars_plainNumeral hdigits.lt_ten]
    · rw [if_neg hplain, if_neg hplain, chars_powerNumeral hdigits.lt_ten]

/-- **The numeral of a finite double** is proper, has a point or an exponent, and stands for zero or
for a number that reads back as the double. -/
structure Writes (n : Numeral) (x : Float) : Prop where
  isProper : n.IsProper
  isFloat : n.fraction.isSome ∨ n.exponent.isSome
  negative_eq : n.negative = (Binary64.parts x).negative
  zero : (Binary64.parts x).mantissa = 0 → n.magnitude = 0
  roundsTo : (Binary64.parts x).mantissa ≠ 0 → Binary64.RoundsTo (Binary64.parts x) n.magnitude

lemma writes_numeral (l : Layout) {x : Float} (hx : Binary64.isFinite x) :
    Writes (l.numeral x) x := by
  unfold numeral
  dsimp only
  split
  · next hzero =>
    have hproper : (⟨(Binary64.parts x).negative, [0], some [0], none⟩ : Numeral).IsProper :=
      ⟨by simp, by simp, by simp, by simp⟩
    exact ⟨hproper, .inl rfl, rfl, fun _ => zero_mul _, fun h => absurd hzero h⟩
  · next hzero =>
    obtain ⟨hrounds, k, hk, hdigits⟩ :=
      ShortDecimal.roundsTo_ofParts (Binary64.proper_parts hx hzero) l.tie
    split
    · refine ⟨isProper_plainNumeral hk hdigits, .inl ?_, ?_, fun h => absurd h hzero, fun _ => ?_⟩
      · unfold plainNumeral
        split <;> rfl
      · unfold plainNumeral
        split <;> rfl
      · rw [magnitude_plainNumeral hdigits]
        exact hrounds
    · obtain ⟨hproper, hmagnitude⟩ := powerNumeral_spec (Binary64.parts x).negative hdigits
      refine ⟨hproper, .inr rfl, rfl, fun h => absurd h hzero, fun _ => ?_⟩
      rw [hmagnitude]
      exact hrounds

/-- **A numeral writes one double only.** -/
theorem Writes.unique {n : Numeral} {x y : Float} (h : Writes n x) (h' : Writes n y)
    (hx : Binary64.isFinite x) (hy : Binary64.isFinite y) : x = y := by
  have hnegative := h.negative_eq.symm.trans h'.negative_eq
  by_cases hzero : (Binary64.parts x).mantissa = 0 <;>
    by_cases hzero' : (Binary64.parts y).mantissa = 0
  · exact Binary64.eq_of_parts hx hy hnegative (hzero.trans hzero'.symm) fun hne => absurd hzero hne
  · exact absurd (h.zero hzero) ((h'.roundsTo hzero').pos (Binary64.proper_parts hy hzero')).ne'
  · exact absurd (h'.zero hzero') ((h.roundsTo hzero).pos (Binary64.proper_parts hx hzero)).ne'
  · obtain ⟨hmantissa, hexponent⟩ := (h.roundsTo hzero).unique (h'.roundsTo hzero')
      (Binary64.proper_parts hx hzero) (Binary64.proper_parts hy hzero')
    exact Binary64.eq_of_parts hx hy hnegative hmantissa fun _ => hexponent

end Layout

/-! ## Texts of numbers -/

namespace Document.Token

variable {rest : List Char}

/-- **The text of an integer** is read back as its numeral. -/
theorem numeral?_toString (i : Int) (hrest : EndsNumeral rest) :
    numeral? ((toString i).toList ++ rest) = some (.ofInt i, rest) := by
  rw [← Numeral.chars_ofInt i false]
  exact numeral?_chars (Numeral.isProper_ofInt i) hrest

/-- **The text of a finite double** is read back as a numeral that writes the double. -/
theorem numeral?_render (l : Layout) {x : Float} (hx : Binary64.isFinite x)
    (hrest : EndsNumeral rest) :
    numeral? ((l.render x).toList ++ rest) = some (l.numeral x, rest) := by
  rw [l.toList_render hx]
  exact numeral?_chars (l.writes_numeral hx).isProper hrest

end Document.Token

end EntityFilter
