import EntityFilter.Number.Shortest
import EntityFilter.Proofs.NearestDoubles
import Mathlib.Algebra.Order.Archimedean.Basic
import Mathlib.Algebra.Order.Field.Power
import Mathlib.Data.List.TakeWhile
import Mathlib.Data.Rat.Floor
import Mathlib.Tactic.Linarith
import Mathlib.Tactic.NormNum
import Mathlib.Tactic.Positivity
import Mathlib.Tactic.Ring

/-!
# Shortest decimals read back

The shortest decimal of a double lies between the midpoints to its two neighbours
(`ShortDecimal.roundsTo_ofParts`).  No two doubles share such a decimal
(`Binary64.RoundsTo.unique`), so the digits tell them apart.

The search tries one digit, then two, up to seventeen, and it must not run out.  The power of ten of
the first digit is found from the binary length and may be too small, but never too great
(`ShortDecimal.leadingExponent_le`); so the last grid has steps of at most a `10 ^ 16`th part of the
number, and they are shorter than the interval (`ShortDecimal.exists_onGrid`).
-/

namespace EntityFilter

/-! ## Digits -/

/-- The number that decimal digits stand for, most significant first. -/
def digitsValue (ds : List Nat) : Nat := ds.foldl (fun n d => n * 10 + d) 0

lemma foldl_digitsValue (n : Nat) (ds : List Nat) :
    ds.foldl (fun n d => n * 10 + d) n = n * 10 ^ ds.length + digitsValue ds := by
  induction ds generalizing n with
  | nil => simp [digitsValue]
  | cons d ds ih =>
    rw [digitsValue, List.foldl_cons, List.foldl_cons, ih, ih, List.length_cons, Nat.pow_succ]
    ring

lemma digitsValue_append (ds es : List Nat) :
    digitsValue (ds ++ es) = digitsValue ds * 10 ^ es.length + digitsValue es := by
  rw [← foldl_digitsValue, digitsValue, digitsValue, List.foldl_append]

lemma digitsValue_append_replicate (ds : List Nat) (k : Nat) :
    digitsValue (ds ++ List.replicate k 0) = digitsValue ds * 10 ^ k := by
  induction k with
  | zero => simp
  | succ k ih =>
    rw [List.replicate_succ', ← List.append_assoc, digitsValue_append, ih, Nat.pow_succ]
    exact Nat.mul_assoc ..

lemma value_digitChar {d : Nat} (h : d < 10) : (Nat.digitChar d).toNat - '0'.toNat = d :=
  Nat.toNat_digitChar_sub_48_of_lt_ten h

/-- The digits of a number in its text. -/
def textDigits (n : Nat) : List Nat := (toString n).toList.map fun c => c.toNat - '0'.toNat

lemma textDigits_of_lt {n : Nat} (h : n < 10) : textDigits n = [n] := by
  rw [textDigits, Nat.toString_eq_ofList_toDigits, String.toList_ofList,
    Nat.toDigits_of_lt_base h, List.map_singleton, value_digitChar h]

lemma textDigits_of_le {n : Nat} (h : 10 ≤ n) : textDigits n = textDigits (n / 10) ++ [n % 10] := by
  simp only [textDigits, Nat.toString_eq_ofList_toDigits, String.toList_ofList]
  rw [Nat.toDigits_of_base_le (by decide) h, List.map_append, List.map_singleton,
    value_digitChar (Nat.mod_lt _ (by decide))]

lemma toList_toString (n : Nat) : (toString n).toList = (textDigits n).map Nat.digitChar := by
  rw [Nat.toString_eq_ofList_toDigits, String.toList_ofList]
  induction n using Nat.strongRecOn with
  | ind n ih =>
    rcases Nat.lt_or_ge n 10 with hlt | hge
    · rw [textDigits_of_lt hlt, Nat.toDigits_of_lt_base hlt, List.map_singleton]
    · rw [textDigits_of_le hge, Nat.toDigits_of_base_le (by decide) hge, ih _ (by omega),
        List.map_append, List.map_singleton]

/-- Digits that write a number, without a zero in front. -/
structure AreDigits (ds : List Nat) (n : Nat) : Prop where
  lt_ten : ∀ d ∈ ds, d < 10
  digitsValue_eq : digitsValue ds = n
  ne_nil : ds ≠ []
  head_ne : n ≠ 0 → ds.head? ≠ some 0

lemma areDigits_textDigits (n : Nat) : AreDigits (textDigits n) n := by
  induction n using Nat.strongRecOn with
  | ind n ih =>
    rcases Nat.lt_or_ge n 10 with hlt | hge
    · rw [textDigits_of_lt hlt]
      exact ⟨by simpa using hlt, by simp [digitsValue], by simp, by simp⟩
    · have hrest := ih (n / 10) (by omega)
      rw [textDigits_of_le hge]
      refine ⟨fun d hd => ?_, ?_, by simp, fun _ => ?_⟩
      · rcases List.mem_append.mp hd with hd | hd
        · exact hrest.lt_ten d hd
        · have := List.mem_singleton.mp hd
          omega
      · rw [digitsValue_append, hrest.digitsValue_eq]
        simp only [digitsValue, List.foldl_cons, List.foldl_nil, List.length_singleton]
        omega
      · rw [List.head?_append_of_ne_nil _ hrest.ne_nil]
        exact hrest.head_ne (by omega)

/-- Dropping zeros at the end leaves a list to which as many zeros can be added again. -/
lemma exists_replicate_zero (ds : List Nat) :
    ∃ k, ds = (ds.reverse.dropWhile (· == 0)).reverse ++ List.replicate k 0 := by
  refine ⟨(ds.reverse.takeWhile (· == 0)).length, ?_⟩
  have hzeros : ds.reverse.takeWhile (· == 0) =
      List.replicate (ds.reverse.takeWhile (· == 0)).length 0 := by
    refine List.eq_replicate_of_mem fun d hd => ?_
    have hzero := List.mem_takeWhile_imp (p := (· == 0)) hd
    exact beq_iff_eq.mp hzero
  rw [← List.reverse_replicate, ← hzeros, ← List.reverse_append, List.takeWhile_append_dropWhile,
    List.reverse_reverse]

namespace ShortDecimal

/-- The significant digits of a positive number, and the number of zeros behind them. -/
lemma significant_spec {n : Nat} (hn : n ≠ 0) :
    ∃ k, k ≠ 0 ∧ AreDigits (significant n).1 k ∧ k * 10 ^ (significant n).2 = n := by
  have hdigits := areDigits_textDigits n
  obtain ⟨zeros, hall⟩ := exists_replicate_zero (textDigits n)
  set kept := ((textDigits n).reverse.dropWhile (· == 0)).reverse with hkept
  have hsignificant : significant n = (kept, zeros) := by
    show (kept, (textDigits n).length - kept.length) = (kept, zeros)
    conv_lhs => rw [hall]
    rw [List.length_append, List.length_replicate, Nat.add_sub_cancel_left]
  have hvalue : digitsValue kept * 10 ^ zeros = n := by
    rw [← digitsValue_append_replicate, ← hall, hdigits.digitsValue_eq]
  have hne : digitsValue kept ≠ 0 := by
    rintro hzero
    rw [hzero, Nat.zero_mul] at hvalue
    exact hn hvalue.symm
  have hkeptne : kept ≠ [] := fun hnil => hne (by rw [hnil]; rfl)
  have hlt : ∀ d ∈ kept, d < 10 := fun d hd => by
    refine hdigits.lt_ten d ?_
    rw [hall]
    exact List.mem_append_left _ hd
  have hhead : kept.head? ≠ some 0 := by
    rw [← List.head?_append_of_ne_nil _ hkeptne, ← hall]
    exact hdigits.head_ne hn
  rw [hsignificant]
  exact ⟨digitsValue kept, hne, ⟨hlt, rfl, hkeptne, fun _ => hhead⟩, hvalue⟩

/-! ## Scales as rational numbers -/

namespace Scale

variable {s : Scale} {p q : Int} {n d : Nat}

/-- One quarter unit. -/
def value (s : Scale) : ℚ := s.num / s.den

/-- The denominator of a scale is positive. -/
lemma den_pos_ofExponent (q : Int) : 0 < (ofExponent q).den := by
  unfold ofExponent
  split
  · exact Nat.one_pos
  · exact Nat.two_pow_pos _

lemma den_pos_inSteps (hs : 0 < s.den) (p : Int) : 0 < (s.inSteps p).den := by
  unfold inSteps
  split
  · exact Nat.mul_pos hs (Nat.pow_pos (by decide))
  · exact hs

lemma value_ofExponent (q : Int) : (ofExponent q).value = 2 ^ q := by
  unfold ofExponent value
  split
  · next hq =>
    obtain ⟨k, rfl⟩ := Int.eq_ofNat_of_zero_le hq
    simp [Nat.pow_eq]
  · next hq =>
    obtain ⟨k, rfl⟩ : ∃ k : Nat, q = -k := ⟨(-q).toNat, by omega⟩
    simp [Nat.pow_eq]

lemma value_inSteps (s : Scale) (p : Int) : (s.inSteps p).value = s.value / 10 ^ p := by
  unfold inSteps value
  split
  · next hp =>
    obtain ⟨k, rfl⟩ := Int.eq_ofNat_of_zero_le hp
    simp [Nat.pow_eq, div_div]
  · next hp =>
    obtain ⟨k, rfl⟩ : ∃ k : Nat, p = -k := ⟨(-p).toNat, by omega⟩
    simp [Nat.pow_eq]
    ring

/-- Comparing in steps is comparing the numbers themselves. -/
lemma mul_num_le_iff (hs : 0 < s.den) (p : Int) :
    n * (s.inSteps p).num ≤ d * (s.inSteps p).den ↔ n * s.value ≤ d * (10 : ℚ) ^ p := by
  have hden : (0 : ℚ) < (s.inSteps p).den := by exact_mod_cast den_pos_inSteps hs p
  have hpow : (0 : ℚ) < 10 ^ p := by positivity
  rw [← div_le_iff₀ hpow, mul_div_assoc, ← value_inSteps, value, ← mul_div_assoc, div_le_iff₀ hden]
  exact_mod_cast Iff.rfl

lemma le_mul_num_iff (hs : 0 < s.den) (p : Int) :
    d * (s.inSteps p).den ≤ n * (s.inSteps p).num ↔ d * (10 : ℚ) ^ p ≤ n * s.value := by
  have hden : (0 : ℚ) < (s.inSteps p).den := by exact_mod_cast den_pos_inSteps hs p
  have hpow : (0 : ℚ) < 10 ^ p := by positivity
  rw [← le_div_iff₀ hpow, mul_div_assoc, ← value_inSteps, value, ← mul_div_assoc, le_div_iff₀ hden]
  exact_mod_cast Iff.rfl

lemma powerLe_iff (hs : 0 < s.den) : s.powerLe p n ↔ (10 : ℚ) ^ p ≤ n * s.value := by
  have hone := le_mul_num_iff (d := 1) (n := n) hs p
  rw [Nat.one_mul, Nat.cast_one, one_mul] at hone
  rw [← hone, powerLe]
  exact decide_eq_true_iff

end Scale

/-! ## The first digit -/

variable {s : Scale} {tie : Tie} {units below above n : Nat} {closed : Bool} {p lead : Int}

/-- The logarithm of two is greater than 59 / 196 and less than 28 / 93, so a hundred thousandth
more for each binary digit is within one power of ten. -/
lemma pow_guess_le {bits : Int} (hlow : -20000 ≤ bits) (hhigh : bits ≤ 20000) :
    (10 : ℚ) ^ (bits * 30103 / 100000 - 1) ≤ 2 ^ bits := by
  set guess := bits * 30103 / 100000 with hguess
  have hle : guess * 100000 ≤ bits * 30103 := by omega
  rcases Int.lt_or_le bits 0 with hneg | hpos
  · obtain ⟨c, hc⟩ : ∃ c : Nat, bits = -c := ⟨bits.natAbs, by omega⟩
    obtain ⟨k, hk⟩ : ∃ k : Nat, guess - 1 = -k := ⟨(guess - 1).natAbs, by omega⟩
    have hpow : (2 ^ c) ^ 93 ≤ (10 ^ k) ^ 93 :=
      calc (2 ^ c) ^ 93 = (2 ^ 93) ^ c := Nat.pow_right_comm ..
        _ ≤ (10 ^ 28) ^ c := Nat.pow_le_pow_left (by norm_num) c
        _ = 10 ^ (28 * c) := (Nat.pow_mul ..).symm
        _ ≤ 10 ^ (93 * k) := Nat.pow_le_pow_right (by decide) (by omega)
        _ = (10 ^ k) ^ 93 := by rw [Nat.mul_comm, Nat.pow_mul]
    have hle : 2 ^ c ≤ 10 ^ k := (Nat.pow_le_pow_iff_left (by decide)).mp hpow
    rw [hc, hk, zpow_neg, zpow_neg, zpow_natCast, zpow_natCast]
    exact inv_anti₀ (by positivity) (by exact_mod_cast hle)
  · obtain ⟨c, hc⟩ := Int.eq_ofNat_of_zero_le hpos
    rcases Int.lt_or_le (guess - 1) 0 with hsmall | hlarge
    · calc (10 : ℚ) ^ (guess - 1) ≤ 10 ^ (0 : Int) := zpow_le_zpow_right₀ (by norm_num) hsmall.le
        _ = 2 ^ (0 : Int) := by rw [zpow_zero, zpow_zero]
        _ ≤ 2 ^ bits := zpow_le_zpow_right₀ (by norm_num) hpos
    · obtain ⟨k, hk⟩ := Int.eq_ofNat_of_zero_le hlarge
      have hpow : (10 ^ k) ^ 59 ≤ (2 ^ c) ^ 59 :=
        calc (10 ^ k) ^ 59 = (10 ^ 59) ^ k := Nat.pow_right_comm ..
          _ ≤ (2 ^ 196) ^ k := Nat.pow_le_pow_left (by norm_num) k
          _ = 2 ^ (196 * k) := (Nat.pow_mul ..).symm
          _ ≤ 2 ^ (59 * c) := Nat.pow_le_pow_right (by decide) (by omega)
          _ = (2 ^ c) ^ 59 := by rw [Nat.mul_comm, Nat.pow_mul]
      have hle : 10 ^ k ≤ 2 ^ c := (Nat.pow_le_pow_iff_left (by decide)).mp hpow
      rw [hc, hk, zpow_natCast, zpow_natCast]
      exact_mod_cast hle

/-- **The first digit** stands for a power of ten that the number reaches. -/
lemma leadingExponent_le {bits : Int} (hs : 0 < s.den) (hlow : -20000 ≤ bits)
    (hhigh : bits ≤ 20000) (hbits : (2 : ℚ) ^ bits ≤ units * s.value) :
    (10 : ℚ) ^ leadingExponent s units bits ≤ units * s.value := by
  unfold leadingExponent
  dsimp only
  split
  · next h => exact (Scale.powerLe_iff hs).mp h
  split
  · next h => exact (Scale.powerLe_iff hs).mp h
  · exact (pow_guess_le hlow hhigh).trans hbits

/-! ## Grids -/

/-- The numbers between two bounds, with the bounds or without. -/
def Between (closed : Bool) (low high y : ℚ) : Prop :=
  if closed then low ≤ y ∧ y ≤ high else low < y ∧ y < high

namespace Between

variable {low high x y z : ℚ}

lemma of_lt (hlow : low < y) (hhigh : y < high) : Between closed low high y := by
  cases closed with
  | true => exact ⟨hlow.le, hhigh.le⟩
  | false => exact ⟨hlow, hhigh⟩

lemma bounds (h : Between closed low high y) : low ≤ y ∧ y ≤ high := by
  cases closed with
  | true => exact h
  | false => exact ⟨h.1.le, h.2.le⟩

lemma convex (hx : Between closed low high x) (hz : Between closed low high z) (hxy : x ≤ y)
    (hyz : y ≤ z) : Between closed low high y := by
  cases closed with
  | true => exact ⟨hx.1.trans hxy, hyz.trans hz.2⟩
  | false => exact ⟨hx.1.trans_le hxy, hyz.trans_lt hz.2⟩

end Between

/-- The test that the grid is searched with. -/
def isInside (t : Scale) (below above : Nat) (closed : Bool) (d : Nat) : Bool :=
  if closed then below * t.num ≤ d * t.den && d * t.den ≤ above * t.num
  else below * t.num < d * t.den && d * t.den < above * t.num

lemma isInside_iff (hs : 0 < s.den) {d : Nat} :
    isInside (s.inSteps p) below above closed d ↔
      Between closed (below * s.value) (above * s.value) (d * 10 ^ p) := by
  unfold isInside Between
  split
  · rw [Bool.and_eq_true, decide_eq_true_eq, decide_eq_true_eq, Scale.mul_num_le_iff hs,
      Scale.le_mul_num_iff hs]
  · rw [Bool.and_eq_true, decide_eq_true_eq, decide_eq_true_eq, ← Nat.not_le, ← Nat.not_le,
      Scale.mul_num_le_iff hs, Scale.le_mul_num_iff hs, not_le, not_le]

/-- What is found on a grid is inside. -/
lemma isInside_of_onGrid? {d : Nat} (h : onGrid? tie s units below above closed p = some d) :
    isInside (s.inSteps p) below above closed d := by
  unfold onGrid? at h
  dsimp only at h
  split at h
  · next hdown hup =>
    obtain rfl := Option.some.inj h
    split
    · exact hup
    · exact hdown
  · next hdown _ => exact Option.some.inj h ▸ hdown
  · next _ hup => exact Option.some.inj h ▸ hup
  · cases h

/-- If nothing is found, neither neighbour of the number is inside. -/
lemma not_isInside_of_onGrid? (h : onGrid? tie s units below above closed p = none) :
    ¬isInside (s.inSteps p) below above closed
        (units * (s.inSteps p).num / (s.inSteps p).den) ∧
      ¬isInside (s.inSteps p) below above closed
        (units * (s.inSteps p).num / (s.inSteps p).den + 1) := by
  unfold onGrid? at h
  dsimp only at h
  split at h
  · cases h
  · cases h
  · cases h
  · next hdown hup => exact ⟨by rw [isInside, hdown]; simp, by rw [isInside, hup]; simp⟩

/-- **A grid that meets the interval is not searched in vain**: a neighbour of the number is at
least as near as anything else on the grid. -/
lemma onGrid?_isSome (hs : 0 < s.den)
    (hunits : Between closed (below * s.value) (above * s.value) (units * s.value)) {d : Nat}
    (hd : Between closed (below * s.value) (above * s.value) (d * 10 ^ p)) :
    (onGrid? tie s units below above closed p).isSome := by
  rw [Option.isSome_iff_ne_none]
  intro hnone
  obtain ⟨hdown, hup⟩ := not_isInside_of_onGrid? hnone
  set t := s.inSteps p with ht
  set down := units * t.num / t.den
  have hden : 0 < t.den := Scale.den_pos_inSteps hs p
  have hpow : (0 : ℚ) < 10 ^ p := by positivity
  have hle : (down : ℚ) * 10 ^ p ≤ units * s.value :=
    (Scale.le_mul_num_iff hs p).mp (Nat.div_mul_le_self ..)
  have hge : (units : ℚ) * s.value ≤ (down + 1 : Nat) * 10 ^ p :=
    (Scale.mul_num_le_iff hs p).mp (Nat.lt_mul_of_div_lt (Nat.lt_succ_self down) hden).le
  rw [isInside_iff hs] at hdown hup
  rcases Nat.lt_or_ge down d with hlt | hge'
  · have hmono : ((down + 1 : Nat) : ℚ) * 10 ^ p ≤ d * 10 ^ p :=
      mul_le_mul_of_nonneg_right (by exact_mod_cast hlt) hpow.le
    exact hup (hunits.convex hd hge hmono)
  · have hmono : (d : ℚ) * 10 ^ p ≤ down * 10 ^ p :=
      mul_le_mul_of_nonneg_right (by exact_mod_cast hge') hpow.le
    exact hdown (hd.convex hunits hmono hle)

/-- A grid meets every interval that is longer than a step. -/
lemma exists_between {low high : ℚ} (hlow : 0 ≤ low) (hlong : low + 10 ^ p < high) :
    ∃ d : Nat, Between closed low high (d * 10 ^ p) := by
  have hpow : (0 : ℚ) < 10 ^ p := by positivity
  refine ⟨⌊low / 10 ^ p⌋₊ + 1, .of_lt ?_ ?_⟩
  · rw [← div_lt_iff₀ hpow]
    exact_mod_cast Nat.lt_floor_add_one (low / 10 ^ p)
  · have hfloor : (⌊low / 10 ^ p⌋₊ : ℚ) * 10 ^ p ≤ low :=
      (le_div_iff₀ hpow).mp (Nat.floor_le (by positivity))
    push_cast
    linarith

/-- **The search** finds a number inside if there is one on the last grid. -/
lemma between_search (hs : 0 < s.den)
    (hlast : (onGrid? tie s units below above closed (lead - 16)).isSome) (hn : n ≠ 0) :
    Between closed (below * s.value) (above * s.value)
      ((search tie s units below above closed lead n).1 *
        10 ^ (search tie s units below above closed lead n).2) := by
  induction n with
  | zero => exact absurd rfl hn
  | succ n ih =>
    unfold search
    dsimp only
    split
    · next d hd => exact (isInside_iff hs).mp (isInside_of_onGrid? hd)
    · next hnone =>
      refine ih fun hzero => ?_
      subst hzero
      rw [show lead - (17 - ((0 + 1 : Nat) : Int)) = lead - 16 by omega] at hnone
      rw [hnone] at hlast
      exact absurd hlast (by decide)

end ShortDecimal

/-! ## Rounding intervals -/

namespace Binary64

/-- The parts of a positive finite double.  Only the doubles of the least exponent have fewer than
53 binary digits. -/
structure Parts.Proper (p : Parts) : Prop where
  pos : 0 < p.mantissa
  lt : p.mantissa < 2 * fractions
  le_exponent : -1074 ≤ p.exponent
  exponent_le : p.exponent ≤ 971
  normal : fractions ≤ p.mantissa ∨ p.exponent = -1074

/-- Whether the double below is only half as far away as the one above. -/
def Parts.isNarrow (p : Parts) : Bool := p.mantissa == fractions && p.exponent != -1074

/-- The quarter units up to the middle between the double and the one below. -/
def Parts.below (p : Parts) : Nat := 4 * p.mantissa - (if p.isNarrow then 1 else 2)

/-- The numbers that read back as a double: those up to the middle between it and its neighbours,
the middle included if the mantissa is even. -/
def RoundsTo (p : Parts) (y : ℚ) : Prop :=
  ShortDecimal.Between (p.mantissa % 2 == 0) (p.below * 2 ^ (p.exponent - 2))
    ((4 * p.mantissa + 2 : Nat) * 2 ^ (p.exponent - 2)) y

variable {p p' : Parts} {y : ℚ} {k : Nat}

lemma Parts.Proper.below_bounds (hp : p.Proper) :
    4 * p.mantissa - 2 ≤ p.below ∧ p.below < 4 * p.mantissa := by
  have hpos := hp.pos
  unfold below
  split <;> omega

lemma RoundsTo.bounds_of_odd (h : RoundsTo p y) (hodd : p.mantissa % 2 = 1) :
    p.below * 2 ^ (p.exponent - 2) < y ∧ y < (4 * p.mantissa + 2 : Nat) * 2 ^ (p.exponent - 2) := by
  rw [RoundsTo, hodd] at h
  exact h

/-- What belongs to a double ends where the next one begins, and one of the two mantissas is odd. -/
lemma Parts.Proper.above_le_below (hp : p.Proper) (hp' : p'.Proper)
    (hk : p'.exponent = p.exponent + k) (hlt : k = 0 → p.mantissa < p'.mantissa) :
    4 * p.mantissa + 2 < p'.below * 2 ^ k ∨
      4 * p.mantissa + 2 = p'.below * 2 ^ k ∧ (p.mantissa % 2 = 1 ∨ p'.mantissa % 2 = 1) := by
  obtain ⟨hlow, -⟩ := hp'.below_bounds
  have hpos := hp'.pos
  rcases Nat.eq_zero_or_pos k with rfl | hkpos
  · have hmantissa := hlt rfl
    rw [Nat.pow_zero, Nat.mul_one]
    omega
  · have hpow : p'.below * 2 ≤ p'.below * 2 ^ k :=
      Nat.mul_le_mul_left _ (Nat.le_self_pow hkpos.ne' 2)
    have hexponent := hp.le_exponent
    have hmantissa := hp.lt
    have hnormal : fractions ≤ p'.mantissa := hp'.normal.resolve_right (by omega)
    have heven : fractions % 2 = 0 := rfl
    by_cases hleast : p'.mantissa = fractions
    · have hnarrow : p'.isNarrow := by
        simp only [isNarrow, hleast, beq_self_eq_true, Bool.true_and, bne_iff_ne, ne_eq]
        omega
      have hbelow : p'.below = 4 * fractions - 1 := by rw [below, if_pos hnarrow, hleast]
      omega
    · omega

/-- No number belongs to a double and to a greater one. -/
lemma RoundsTo.not_of_lt (hy : RoundsTo p y) (hp : p.Proper) (hp' : p'.Proper)
    (hk : p'.exponent = p.exponent + k) (hlt : k = 0 → p.mantissa < p'.mantissa) :
    ¬RoundsTo p' y := by
  intro hy'
  have hpow : (0 : ℚ) < 2 ^ (p.exponent - 2) := by positivity
  have hscale : p'.below * (2 : ℚ) ^ (p'.exponent - 2) =
      (p'.below * 2 ^ k : Nat) * 2 ^ (p.exponent - 2) := by
    rw [show p'.exponent - 2 = k + (p.exponent - 2) by omega, zpow_add₀ (by norm_num), zpow_natCast]
    push_cast
    ring
  rcases hp.above_le_below hp' hk hlt with hgap | ⟨htouch, hodd⟩
  · have hgap : ((4 * p.mantissa + 2 : Nat) : ℚ) * 2 ^ (p.exponent - 2) <
        (p'.below * 2 ^ k : Nat) * 2 ^ (p.exponent - 2) :=
      mul_lt_mul_of_pos_right (by exact_mod_cast hgap) hpow
    rw [← hscale] at hgap
    exact absurd (hy'.bounds.1.trans hy.bounds.2) (not_le.mpr hgap)
  · rw [← htouch] at hscale
    rcases hodd with hodd | hodd
    · exact absurd ((hy.bounds_of_odd hodd).2.trans_le hscale.ge) (not_lt.mpr hy'.bounds.1)
    · exact absurd (hscale.ge.trans_lt (hy'.bounds_of_odd hodd).1) (not_lt.mpr hy.bounds.2)

/-- **One double only** reads back from a decimal. -/
theorem RoundsTo.unique (hy : RoundsTo p y) (hy' : RoundsTo p' y) (hp : p.Proper)
    (hp' : p'.Proper) : p.mantissa = p'.mantissa ∧ p.exponent = p'.exponent := by
  rcases lt_trichotomy p.exponent p'.exponent with hlt | heq | hgt
  · obtain ⟨k, hk⟩ := Int.le.dest hlt.le
    exact absurd hy' (hy.not_of_lt hp hp' hk.symm (by omega))
  · refine ⟨?_, heq⟩
    rcases lt_trichotomy p.mantissa p'.mantissa with hlt | hmantissa | hgt
    · exact absurd hy' (hy.not_of_lt (k := 0) hp hp' (by omega) fun _ => hlt)
    · exact hmantissa
    · exact absurd hy (hy'.not_of_lt (k := 0) hp' hp (by omega) fun _ => hgt)
  · obtain ⟨k, hk⟩ := Int.le.dest hgt.le
    exact absurd hy (hy'.not_of_lt hp' hp hk.symm (by omega))

/-- The parts of a finite double other than zero. -/
lemma proper_parts {x : Float} (hx : isFinite x) (hzero : (parts x).mantissa ≠ 0) :
    (parts x).Proper := by
  have hfield : exponentField x < 2047 := by simpa [isFinite] using hx
  have hfraction : x.toBits.toNat % fractions < fractions := Nat.mod_lt _ (by decide)
  have hsize : fractions = 4503599627370496 := rfl
  refine ⟨Nat.pos_of_ne_zero hzero, ?_, ?_, ?_, ?_⟩ <;> unfold parts <;> dsimp only <;>
    split <;> omega

/-- A double is known by its parts, and zero by its sign. -/
lemma eq_of_parts {x x' : Float} (hx : isFinite x) (hx' : isFinite x')
    (hnegative : (parts x).negative = (parts x').negative)
    (hmantissa : (parts x).mantissa = (parts x').mantissa)
    (hexponent : (parts x).mantissa ≠ 0 → (parts x).exponent = (parts x').exponent) : x = x' := by
  have hfield : exponentField x < 2047 := by simpa [isFinite] using hx
  have hfield' : exponentField x' < 2047 := by simpa [isFinite] using hx'
  have hbits : x.toBits.toNat < 2 ^ 64 := x.toBits.toNat_lt
  have hbits' : x'.toBits.toNat < 2 ^ 64 := x'.toBits.toNat_lt
  have hsize : fractions = 4503599627370496 := rfl
  have hsign : signBit = 9223372036854775808 := rfl
  refine eq_of_toBits ?_
  unfold parts at hnegative hmantissa hexponent
  rw [decide_eq_decide, hsign] at hnegative
  dsimp only at hmantissa hexponent
  unfold exponentField at hmantissa hexponent hfield hfield'
  rw [hsize] at hmantissa hexponent hfield hfield'
  split at hmantissa <;> split at hmantissa <;>
    simp only [*, if_true, if_false] at hexponent <;> omega

lemma RoundsTo.pos (h : RoundsTo p y) (hp : p.Proper) : 0 < y := by
  have hbelow : 0 < p.below := by
    have hpos := hp.pos
    have hlow := hp.below_bounds.1
    omega
  exact lt_of_lt_of_le (by positivity) h.bounds.1

end Binary64

namespace ShortDecimal

open Binary64 (RoundsTo)

/-! ## The shortest decimal -/

/-- The number that a decimal stands for. -/
def value (d : ShortDecimal) : ℚ := digitsValue d.digits * 10 ^ (d.exponent - (d.digits.length - 1))

lemma value_mk {ds : List Nat} {k : Nat} (hds : AreDigits ds k) (step : Int) (zeros : Nat) :
    value ⟨ds, step + zeros + ds.length - 1⟩ = (k * 10 ^ zeros : Nat) * 10 ^ step := by
  rw [value, hds.digitsValue_eq]
  dsimp only
  rw [sub_sub_sub_cancel_right, add_sub_cancel_right, zpow_add₀ (by norm_num), zpow_natCast]
  push_cast
  ring

variable {parts : Binary64.Parts}

/-- A double as quarter units. -/
lemma units_mul_value (parts : Binary64.Parts) :
    ((4 * parts.mantissa : Nat) : ℚ) * (Scale.ofExponent (parts.exponent - 2)).value =
      parts.mantissa * 2 ^ parts.exponent := by
  rw [Scale.value_ofExponent, zpow_sub₀ (by norm_num)]
  push_cast
  ring

/-- **Seventeen digits suffice**: the last grid meets the interval of the double. -/
lemma exists_onGrid (hp : parts.Proper) {lead : Int}
    (hlead : (10 : ℚ) ^ lead ≤ (4 * parts.mantissa : Nat) * 2 ^ (parts.exponent - 2)) :
    ∃ d : Nat, RoundsTo parts (d * 10 ^ (lead - 16)) := by
  have hunit : (0 : ℚ) < 2 ^ (parts.exponent - 2) := by positivity
  have hstep : (10 : ℚ) ^ (lead - 16) * 10 ^ 16 = 10 ^ lead := by
    rw [← zpow_natCast, ← zpow_add₀ (by norm_num)]
    congr 1
    omega
  -- an interval of four units about at most `2 ^ 55` of them, or of three about `2 ^ 54`
  have hlong : 4 * parts.mantissa + parts.below * 10 ^ 16 < (4 * parts.mantissa + 2) * 10 ^ 16 := by
    have hlt := hp.lt
    have hpos := hp.pos
    have hsize : Binary64.fractions = 4503599627370496 := rfl
    rw [hsize] at hlt
    unfold Binary64.Parts.below
    split
    · next hnarrow =>
      rw [Binary64.Parts.isNarrow, Bool.and_eq_true, beq_iff_eq, hsize] at hnarrow
      omega
    · omega
  have hlong : ((4 * parts.mantissa : Nat) : ℚ) + parts.below * 10 ^ 16 <
      (4 * parts.mantissa + 2 : Nat) * 10 ^ 16 := by exact_mod_cast hlong
  refine exists_between (by positivity) ?_
  nlinarith [mul_lt_mul_of_pos_right hlong hunit]

/-- **The shortest decimal of a double reads back as the double.** -/
theorem roundsTo_ofParts (hp : parts.Proper) (tie : Tie) :
    RoundsTo parts (ofParts tie parts).value ∧
      ∃ k, k ≠ 0 ∧ AreDigits (ofParts tie parts).digits k := by
  set s := Scale.ofExponent (parts.exponent - 2) with hscale
  have hs : 0 < s.den := Scale.den_pos_ofExponent _
  have hvalue : s.value = 2 ^ (parts.exponent - 2) := Scale.value_ofExponent _
  set lead := leadingExponent s (4 * parts.mantissa)
    ((parts.mantissa.log2 : Int) + parts.exponent) with hlead
  set found := search tie s (4 * parts.mantissa) parts.below (4 * parts.mantissa + 2)
    (parts.mantissa % 2 == 0) lead 17 with hfound
  have hdecimal : ofParts tie parts =
      ⟨(significant found.1).1,
        found.2 + (significant found.1).2 + (significant found.1).1.length - 1⟩ := rfl
  have hpower : (10 : ℚ) ^ lead ≤ (4 * parts.mantissa : Nat) * s.value := by
    have hlog : parts.mantissa.log2 < 53 := (Nat.log2_lt hp.pos.ne').mpr hp.lt
    have hlow := hp.le_exponent
    have hhigh := hp.exponent_le
    refine leadingExponent_le hs (by omega) (by omega) ?_
    rw [units_mul_value, zpow_add₀ (by norm_num), zpow_natCast]
    refine mul_le_mul_of_nonneg_right ?_ (by positivity)
    exact_mod_cast Nat.log2_self_le hp.pos.ne'
  have hunits : RoundsTo parts ((4 * parts.mantissa : Nat) * s.value) := by
    obtain ⟨-, hbelow⟩ := hp.below_bounds
    rw [hvalue]
    refine .of_lt ?_ ?_ <;> refine mul_lt_mul_of_pos_right ?_ (by positivity)
    · exact_mod_cast hbelow
    · push_cast
      linarith
  have hlast : (onGrid? tie s (4 * parts.mantissa) parts.below (4 * parts.mantissa + 2)
      (parts.mantissa % 2 == 0) (lead - 16)).isSome := by
    obtain ⟨d, hd⟩ := exists_onGrid hp (hvalue ▸ hpower)
    rw [RoundsTo, ← hvalue] at hunits hd
    exact onGrid?_isSome hs hunits hd
  have hread : RoundsTo parts (found.1 * 10 ^ found.2) := by
    have hbetween := between_search hs hlast (n := 17) (by decide)
    rw [hvalue] at hbetween
    exact hbetween
  have hne : found.1 ≠ 0 := by
    intro hzero
    have hpos := hread.pos hp
    rw [hzero, Nat.cast_zero, zero_mul] at hpos
    exact lt_irrefl _ hpos
  obtain ⟨k, hk, hdigits, hzeros⟩ := significant_spec hne
  rw [hdecimal]
  refine ⟨?_, k, hk, hdigits⟩
  rw [value_mk hdigits, hzeros]
  exact hread

end ShortDecimal

end EntityFilter
