import EntityFilter.Proofs.ComparedFields
import EntityFilter.Proofs.NearestDoubles

/-!
# Adding integers among the doubles

A double that stands for an integer is `Binary64.ofInt` of it: the sign and the magnitude of the
integer decide the bits.  Adding two such doubles gives the double nearest to the sum of the two
integers (`Binary64.ofInt_add`), and reading an integer back gives the one that the nearest double
stands for, as far as it fits into 64 bits (`Binary64.toInt64Clamped_ofInt`).

Addition takes both doubles apart, adds their significands at the smaller exponent, rounds the
result and packs it again.  Rounding shifts to the right, and keeps of what is lost the first binary
digit and whether there is another one; this is enough to round a quotient to the nearest even
number (`Binary64.roundedMantissa_shiftRight`).  So the whole of it is one rounded quotient, the
significand (`Binary64.significand`), which the bits of the nearest double have too
(`Binary64.magnitudeOfNat_eq`).

The bounds on the binary length keep everything below the greatest double.
-/

namespace EntityFilter.Binary64

open Float.Model (Format totalExponent UnpackedFloat)
open Float.Model.UnpackedFloat

variable {i : Int} {m n unit c k : Nat} {e : Int} {negative : Bool}

/-! ## Significands -/

/-- A quotient is rounded alike in every scale. -/
lemma nearestQuotient_mul (hc : 0 < c) :
    nearestQuotient (n * c) (unit * c) = nearestQuotient n unit := by
  have hdiv : n * c / (unit * c) = n / unit := Nat.mul_div_mul_right _ _ hc
  have hmod : n * c % (unit * c) = n % unit * c := Nat.mul_mod_mul_right ..
  have hlt : unit * c < 2 * (n % unit * c) ↔ unit < 2 * (n % unit) := by
    rw [← Nat.mul_assoc]
    exact Nat.mul_lt_mul_right hc
  have heq : 2 * (n % unit * c) = unit * c ↔ 2 * (n % unit) = unit := by
    rw [← Nat.mul_assoc]
    exact Nat.mul_left_inj hc.ne'
  rw [nearestQuotient, nearestQuotient, hdiv, hmod]
  simp only [hlt, heq]

/-- What a unit divides is not rounded. -/
lemma nearestQuotient_of_dvd (hunit : 0 < unit) : nearestQuotient (n * unit) unit = n := by
  rw [nearestQuotient, Nat.mul_mod_left, Nat.mul_div_cancel _ hunit, if_neg (by omega)]
  rfl

/-- The leading binary digits of a positive number, rounded to 53 of them. -/
def significand (n : Nat) : Nat := nearestQuotient (n * fractions) (2 ^ n.log2)

lemma magnitudeOfNat_eq (hn : n ≠ 0) :
    magnitudeOfNat n = (n.log2 + 1022) * fractions + significand n := by
  have hsize : fractions = 2 ^ 52 := rfl
  rcases Nat.lt_or_ge 52 n.log2 with he | he
  · have hunit : 2 ^ n.log2 = 2 ^ (n.log2 - 52) * fractions := by
      rw [hsize, ← Nat.pow_add, Nat.sub_add_cancel he.le]
    rw [magnitudeOfNat_of_lt hn he, significand, hunit, nearestQuotient_mul (by decide)]
  · have hscale : n * fractions = n * 2 ^ (52 - n.log2) * 2 ^ n.log2 := by
      rw [hsize, Nat.mul_assoc, ← Nat.pow_add, Nat.sub_add_cancel he]
    rw [magnitudeOfNat_of_le hn he, significand, hscale,
      nearestQuotient_of_dvd (Nat.two_pow_pos _)]

lemma significand_bounds (hn : n ≠ 0) :
    fractions ≤ significand n ∧ significand n ≤ 2 * fractions := by
  have hmagnitude := magnitudeOfNat_bounds hn
  have hfield : (n.log2 + 1023) * fractions = (n.log2 + 1022) * fractions + fractions ∧
      (n.log2 + 1024) * fractions = (n.log2 + 1022) * fractions + 2 * fractions := by
    constructor <;> ring
  rw [magnitudeOfNat_eq hn] at hmagnitude
  omega

/-- The number that the double nearest to a natural number stands for. -/
def nearestNat (n : Nat) : Nat :=
  nearestQuotient n (2 ^ (n.log2 - 52)) * 2 ^ (n.log2 - 52)

lemma nearestNat_of_le (h : n.log2 ≤ 52) : nearestNat n = n := by
  rw [nearestNat, Nat.sub_eq_zero_of_le h, Nat.pow_zero, Nat.mul_one]
  simpa using nearestQuotient_of_dvd (n := n) Nat.one_pos

/-- The nearest double in terms of its significand and its exponent. -/
lemma nearestNat_mul_fractions (n : Nat) :
    nearestNat n * fractions = significand n * 2 ^ n.log2 := by
  have hsize : fractions = 2 ^ 52 := rfl
  rcases Nat.lt_or_ge 52 n.log2 with he | he
  · have hunit : 2 ^ n.log2 = 2 ^ (n.log2 - 52) * fractions := by
      rw [hsize, ← Nat.pow_add, Nat.sub_add_cancel he.le]
    rw [significand, hunit, nearestQuotient_mul (by decide), nearestNat, Nat.mul_assoc]
  · have hscale : n * fractions = n * 2 ^ (52 - n.log2) * 2 ^ n.log2 := by
      rw [hsize, Nat.mul_assoc, ← Nat.pow_add, Nat.sub_add_cancel he]
    rw [nearestNat_of_le he, significand, hscale, nearestQuotient_of_dvd (Nat.two_pow_pos _)]

/-! ## Fields of a double -/

/-- The sign that the sign bit stands for. -/
def signOf (negative : Bool) : Sign := if negative then .negative else .positive

/-- The sign bit in its place. -/
def signBits (negative : Bool) : Nat := if negative then signBit else 0

lemma toNat_packComponents (negative : Bool) (field : BitVec 11) (fraction : BitVec 52) :
    (packComponents Format.binary64 (signOf negative) field fraction).toNat =
      signBits negative + (field.toNat * fractions + fraction.toNat) := by
  have happend : ∀ sign : BitVec 1, (sign ++ field ++ fraction).toNat =
      sign.toNat * 2 ^ 63 + (field.toNat * 2 ^ 52 + fraction.toNat) := by
    intro sign
    rw [BitVec.toNat_append, ← Nat.shiftLeft_add_eq_or_of_lt fraction.isLt, Nat.shiftLeft_eq,
      BitVec.toNat_append, ← Nat.shiftLeft_add_eq_or_of_lt field.isLt, Nat.shiftLeft_eq]
    ring
  have hsign : (signOf negative).toBitVec.toNat = negative.toNat := by cases negative <;> rfl
  have hbit : signBits negative = negative.toNat * 2 ^ 63 := by cases negative <;> rfl
  have hsize : fractions = 2 ^ 52 := rfl
  rw [hbit, hsize, ← hsign]
  exact happend _

lemma unpackExponent_toNat (b : BitVec 64) :
    (@unpackExponent Format.binary64 b).toNat = b.toNat / fractions % 2048 := by
  have hsize : fractions = 2 ^ 52 := rfl
  simp only [unpackExponent, Format.binary64, BitVec.extractLsb, BitVec.toNat_cast,
    BitVec.extractLsb'_toNat, Nat.shiftRight_eq_div_pow, hsize]

lemma unpackMantissa_toNat (b : BitVec 64) :
    (@unpackMantissa Format.binary64 b).toNat = b.toNat % fractions := by
  have hsize : fractions = 2 ^ 52 := rfl
  simp only [unpackMantissa, Format.binary64, BitVec.extractLsb, BitVec.toNat_cast,
    BitVec.extractLsb'_toNat, Nat.shiftRight_eq_div_pow, hsize, Nat.pow_zero, Nat.div_one]

lemma unpackSign_eq (b : BitVec 64) :
    Sign.ofBitVec (@unpackSign Format.binary64 b) = signOf (signBit ≤ b.toNat) := by
  have hsign : (@unpackSign Format.binary64 b).toNat = b.toNat / 2 ^ 63 % 2 := by
    simp only [unpackSign, Format.binary64, BitVec.extractLsb, BitVec.toNat_cast,
      BitVec.extractLsb'_toNat, Nat.shiftRight_eq_div_pow]
  have hlt := b.isLt
  have hbit : signBit = 2 ^ 63 := rfl
  have hzero : @unpackSign Format.binary64 b = 0#1 ↔ ¬signBit ≤ b.toNat := by
    rw [← BitVec.toNat_inj, hsign, hbit]
    show b.toNat / 2 ^ 63 % 2 = 0 ↔ _
    omega
  unfold Sign.ofBitVec signOf
  by_cases h : signBit ≤ b.toNat
  · rw [if_neg (fun hz => hzero.mp hz h), if_pos (decide_eq_true h)]
  · rw [if_pos (hzero.mpr h), if_neg (by simpa using h)]

/-- A bit pattern with an exponent in range is taken apart into its three fields. -/
lemma unpack_of_normal {b : BitVec 64} (hlow : b.toNat / fractions % 2048 ≠ 0)
    (hhigh : b.toNat / fractions % 2048 ≠ 2047) :
    ∃ hpos, unpack Format.binary64 b =
      .finite (signOf (signBit ≤ b.toNat)) (fractions + b.toNat % fractions)
        (((b.toNat / fractions % 2048 : Nat) : Int) - 1075) hpos := by
  have hfull : @unpackExponent Format.binary64 b ≠ -1#11 := by
    intro h
    refine hhigh ?_
    rw [← unpackExponent_toNat, h]
    rfl
  have hzero : @unpackExponent Format.binary64 b ≠ 0#11 := by
    intro h
    refine hlow ?_
    rw [← unpackExponent_toNat, h]
    rfl
  have hsignificand : (1#1 ++ @unpackMantissa Format.binary64 b).toNat =
      fractions + b.toNat % fractions := by
    rw [← unpackMantissa_toNat, BitVec.toNat_append,
      ← Nat.shiftLeft_add_eq_or_of_lt (@unpackMantissa Format.binary64 b).isLt]
    rfl
  refine ⟨Nat.add_pos_left (by decide) _, ?_⟩
  unfold unpack
  simp only [if_neg hfull, if_neg hzero, unpackSign_eq, unpackExponent_toNat, hsignificand]
  rfl

/-! ## Rounding -/

/-- Shifting to the right keeps the first binary digit that is lost, and whether others are. -/
lemma shiftRight_eq (m k : Nat) :
    ExtendedMantissa.ofMantissaAndAccuracy m .exact >>> k =
      ⟨m / 2 ^ k, decide (2 ^ k ≤ 2 * (m % 2 ^ k)),
        decide (m % 2 ^ k ≠ 0 ∧ 2 * (m % 2 ^ k) ≠ 2 ^ k)⟩ := by
  induction k with
  | zero =>
    show ExtendedMantissa.mk m false false = _
    simp [Nat.mod_one]
  | succ k ih =>
    show ExtendedMantissa.shiftRightOne
      (ExtendedMantissa.ofMantissaAndAccuracy m .exact >>> k) = _
    have hpos := Nat.two_pow_pos k
    have hdiv : m / 2 ^ (k + 1) = m / 2 ^ k / 2 := by
      rw [Nat.pow_succ, Nat.div_div_eq_div_mul]
    have hmod : m % 2 ^ (k + 1) = m % 2 ^ k + 2 ^ k * (m / 2 ^ k % 2) := by
      rw [Nat.pow_succ, Nat.mod_mul]
    have hlt : m % 2 ^ k < 2 ^ k := Nat.mod_lt _ hpos
    rw [ih, hdiv, hmod, Nat.pow_succ]
    generalize m / 2 ^ k = q at *
    generalize m % 2 ^ k = r at *
    generalize 2 ^ k = u at *
    have hparity := Nat.mod_two_eq_zero_or_one q
    simp only [ExtendedMantissa.shiftRightOne, ExtendedMantissa.mk.injEq, true_and]
    constructor <;> rw [Bool.eq_iff_iff] <;>
      simp only [Bool.or_eq_true, bne_iff_ne, decide_eq_true_eq] <;>
      rcases hparity with hq | hq <;> rw [hq] <;> omega

/-- **Rounding off binary digits** is rounding a quotient. -/
lemma roundedMantissa_shiftRight (m k : Nat) :
    (ExtendedMantissa.ofMantissaAndAccuracy m .exact >>> k).roundedMantissa =
      nearestQuotient m (2 ^ k) := by
  rw [shiftRight_eq]
  have hlt : m % 2 ^ k < 2 ^ k := Nat.mod_lt _ (Nat.two_pow_pos k)
  have hparity := Nat.mod_two_eq_zero_or_one (m / 2 ^ k)
  unfold nearestQuotient
  generalize m / 2 ^ k = q at *
  generalize m % 2 ^ k = r at *
  generalize 2 ^ k = u at *
  by_cases hhalf : u ≤ 2 * r <;> by_cases hrest : r ≠ 0 ∧ 2 * r ≠ u
  all_goals
    simp only [hhalf, hrest, decide_true, decide_false, ExtendedMantissa.roundedMantissa,
      ExtendedMantissa.accuracy, UnpackedFloat.Accuracy.roundToNearestEven]
    grind

/-- A significand and an exponent of a normal double. -/
structure IsNormal (m : Nat) (e : Int) : Prop where
  le_significand : fractions ≤ m
  significand_lt : m < 2 * fractions
  le_exponent : -1074 ≤ e
  exponent_le : e ≤ 971

namespace IsNormal

lemma pos (h : IsNormal m e) : 0 < m := lt_of_lt_of_le (by decide) h.le_significand

lemma log2_eq (h : IsNormal m e) : m.log2 = 52 :=
  (Nat.log2_eq_iff h.pos.ne').mpr ⟨h.le_significand, h.significand_lt⟩

/-- A normal double is packed into its fields. -/
lemma toNat_pack (h : IsNormal m e) :
    (pack Format.binary64 (.finite (signOf negative) m e h.pos)).toNat =
      signBits negative + ((e + 1074).toNat * fractions + m) := by
  have hlog := h.log2_eq
  obtain ⟨hsignificand, hsignificand', hexponent, hexponent'⟩ := h
  have hbias : e + (Format.binary64.exponentBias : Int) + (52 : Nat) = e + 1075 := by
    show e + 1023 + 52 = e + 1075
    omega
  have hfull : ¬2 ^ Format.binary64.exponentBits ≤ (e + 1075).toNat + 1 := by
    show ¬2048 ≤ (e + 1075).toNat + 1
    omega
  have hbits : m.log2 + 1 = Format.binary64.mantissaBits := by rw [hlog]; rfl
  have hfield : (BitVec.ofNat 11 (e + 1075).toNat).toNat = (e + 1074).toNat + 1 := by
    rw [BitVec.toNat_ofNat, Nat.mod_eq_of_lt] <;> omega
  have hfraction : (BitVec.ofNat 52 m).toNat = m - fractions := by
    have hsize : fractions = 2 ^ 52 := rfl
    rw [BitVec.toNat_ofNat, hsize]
    omega
  simp only [pack, hbias, if_neg hfull, if_pos hbits]
  rw [toNat_packComponents, hfield, hfraction, Nat.add_mul]
  omega

end IsNormal

lemma targetExponent_eq (m : Nat) (e : Int) :
    Format.binary64.targetExponent (totalExponent m e) = max (m.log2 + e - 52) (-1074) := by
  show max (m.log2 + 1 + e - 53) (-1074) = _
  omega

/-- The second shift takes back the digit that rounding may have carried. -/
lemma shiftToTargetExponent_rounded {t : Int} (ht : -1074 ≤ t) (ht' : t ≤ 970)
    (hlow : fractions ≤ m) (hhigh : m ≤ 2 * fractions) :
    ∃ m' e', shiftToTargetExponent Format.binary64 m t .exact = (⟨m', false, false⟩, e') ∧
      IsNormal m' e' ∧ (e' + 1074).toNat * fractions + m' = (t + 1074).toNat * fractions + m := by
  unfold shiftToTargetExponent shiftToExponent
  dsimp only
  rw [shiftRight_eq, targetExponent_eq]
  rcases hhigh.lt_or_eq with hlt | rfl
  · have hlog : m.log2 = 52 :=
      (Nat.log2_eq_iff (by have : 0 < fractions := by decide
                           omega)).mpr ⟨hlow, hlt⟩
    have hshift : (max ((m.log2 : Int) + t - 52) (-1074) - t).toNat = 0 := by omega
    rw [hshift]
    refine ⟨m, t, by simp [Nat.mod_one], ⟨hlow, hlt, ht, by omega⟩, rfl⟩
  · have hshift : (max (((2 * fractions).log2 : Int) + t - 52) (-1074) - t).toNat = 1 := by
      have hlog : (2 * fractions).log2 = 53 := by decide
      omega
    rw [hshift]
    refine ⟨fractions, t + 1, rfl, ⟨le_refl _, by decide, by omega, by omega⟩, ?_⟩
    have hfield : (t + 1 + 1074).toNat = (t + 1074).toNat + 1 := by omega
    rw [hfield]
    ring

lemma roundWithAccuracy_eq (negative : Bool) {t : Int} (ht : -1074 ≤ t) (ht' : t ≤ 970)
    (htarget : (m.log2 : Int) + e - 52 = t) (he : e ≤ t)
    (hlow : fractions ≤ nearestQuotient m (2 ^ (t - e).toNat))
    (hhigh : nearestQuotient m (2 ^ (t - e).toNat) ≤ 2 * fractions) :
    ∃ m' e', ∃ h : IsNormal m' e',
      roundWithAccuracy Format.binary64 (signOf negative) m e .exact =
        .finite (signOf negative) m' e' h.pos ∧
      (e' + 1074).toNat * fractions + m' =
        (t + 1074).toNat * fractions + nearestQuotient m (2 ^ (t - e).toNat) := by
  obtain ⟨m', e', hshift, hnormal, hfields⟩ := shiftToTargetExponent_rounded ht ht' hlow hhigh
  refine ⟨m', e', hnormal, ?_, hfields⟩
  have hfirst : shiftToTargetExponent Format.binary64 m e .exact =
      (ExtendedMantissa.ofMantissaAndAccuracy m .exact >>> (t - e).toNat, t) := by
    unfold shiftToTargetExponent shiftToExponent
    rw [targetExponent_eq, htarget, max_eq_left ht]
    refine Prod.ext rfl ?_
    show e + ((t - e).toNat : Int) = t
    omega
  unfold roundWithAccuracy
  rw [hfirst]
  dsimp only
  rw [roundedMantissa_shiftRight, hshift]
  dsimp only
  rw [dif_neg hnormal.pos.ne']

lemma log2_mul_two_pow (hn : n ≠ 0) (k : Nat) : (n * 2 ^ k).log2 = n.log2 + k := by
  induction k with
  | zero => rw [Nat.pow_zero, Nat.mul_one, Nat.add_zero]
  | succ k ih =>
    have hmul : n * 2 ^ (k + 1) = 2 * (n * 2 ^ k) := by ring
    rw [hmul, Nat.log2_two_mul (Nat.mul_ne_zero hn (Nat.two_pow_pos k).ne'), ih, Nat.add_assoc]

/-- **Rounding a whole number**, given as a multiple of a power of two, gives the nearest double. -/
lemma round_eq (negative : Bool) (hn : n ≠ 0) (hlarge : n.log2 ≤ 1000) (he : -52 ≤ e)
    (hvalue : m * 2 ^ (e + 52).toNat = n * fractions) :
    ∃ m' e', ∃ h : IsNormal m' e',
      UnpackedFloat.round Format.binary64 (signOf negative) m e =
        .finite (signOf negative) m' e' h.pos ∧
      (e' + 1074).toNat * fractions + m' = magnitudeOfNat n := by
  have hsize : fractions = 2 ^ 52 := rfl
  have hm : m ≠ 0 := by
    rintro rfl
    rw [Nat.zero_mul] at hvalue
    exact Nat.mul_ne_zero hn (by decide) hvalue.symm
  have hlog : (m.log2 : Int) + e = n.log2 := by
    have hlogs := congrArg Nat.log2 hvalue
    rw [hsize, log2_mul_two_pow hm, log2_mul_two_pow hn] at hlogs
    omega
  -- the exponent that is aimed at, and the shift to the left towards it
  obtain ⟨t, ht⟩ : ∃ t : Int, t = n.log2 - 52 := ⟨_, rfl⟩
  obtain ⟨a, ha⟩ : ∃ a : Nat, a = (e - t).toNat := ⟨_, rfl⟩
  have hquotient : nearestQuotient (m * 2 ^ a) (2 ^ (t - (e - a)).toNat) = significand n := by
    have hscale : m * 2 ^ a * 2 ^ (e - a + 52).toNat = n * fractions := by
      rw [Nat.mul_assoc, ← Nat.pow_add, ← hvalue]
      congr 2
      omega
    have hunit : 2 ^ (t - (e - a)).toNat * 2 ^ (e - a + 52).toNat = 2 ^ n.log2 := by
      rw [← Nat.pow_add]
      congr 1
      omega
    rw [← nearestQuotient_mul (Nat.two_pow_pos (e - a + 52).toNat), hscale, hunit, significand]
  obtain ⟨hlow, hhigh⟩ := significand_bounds hn
  have htarget : ((m * 2 ^ a).log2 : Int) + (e - a) - 52 = t := by
    rw [log2_mul_two_pow hm]
    push_cast
    omega
  obtain ⟨m', e', hnormal, hround, hfields⟩ :=
    roundWithAccuracy_eq negative (t := t) (by omega) (by omega) htarget (by omega)
      (hquotient ▸ hlow) (hquotient ▸ hhigh)
  refine ⟨m', e', hnormal, ?_, ?_⟩
  · rw [← hround]
    unfold UnpackedFloat.round decreaseExponent
    dsimp only
    rw [targetExponent_eq, hlog, max_eq_left (by omega), ← ht, ← ha, Nat.shiftLeft_eq]
  · rw [hfields, hquotient, magnitudeOfNat_eq hn]
    congr 2
    omega

/-! ## Doubles of integers -/

/-- **The nearest double of a positive number** has a significand and an exponent. -/
lemma exists_isNormal (hn : n ≠ 0) (hlarge : n.log2 ≤ 1000) :
    ∃ m e, IsNormal m e ∧ -52 ≤ e ∧
      magnitudeOfNat n = (e + 1074).toNat * fractions + m ∧
      m * 2 ^ (e + 52).toNat = nearestNat n * fractions := by
  obtain ⟨hlow, hhigh⟩ := significand_bounds hn
  rw [magnitudeOfNat_eq hn, nearestNat_mul_fractions]
  rcases hhigh.lt_or_eq with hlt | heq
  · refine ⟨significand n, n.log2 - 52, ⟨hlow, hlt, by omega, by omega⟩, by omega, ?_, ?_⟩
    · congr 2
      omega
    · congr 2
      omega
  · -- rounding carries into the next power of two
    refine ⟨fractions, n.log2 - 51, ⟨le_refl _, by decide, by omega, by omega⟩, by omega, ?_, ?_⟩
    · have hfield : ((n.log2 : Int) - 51 + 1074).toNat = n.log2 + 1022 + 1 := by omega
      rw [heq, hfield]
      ring
    · have hexponent : ((n.log2 : Int) - 51 + 52).toNat = n.log2 + 1 := by omega
      rw [heq, hexponent]
      ring

lemma toBits_ofInt (hlarge : i.natAbs.log2 ≤ 1000) :
    (ofInt i).toBits.toNat = signBits (i < 0) + magnitudeOfNat i.natAbs := by
  have hsign : signBit = 2048 * fractions := rfl
  have hsize : fractions = 2 ^ 52 := rfl
  have hbound : magnitudeOfNat i.natAbs ≤ 2024 * fractions := by
    rcases Nat.eq_zero_or_pos i.natAbs with h | h
    · rw [h]
      exact Nat.zero_le _
    · exact (magnitudeOfNat_bounds h.ne').2.trans (Nat.mul_le_mul_right _ (by omega))
  have hsum : signBits (i < 0) + magnitudeOfNat i.natAbs ≤ signBit + 2024 * fractions := by
    unfold signBits
    split <;> omega
  have hbits : (UInt64.ofNat (signBits (i < 0) + magnitudeOfNat i.natAbs)).toNat =
      signBits (i < 0) + magnitudeOfNat i.natAbs := by
    rw [UInt64.toNat_ofNat', Nat.mod_eq_of_lt]
    omega
  have hofInt : ofInt i =
      Float.ofBits (UInt64.ofNat (signBits (i < 0) + magnitudeOfNat i.natAbs)) := by
    simp only [ofInt, signBits, decide_eq_true_eq]
  have hfield : (signBits (i < 0) + magnitudeOfNat i.natAbs) / fractions % 2048 ≠ 2047 := by
    unfold signBits
    rw [hsize] at hbound ⊢
    rw [hsign, hsize]
    split <;> omega
  rw [hofInt, toBits_ofBits (by rwa [hbits]), hbits]

namespace IsNormal

variable {x : Float}

/-- The fields of a bit pattern. -/
lemma fields (h : IsNormal m e) {bits : Nat}
    (hbits : bits = signBits negative + ((e + 1074).toNat * fractions + m)) :
    bits / fractions % 2048 = (e + 1075).toNat ∧ fractions + bits % fractions = m ∧
      decide (signBit ≤ bits) = negative := by
  have hsize : fractions = 4503599627370496 := rfl
  have hsign : signBit = 9223372036854775808 := rfl
  obtain ⟨hlow, hhigh, hexponent, hexponent'⟩ := h
  unfold signBits at hbits
  rw [hsize] at hbits hlow hhigh ⊢
  rw [hsign] at hbits ⊢
  cases negative with
  | false =>
    rw [decide_eq_false_iff_not]
    rw [if_neg (by simp)] at hbits
    omega
  | true =>
    rw [decide_eq_true_iff]
    rw [if_pos rfl] at hbits
    omega

/-- **A normal double** is taken apart into its sign, its significand and its exponent. -/
lemma unpack_eq (h : IsNormal m e)
    (hbits : x.toBits.toNat = signBits negative + ((e + 1074).toNat * fractions + m)) :
    x.toModel.unpack = .finite (signOf negative) m e h.pos := by
  obtain ⟨hfield, hfraction, hsign⟩ := h.fields hbits
  have hexponent := h.le_exponent
  have hexponent' := h.exponent_le
  have hnormal := unpack_of_normal (b := x.toBits.toBitVec)
  simp only [UInt64.toNat_toBitVec, hfield, hfraction, hsign] at hnormal
  obtain ⟨hpos, hunpack⟩ := hnormal (by omega) (by omega)
  refine hunpack.trans ?_
  rw [UnpackedFloat.finite.injEq]
  exact ⟨rfl, rfl, by omega⟩

lemma isFinite_and_parts (h : IsNormal m e)
    (hbits : x.toBits.toNat = signBits negative + ((e + 1074).toNat * fractions + m)) :
    isFinite x ∧ parts x = ⟨negative, m, e⟩ := by
  obtain ⟨hfield, hfraction, hsign⟩ := h.fields hbits
  have hexponent := h.le_exponent
  have hexponent' := h.exponent_le
  have hzero : (e + 1075).toNat ≠ 0 := by omega
  unfold isFinite parts exponentField
  simp only [hfield, hfraction, hsign, if_neg hzero, decide_eq_true_eq, Parts.mk.injEq, true_and]
  omega

end IsNormal

/-- The integer that the double nearest to an integer stands for. -/
def nearest (i : Int) : Int :=
  if i < 0 then -(nearestNat i.natAbs : Int) else nearestNat i.natAbs

/-- **The nearest double is its own nearest double.** -/
lemma nearestNat_spec (hn : n ≠ 0) (hlarge : n.log2 ≤ 1000) :
    nearestNat n ≠ 0 ∧ magnitudeOfNat (nearestNat n) = magnitudeOfNat n ∧
      nearestNat (nearestNat n) = nearestNat n := by
  obtain ⟨m, e, hnormal, he, hmagnitude, hvalue⟩ := exists_isNormal hn hlarge
  have hsize : fractions = 2 ^ 52 := rfl
  have hne : nearestNat n ≠ 0 := by
    intro h
    rw [h, Nat.zero_mul] at hvalue
    exact (Nat.mul_pos hnormal.pos (Nat.two_pow_pos _)).ne' hvalue
  have hlog : (nearestNat n).log2 = (e + 52).toNat := by
    have hlogs := congrArg Nat.log2 hvalue
    rw [hsize, log2_mul_two_pow hnormal.pos.ne', log2_mul_two_pow hne, hnormal.log2_eq] at hlogs
    omega
  have hsignificand : significand (nearestNat n) = m := by
    rw [significand, hlog, ← hvalue, nearestQuotient_of_dvd (Nat.two_pow_pos _)]
  refine ⟨hne, ?_, ?_⟩
  · rw [magnitudeOfNat_eq hne, hsignificand, hlog, hmagnitude]
    congr 2
    omega
  · have hmul := nearestNat_mul_fractions (nearestNat n)
    rw [hsignificand, hlog, hvalue] at hmul
    exact Nat.eq_of_mul_eq_mul_right (by decide) hmul

lemma natAbs_nearest (i : Int) : (nearest i).natAbs = nearestNat i.natAbs := by
  unfold nearest
  split <;> omega

lemma nearest_neg_iff (hlarge : i.natAbs.log2 ≤ 1000) : nearest i < 0 ↔ i < 0 := by
  unfold nearest
  split
  · next h =>
    have hne := (nearestNat_spec (n := i.natAbs) (by omega) hlarge).1
    omega
  · next h => omega

/-- An integer and the double nearest to it become the same double. -/
lemma ofInt_nearest (hlarge : i.natAbs.log2 ≤ 1000) : ofInt (nearest i) = ofInt i := by
  unfold ofInt
  rw [natAbs_nearest]
  simp only [nearest_neg_iff hlarge]
  rcases eq_or_ne i 0 with rfl | hi
  · rfl
  · rw [(nearestNat_spec (Int.natAbs_ne_zero.mpr hi) hlarge).2.1]

lemma nearest_nearest (hlarge : i.natAbs.log2 ≤ 1000) : nearest (nearest i) = nearest i := by
  rcases eq_or_ne i 0 with rfl | hi
  · rfl
  · have hspec := (nearestNat_spec (Int.natAbs_ne_zero.mpr hi) hlarge).2.2
    have hsign := nearest_neg_iff hlarge
    rw [nearest, natAbs_nearest, hspec]
    simp only [hsign]
    rfl

/-! ## Addition -/

lemma toBits_add (x y : Float) : (x + y).toBits.toNat =
    (pack Format.binary64
      (UnpackedFloat.add Format.binary64 x.toModel.unpack y.toModel.unpack)).toNat :=
  rfl

/-- A double of an integer, taken apart. -/
lemma unpack_ofInt (hi : i ≠ 0) (hlarge : i.natAbs.log2 ≤ 1000) :
    ∃ m e, ∃ h : IsNormal m e, (ofInt i).toModel.unpack = .finite (signOf (i < 0)) m e h.pos ∧
      -52 ≤ e ∧ m * 2 ^ (e + 52).toNat = nearestNat i.natAbs * fractions := by
  obtain ⟨m, e, hnormal, he, hmagnitude, hvalue⟩ :=
    exists_isNormal (Int.natAbs_ne_zero.mpr hi) hlarge
  refine ⟨m, e, hnormal, hnormal.unpack_eq ?_, he, hvalue⟩
  rw [toBits_ofInt hlarge, hmagnitude]

lemma toNat_pack_round (negative : Bool) (hn : n ≠ 0) (hlarge : n.log2 ≤ 1000) (he : -52 ≤ e)
    (hvalue : m * 2 ^ (e + 52).toNat = n * fractions) :
    (pack Format.binary64 (UnpackedFloat.round Format.binary64 (signOf negative) m e)).toNat =
      signBits negative + magnitudeOfNat n := by
  obtain ⟨m', e', hnormal, hround, hfields⟩ := round_eq negative hn hlarge he hvalue
  rw [hround, hnormal.toNat_pack, hfields]

/-- Adding up two multiples of a power of two. -/
lemma toNat_pack_normalize {z : Int} (hlarge : i.natAbs.log2 ≤ 1000) (he : -52 ≤ e)
    (hvalue : z * 2 ^ (e + 52).toNat = i * fractions) :
    (pack Format.binary64 (UnpackedFloat.normalize Format.binary64 z e .positive)).toNat =
      signBits (i < 0) + magnitudeOfNat i.natAbs := by
  have hpos : (0 : Int) < 2 ^ (e + 52).toNat := by positivity
  have hfractions : (0 : Int) < fractions := by decide
  have habs : z.natAbs * 2 ^ (e + 52).toNat = i.natAbs * fractions := by
    have h := congrArg Int.natAbs hvalue
    rwa [Int.natAbs_mul, Int.natAbs_mul, Int.natAbs_pow] at h
  unfold UnpackedFloat.normalize
  rcases lt_trichotomy z 0 with hz | rfl | hz
  · have hi : i < 0 := by nlinarith
    have hround := toNat_pack_round true (n := i.natAbs) (m := (-z).toNat)
      (by omega) hlarge he (by rwa [show (-z).toNat = z.natAbs by omega])
    rw [compare_lt_iff_lt.mpr hz, decide_eq_true hi]
    exact hround
  · have hi : i = 0 := by
      rw [Int.zero_mul] at hvalue
      exact (Int.mul_eq_zero.mp hvalue.symm).resolve_right hfractions.ne'
    subst hi
    rfl
  · have hi : 0 < i := by nlinarith
    have hround := toNat_pack_round false (n := i.natAbs) (m := z.toNat)
      (by omega) hlarge he (by rwa [show z.toNat = z.natAbs by omega])
    rw [compare_gt_iff_gt.mpr hz, decide_eq_false (by omega)]
    exact hround

/-- The significand of a double, aligned to a smaller exponent. -/
lemma aligned_mul {p : Int} {e' : Int} (hp : nearest p = p) (he : e' ≤ e) (he' : -52 ≤ e')
    (hvalue : m * 2 ^ (e + 52).toNat = nearestNat p.natAbs * fractions) :
    (signOf (p < 0)).apply ((m <<< (e - e').toNat : Nat) : Int) * 2 ^ (e' + 52).toNat =
      p * fractions := by
  have hnat : (m <<< (e - e').toNat) * 2 ^ (e' + 52).toNat = p.natAbs * fractions := by
    have hshift : (e - e').toNat + (e' + 52).toNat = (e + 52).toNat := by omega
    rw [Nat.shiftLeft_eq, Nat.mul_assoc, ← Nat.pow_add, hshift, hvalue, ← natAbs_nearest, hp]
  have hint : ((m <<< (e - e').toNat : Nat) : Int) * 2 ^ (e' + 52).toNat =
      (p.natAbs : Int) * fractions := by exact_mod_cast hnat
  unfold signOf
  by_cases hneg : p < 0
  · rw [if_pos (decide_eq_true hneg)]
    show -((m <<< (e - e').toNat : Nat) : Int) * _ = _
    rw [Int.neg_mul, hint, show (p.natAbs : Int) = -p by omega, Int.neg_mul, Int.neg_neg]
  · rw [if_neg (by simpa using hneg)]
    show ((m <<< (e - e').toNat : Nat) : Int) * _ = _
    rw [hint, show (p.natAbs : Int) = p by omega]

lemma unpack_ofInt_zero : (ofInt 0).toModel.unpack = .zero .positive := rfl

lemma toNat_pack_unpack (x : Float) :
    (pack Format.binary64 x.toModel.unpack).toNat = x.toBits.toNat :=
  congrArg BitVec.toNat (pack_unpack_of_valid x.toModel.valid)

/-- Adding an integer to a zero of either sign. -/
lemma zero_add_ofInt {x : Float} {s : Sign} (hx : x.toModel.unpack = .zero s)
    (hlarge : i.natAbs.log2 ≤ 1000) : x + ofInt i = ofInt i := by
  refine eq_of_toBits ?_
  rw [toBits_add, hx, ← toNat_pack_unpack (ofInt i)]
  rcases eq_or_ne i 0 with rfl | hi
  · rw [unpack_ofInt_zero]
    cases s <;> rfl
  · obtain ⟨m, e, hnormal, hunpack, -⟩ := unpack_ofInt hi hlarge
    rw [hunpack]
    rfl

lemma ofInt_add_zero (hlarge : i.natAbs.log2 ≤ 1000) : ofInt i + ofInt 0 = ofInt i := by
  rcases eq_or_ne i 0 with rfl | hi
  · exact zero_add_ofInt unpack_ofInt_zero hlarge
  · refine eq_of_toBits ?_
    obtain ⟨m, e, hnormal, hunpack, -⟩ := unpack_ofInt hi hlarge
    rw [toBits_add, ← toNat_pack_unpack (ofInt i), hunpack, unpack_ofInt_zero]
    rfl

/-- **The sum of two integers** that have doubles of their own is the double nearest to their sum.
-/
theorem ofInt_add {p q : Int} (hp : nearest p = p) (hq : nearest q = q)
    (hlargep : p.natAbs.log2 ≤ 1000) (hlargeq : q.natAbs.log2 ≤ 1000)
    (hlarge : (p + q).natAbs.log2 ≤ 1000) : ofInt p + ofInt q = ofInt (p + q) := by
  rcases eq_or_ne p 0 with rfl | hpne
  · rw [zero_add_ofInt unpack_ofInt_zero hlargeq, Int.zero_add]
  rcases eq_or_ne q 0 with rfl | hqne
  · rw [ofInt_add_zero hlargep, Int.add_zero]
  obtain ⟨m, e, hnormal, hunpack, he, hvalue⟩ := unpack_ofInt hpne hlargep
  obtain ⟨m', e', hnormal', hunpack', he', hvalue'⟩ := unpack_ofInt hqne hlargeq
  refine eq_of_toBits ?_
  rw [toBits_add, toBits_ofInt hlarge, hunpack, hunpack']
  refine toNat_pack_normalize (e := min e e') hlarge (by omega) ?_
  rw [Int.add_mul, Int.add_mul, aligned_mul hp (min_le_left _ _) (by omega) hvalue,
    aligned_mul hq (min_le_right _ _) (by omega) hvalue']

/-! ## Integers again -/

/-- An integer with a sign and 64 bits, and the nearest of these for others. -/
def clampInt64 (i : Int) : Int := max minInt64 (min maxInt64 i)

/-- **What is read back** is the integer that the nearest double stands for, as far as it fits. -/
theorem toInt64Clamped_ofInt (hlarge : i.natAbs.log2 ≤ 1000) :
    toInt64Clamped (ofInt i) = clampInt64 (nearest i) := by
  rcases eq_or_ne i 0 with rfl | hi
  · have hfinite : isFinite (ofInt 0) := by decide
    have hparts : parts (ofInt 0) = ⟨false, 0, -1074⟩ := by rfl
    have htruncated : ∀ e, (Parts.mk false 0 e).truncated = 0 := fun e => by
      unfold Parts.truncated
      split <;> simp
    unfold toInt64Clamped
    rw [hparts]
    dsimp only
    rw [htruncated, if_pos hfinite]
    rfl
  obtain ⟨m, e, hnormal, he, hmagnitude, hvalue⟩ :=
    exists_isNormal (Int.natAbs_ne_zero.mpr hi) hlarge
  have hbits : (ofInt i).toBits.toNat =
      signBits (i < 0) + ((e + 1074).toNat * fractions + m) := by
    rw [toBits_ofInt hlarge, hmagnitude]
  obtain ⟨hfinite, hparts⟩ := hnormal.isFinite_and_parts hbits
  have htruncated : (Parts.mk (i < 0) m e).truncated = nearestNat i.natAbs := by
    have hsize : fractions = 2 ^ 52 := rfl
    unfold Parts.truncated
    dsimp only
    split
    · next hpos =>
      have hpow : 2 ^ (e + 52).toNat = 2 ^ e.toNat * fractions := by
        rw [hsize, ← Nat.pow_add]
        congr 1
        omega
      rw [hpow, ← Nat.mul_assoc] at hvalue
      exact Nat.eq_of_mul_eq_mul_right (by decide) hvalue
    · next hneg =>
      have hpow : fractions = 2 ^ (-e).toNat * 2 ^ (e + 52).toNat := by
        rw [hsize, ← Nat.pow_add]
        congr 1
        omega
      rw [hpow, ← Nat.mul_assoc] at hvalue
      rw [Nat.eq_of_mul_eq_mul_right (Nat.two_pow_pos _) hvalue]
      exact Nat.mul_div_cancel _ (Nat.two_pow_pos _)
  unfold toInt64Clamped clampInt64 nearest
  rw [hparts]
  dsimp only
  rw [htruncated, if_pos hfinite]
  simp only [decide_eq_true_eq]

end EntityFilter.Binary64
