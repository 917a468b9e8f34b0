import EntityFilter.Number.Binary64
import Mathlib.Order.Compare
import Mathlib.Tactic.Ring

/-!
# Integers among the doubles

An integer is compared with another one through the doubles nearest to them, that is, through their
places in the order of the doubles.  Rounding keeps the order: a greater integer never has a lesser
place (`Binary64.keyOfInt_mono`).  So the doubles give the order of two integers whenever they are
different doubles (`Binary64.compare_keyOfInt`), and they are different for different integers up to
`2 ^ 53` (`Binary64.keyOfInt_inj`).  The next integer is the first that has no double of its own.

The magnitude of a positive integer is put together from the exponent, which is its binary length,
and from its leading 53 binary digits, where longer integers are divided by a power of two and the
quotient is rounded (`Binary64.nearestQuotient`).
-/

namespace EntityFilter.Binary64

variable {a b n unit : Nat}

/-- Doubles with the same bits are the same. -/
lemma eq_of_toBits {x y : Float} (h : x.toBits.toNat = y.toBits.toNat) : x = y := by
  obtain ⟨⟨a, ha⟩⟩ := x
  obtain ⟨⟨b, hb⟩⟩ := y
  obtain rfl : a = b := UInt64.toNat_inj.mp h
  rfl

/-! ## Rounded quotients -/

/-- The whole number nearest to a quotient; a tie goes to the even one. -/
def nearestQuotient (n unit : Nat) : Nat :=
  n / unit +
    if unit < 2 * (n % unit) ∨ (2 * (n % unit) = unit ∧ n / unit % 2 = 1) then 1 else 0

lemma le_nearestQuotient : n / unit ≤ nearestQuotient n unit := Nat.le_add_right _ _

lemma nearestQuotient_le : nearestQuotient n unit ≤ n / unit + 1 := by
  unfold nearestQuotient
  split <;> omega

lemma nearestQuotient_mono (h : a ≤ b) : nearestQuotient a unit ≤ nearestQuotient b unit := by
  rcases (Nat.div_le_div_right h : a / unit ≤ b / unit).lt_or_eq with hlt | heq
  · exact nearestQuotient_le.trans (hlt.trans_le le_nearestQuotient)
  · -- with equal quotients the remainders are in order
    have hrest : a % unit ≤ b % unit := by
      have ha := Nat.div_add_mod a unit
      have hb := Nat.div_add_mod b unit
      rw [heq] at ha
      omega
    unfold nearestQuotient
    rw [heq]
    split <;> split <;> omega

/-! ## Magnitudes -/

lemma magnitudeOfNat_of_le (hn : n ≠ 0) (he : n.log2 ≤ 52) :
    magnitudeOfNat n = (n.log2 + 1022) * fractions + n * 2 ^ (52 - n.log2) := by
  unfold magnitudeOfNat
  simp only [if_neg hn, if_pos he]
  rfl

lemma magnitudeOfNat_of_lt (hn : n ≠ 0) (he : 52 < n.log2) :
    magnitudeOfNat n =
      (n.log2 + 1022) * fractions + nearestQuotient n (2 ^ (n.log2 - 52)) := by
  unfold magnitudeOfNat
  simp only [if_neg hn, if_neg (Nat.not_le.mpr he), Nat.add_assoc]
  rfl

/-- The leading digits of a number of at most 53 digits. -/
lemma scaled_bounds (hn : n ≠ 0) (he : n.log2 ≤ 52) :
    fractions ≤ n * 2 ^ (52 - n.log2) ∧ n * 2 ^ (52 - n.log2) < 2 * fractions := by
  have hsplit : fractions = 2 ^ n.log2 * 2 ^ (52 - n.log2) := by
    rw [← Nat.pow_add, Nat.add_sub_cancel' he]
    rfl
  have hpos : 0 < 2 ^ (52 - n.log2) := Nat.two_pow_pos _
  have hlow : 2 ^ n.log2 ≤ n := Nat.log2_self_le hn
  have hhigh : n < 2 * 2 ^ n.log2 := by
    rw [← Nat.pow_succ']
    exact Nat.lt_log2_self
  rw [hsplit, ← Nat.mul_assoc]
  exact ⟨Nat.mul_le_mul_right _ hlow, Nat.mul_lt_mul_of_pos_right hhigh hpos⟩

/-- The leading digits of a longer number. -/
lemma quotient_bounds (hn : n ≠ 0) (he : 52 < n.log2) :
    fractions ≤ n / 2 ^ (n.log2 - 52) ∧ n / 2 ^ (n.log2 - 52) < 2 * fractions := by
  have hsplit : fractions * 2 ^ (n.log2 - 52) = 2 ^ n.log2 := by
    rw [show fractions = 2 ^ 52 from rfl, ← Nat.pow_add, Nat.add_sub_cancel' he.le]
  have hpos : 0 < 2 ^ (n.log2 - 52) := Nat.two_pow_pos _
  constructor
  · rw [Nat.le_div_iff_mul_le hpos, hsplit]
    exact Nat.log2_self_le hn
  · rw [Nat.div_lt_iff_lt_mul hpos, Nat.mul_assoc, hsplit, ← Nat.pow_succ']
    exact Nat.lt_log2_self

/-- **The exponent comes first**: magnitudes of numbers of different lengths do not overlap. -/
lemma magnitudeOfNat_bounds (hn : n ≠ 0) :
    (n.log2 + 1023) * fractions ≤ magnitudeOfNat n ∧
      magnitudeOfNat n ≤ (n.log2 + 1024) * fractions := by
  have hfield : (n.log2 + 1023) * fractions = (n.log2 + 1022) * fractions + fractions ∧
      (n.log2 + 1024) * fractions = (n.log2 + 1022) * fractions + 2 * fractions := by
    constructor <;> ring
  rcases Nat.lt_or_ge 52 n.log2 with he | he
  · obtain ⟨hlow, hhigh⟩ := quotient_bounds hn he
    have hfloor := @le_nearestQuotient n (2 ^ (n.log2 - 52))
    have hceil := @nearestQuotient_le n (2 ^ (n.log2 - 52))
    rw [magnitudeOfNat_of_lt hn he]
    omega
  · obtain ⟨hlow, hhigh⟩ := scaled_bounds hn he
    rw [magnitudeOfNat_of_le hn he]
    omega

lemma log2_mono (ha : a ≠ 0) (h : a ≤ b) : a.log2 ≤ b.log2 := by
  rw [Nat.le_log2 (by omega)]
  exact (Nat.log2_self_le ha).trans h

/-- **Rounding keeps the order.** -/
theorem magnitudeOfNat_mono (h : a ≤ b) : magnitudeOfNat a ≤ magnitudeOfNat b := by
  rcases Nat.eq_zero_or_pos a with rfl | ha
  · exact Nat.zero_le _
  have ha' : a ≠ 0 := by omega
  have hb' : b ≠ 0 := by omega
  rcases (log2_mono ha' h).lt_or_eq with hlt | heq
  · calc magnitudeOfNat a ≤ (a.log2 + 1024) * fractions := (magnitudeOfNat_bounds ha').2
      _ ≤ (b.log2 + 1023) * fractions := Nat.mul_le_mul_right _ (by omega)
      _ ≤ magnitudeOfNat b := (magnitudeOfNat_bounds hb').1
  · rcases Nat.lt_or_ge 52 a.log2 with he | he
    · rw [magnitudeOfNat_of_lt ha' he, magnitudeOfNat_of_lt hb' (heq ▸ he), heq]
      exact Nat.add_le_add_left (nearestQuotient_mono h) _
    · rw [magnitudeOfNat_of_le ha' he, magnitudeOfNat_of_le hb' (heq ▸ he), heq]
      exact Nat.add_le_add_left (Nat.mul_le_mul_right _ h) _

/-- Up to `2 ^ 53` nothing is rounded. -/
lemma magnitudeOfNat_lt (h : a < b) (hb : b ≤ 2 ^ 53) : magnitudeOfNat a < magnitudeOfNat b := by
  have hb' : b ≠ 0 := by omega
  rcases Nat.eq_zero_or_pos a with rfl | ha
  · have hpos : 0 < (b.log2 + 1023) * fractions := Nat.mul_pos (by omega) (by decide)
    exact hpos.trans_le (magnitudeOfNat_bounds hb').1
  have ha' : a ≠ 0 := by omega
  have hshort : a.log2 ≤ 52 := Nat.lt_succ_iff.mp ((Nat.log2_lt ha').mpr (h.trans_le hb))
  rcases (log2_mono ha' h.le).lt_or_eq with hlt | heq
  · calc magnitudeOfNat a < (a.log2 + 1024) * fractions := by
          have hsplit : (a.log2 + 1024) * fractions = (a.log2 + 1022) * fractions + 2 * fractions := by
            ring
          have hhigh := (scaled_bounds ha' hshort).2
          rw [magnitudeOfNat_of_le ha' hshort]
          omega
      _ ≤ (b.log2 + 1023) * fractions := Nat.mul_le_mul_right _ (by omega)
      _ ≤ magnitudeOfNat b := (magnitudeOfNat_bounds hb').1
  · rw [magnitudeOfNat_of_le ha' hshort, magnitudeOfNat_of_le hb' (heq ▸ hshort), heq]
    exact Nat.add_lt_add_left (Nat.mul_lt_mul_of_pos_right h (Nat.two_pow_pos _)) _

/-! ## Places of integers -/

variable {i j : Int}

/-- **A greater integer has no lesser place.** -/
theorem keyOfInt_mono (h : i ≤ j) : keyOfInt i ≤ keyOfInt j := by
  unfold keyOfInt
  split
  · next hi =>
    split
    · have hle : magnitudeOfNat j.natAbs ≤ magnitudeOfNat i.natAbs :=
        magnitudeOfNat_mono (by omega)
      omega
    · omega
  · next hi =>
    have hle : magnitudeOfNat i.natAbs ≤ magnitudeOfNat j.natAbs := magnitudeOfNat_mono (by omega)
    rw [if_neg (by omega)]
    omega

/-- **The doubles order two integers** as they are, unless these differ and have the same double. -/
theorem compare_keyOfInt (h : keyOfInt i = keyOfInt j → i = j) :
    compare (keyOfInt i) (keyOfInt j) = compare i j := by
  rcases lt_trichotomy i j with hlt | rfl | hgt
  · have hkey : keyOfInt i < keyOfInt j :=
      (keyOfInt_mono hlt.le).lt_of_ne fun heq => hlt.ne (h heq)
    rw [compare_lt_iff_lt.mpr hlt, compare_lt_iff_lt.mpr hkey]
  · rw [compare_eq_iff_eq.mpr rfl, compare_eq_iff_eq.mpr rfl]
  · have hkey : keyOfInt j < keyOfInt i :=
      (keyOfInt_mono hgt.le).lt_of_ne fun heq => hgt.ne' (h heq.symm)
    rw [compare_gt_iff_gt.mpr hgt, compare_gt_iff_gt.mpr hkey]

lemma keyOfInt_lt (hi : i.natAbs ≤ 2 ^ 53) (hj : j.natAbs ≤ 2 ^ 53) (h : i < j) :
    keyOfInt i < keyOfInt j := by
  unfold keyOfInt
  split
  · next hneg =>
    split
    · have hlt : magnitudeOfNat j.natAbs < magnitudeOfNat i.natAbs :=
        magnitudeOfNat_lt (by omega) hi
      omega
    · have hpos : magnitudeOfNat 0 < magnitudeOfNat i.natAbs := magnitudeOfNat_lt (by omega) hi
      omega
  · have hlt : magnitudeOfNat i.natAbs < magnitudeOfNat j.natAbs :=
      magnitudeOfNat_lt (by omega) hj
    rw [if_neg (by omega)]
    omega

/-- Up to `2 ^ 53` different integers have different doubles. -/
theorem keyOfInt_inj (hi : i.natAbs ≤ 2 ^ 53) (hj : j.natAbs ≤ 2 ^ 53)
    (h : keyOfInt i = keyOfInt j) : i = j := by
  rcases lt_trichotomy i j with hlt | rfl | hgt
  · exact absurd h (keyOfInt_lt hi hj hlt).ne
  · rfl
  · exact absurd h (keyOfInt_lt hj hi hgt).ne'

example : keyOfInt (2 ^ 53 + 1) = keyOfInt (2 ^ 53) := by decide

end EntityFilter.Binary64
