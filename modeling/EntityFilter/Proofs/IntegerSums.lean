import EntityFilter.Aggregate
import EntityFilter.Proofs.AddedDoubles

/-!
# Sums of integers

The sum of a column of integers is an integer again, but it is taken over doubles: each integer is
rounded to a double, and so is the running sum after each addition (`Binary64.roundedSum`).  What
comes out at the end is the last running sum, clamped to 64 bits (`AggregateFunction.compute_sum`).

So the sum is exact if rounding changes none of the integers and none of the running sums, in
particular if their absolute values add up to `2 ^ 53` at most, and then the order of the column
does not count (`AggregateFunction.sum_exact_iff`).  The next integer already is no double
(`AggregateFunction.sum_not_always_exact`).

A running sum never leaves the doubles: as soon as it reaches `2 ^ 117`, an integer of 64 bits is
too small to change it.
-/

namespace EntityFilter

namespace Binary64

variable {i s : Int} {n k : Nat} {is : List Int}

/-! ## Bounds of what is rounded -/

/-- A power of two is a bound for the doubles of what it bounds. -/
lemma nearestNat_le (h : n ≤ 2 ^ k) : nearestNat n ≤ 2 ^ k := by
  rcases Nat.eq_zero_or_pos n with rfl | hn
  · exact Nat.zero_le _
  rcases Nat.lt_or_ge n.log2 k with hlog | hlog
  · have hmul := nearestNat_mul_fractions n
    have hbound : significand n * 2 ^ n.log2 ≤ 2 ^ (n.log2 + 1) * fractions := by
      rw [Nat.pow_succ, Nat.mul_assoc, Nat.mul_comm (2 ^ n.log2)]
      exact Nat.mul_le_mul_right _ (significand_bounds hn.ne').2
    rw [← hmul] at hbound
    exact (Nat.le_of_mul_le_mul_right hbound (by decide)).trans
      (Nat.pow_le_pow_right (by decide) hlog)
  · have hself : 2 ^ n.log2 ≤ n := Nat.log2_self_le hn.ne'
    have hpow : 2 ^ k ≤ 2 ^ n.log2 := Nat.pow_le_pow_right (by decide) hlog
    obtain rfl : n = 2 ^ k := by omega
    rcases Nat.lt_or_ge 52 k with hk | hk
    · have hsplit : 2 ^ k = 2 ^ 52 * 2 ^ (k - 52) := by
        rw [← Nat.pow_add, Nat.add_sub_cancel' hk.le]
      rw [nearestNat, Nat.log2_two_pow]
      conv_lhs => rw [hsplit, nearestQuotient_of_dvd (Nat.two_pow_pos _)]
      exact hsplit.ge
    · rw [nearestNat_of_le (by rwa [Nat.log2_two_pow])]

/-- Beyond `2 ^ 117` an integer of 64 bits is lost. -/
lemma nearestNat_le_of_le (h : n ≤ 2 ^ 117 + 2 ^ 63) : nearestNat n ≤ 2 ^ 117 := by
  rcases Nat.lt_or_ge (2 ^ 117) n with hlt | hle
  · have hlog : n.log2 = 117 := (Nat.log2_eq_iff (by omega)).mpr ⟨hlt.le, by omega⟩
    have hquotient : nearestQuotient n (2 ^ 65) = 2 ^ 52 := by
      unfold nearestQuotient
      rw [if_neg (by omega)]
      omega
    rw [nearestNat, hlog, hquotient]
    norm_num
  · exact nearestNat_le hle

lemma log2_le_of_natAbs_le (h : i.natAbs ≤ 2 ^ 117 + 2 ^ 63) : i.natAbs.log2 ≤ 1000 := by
  rcases Nat.eq_zero_or_pos i.natAbs with hi | hi
  · rw [hi]
    exact Nat.zero_le _
  · have hlog : i.natAbs.log2 < 118 := (Nat.log2_lt hi.ne').mpr (by omega)
    omega

/-! ## Running sums -/

/-- A running sum and the next integer, both rounded. -/
def addRounded (s i : Int) : Int := nearest (s + nearest i)

/-- The sum of integers that are rounded to doubles, and so is the sum after each addition. -/
def roundedSum (is : List Int) : Int := is.foldl addRounded 0

/-- What holds of every running sum: it is a double, and not too great a one. -/
structure IsRunningSum (s : Int) : Prop where
  nearest_eq : nearest s = s
  natAbs_le : s.natAbs ≤ 2 ^ 117

/-- **One addition** of an integer to a running sum. -/
lemma IsRunningSum.ofInt_add (hs : IsRunningSum s) (hi : i.natAbs ≤ 2 ^ 63) :
    IsRunningSum (addRounded s i) ∧ ofInt s + ofInt i = ofInt (addRounded s i) := by
  have hbound := hs.natAbs_le
  have hnearest : (nearest i).natAbs ≤ 2 ^ 63 := by
    rw [natAbs_nearest]
    exact nearestNat_le hi
  have hsum : (s + nearest i).natAbs ≤ 2 ^ 117 + 2 ^ 63 := by omega
  have hlargei : i.natAbs.log2 ≤ 1000 := log2_le_of_natAbs_le (by omega)
  have hlarge := log2_le_of_natAbs_le hsum
  refine ⟨⟨nearest_nearest hlarge, ?_⟩, ?_⟩
  · rw [addRounded, natAbs_nearest]
    exact nearestNat_le_of_le hsum
  · rw [addRounded, ofInt_nearest hlarge, ← ofInt_nearest hlargei]
    exact Binary64.ofInt_add hs.nearest_eq (nearest_nearest hlargei)
      (log2_le_of_natAbs_le (by omega)) (log2_le_of_natAbs_le (by omega)) hlarge

/-- **All additions**, one after the other. -/
lemma IsRunningSum.foldl_ofInt (hs : IsRunningSum s) (his : ∀ i ∈ is, i.natAbs ≤ 2 ^ 63) :
    IsRunningSum (is.foldl addRounded s) ∧
      (is.map ofInt).foldl (· + ·) (ofInt s) = ofInt (is.foldl addRounded s) := by
  induction is generalizing s with
  | nil => exact ⟨hs, rfl⟩
  | cons i is ih =>
    obtain ⟨hfirst, hrest⟩ := List.forall_mem_cons.mp his
    obtain ⟨hnext, hadd⟩ := hs.ofInt_add hfirst
    rw [List.map_cons, List.foldl_cons, List.foldl_cons, hadd]
    exact ih hnext hrest

/-- The sum of doubles starts at minus zero, which no integer notices. -/
lemma sumFloats_ofInt (hne : is ≠ []) (his : ∀ i ∈ is, i.natAbs ≤ 2 ^ 63) :
    AggregateFunction.sumFloats (is.map ofInt) = ofInt (roundedSum is) ∧
      IsRunningSum (roundedSum is) := by
  cases is with
  | nil => exact absurd rfl hne
  | cons i is =>
    have hminus : (-0.0 : Float).toModel.unpack = .zero .negative := rfl
    have hzero : IsRunningSum 0 := ⟨rfl, Nat.zero_le _⟩
    obtain ⟨hfirst, hrest⟩ := List.forall_mem_cons.mp his
    have hlarge : i.natAbs.log2 ≤ 1000 := log2_le_of_natAbs_le (by omega)
    obtain ⟨hnext, hadd⟩ := hzero.ofInt_add hfirst
    obtain ⟨hrunning, hfold⟩ := hnext.foldl_ofInt hrest
    rw [zero_add_ofInt unpack_ofInt_zero hlarge] at hadd
    refine ⟨?_, hrunning⟩
    rw [AggregateFunction.sumFloats, List.map_cons, List.foldl_cons, zero_add_ofInt hminus hlarge,
      hadd, hfold]
    rfl

/-- Rounding does not change an integer up to `2 ^ 53`. -/
lemma nearest_of_le (h : i.natAbs ≤ 2 ^ 53) : nearest i = i := by
  have hnat : nearestNat i.natAbs = i.natAbs := by
    rcases h.lt_or_eq with hlt | heq
    · rcases Nat.eq_zero_or_pos i.natAbs with hi | hi
      · rw [hi]
        rfl
      · exact nearestNat_of_le (Nat.lt_succ_iff.mp ((Nat.log2_lt hi.ne').mpr hlt))
    · rw [heq]
      decide
  unfold nearest
  rw [hnat]
  split <;> omega

lemma natAbs_sum_le (is : List Int) : is.sum.natAbs ≤ (is.map Int.natAbs).sum := by
  induction is with
  | nil => exact Nat.zero_le _
  | cons i is ih =>
    rw [List.sum_cons, List.map_cons, List.sum_cons]
    omega

lemma clampInt64_of_le (h : i.natAbs ≤ 2 ^ 53) : clampInt64 i = i := by
  unfold clampInt64 maxInt64 minInt64
  omega

/-- Integers whose absolute values add up to `2 ^ 53` at most are added exactly. -/
lemma foldl_addRounded_of_le (h : s.natAbs + (is.map Int.natAbs).sum ≤ 2 ^ 53) :
    is.foldl addRounded s = s + is.sum := by
  induction is generalizing s with
  | nil => simp
  | cons i is ih =>
    rw [List.map_cons, List.sum_cons] at h
    have hitem : nearest i = i := nearest_of_le (by omega)
    have hstep : addRounded s i = s + i := by
      rw [addRounded, hitem, nearest_of_le (by omega)]
    rw [List.foldl_cons, hstep, ih (by omega), List.sum_cons, Int.add_assoc]

end Binary64

namespace AggregateFunction

open Binary64

variable {values values' : List Document} {is : List Int}

/-! ## Columns of integers -/

lemma natAbs_le_of_isInt64 {i : Int} (h : (Document.int i).isInt64) : i.natAbs ≤ 2 ^ 63 := by
  simp only [Document.isInt64, Bool.and_eq_true, decide_eq_true_eq] at h
  simp only [minInt64, maxInt64] at h
  omega

lemma filterMap_asFloat?_int (is : List Int) :
    (is.map Document.int).filterMap Document.asFloat? = is.map ofInt := by
  rw [List.filterMap_map, ← List.filterMap_eq_map]
  rfl

/-- **The sum of a column of integers**, nulls among them. -/
lemma compute_sum (hvalues : values.filter (!·.isNull) = is.map .int)
    (hints : ∀ i ∈ is, (Document.int i).isInt64) (hne : is ≠ []) :
    sum.compute values = .int (clampInt64 (roundedSum is)) := by
  obtain ⟨htotal, hrunning⟩ :=
    sumFloats_ofInt hne fun i hi => natAbs_le_of_isInt64 (hints i hi)
  have hlarge : (roundedSum is).natAbs.log2 ≤ 1000 :=
    log2_le_of_natAbs_le (hrunning.natAbs_le.trans (by omega))
  have hall : (is.map Document.int).all Document.isInt64 := by
    rw [List.all_map]
    exact List.all_eq_true.mpr hints
  unfold compute
  dsimp only
  rw [hvalues, filterMap_asFloat?_int, hall]
  cases is with
  | nil => exact absurd rfl hne
  | cons i is =>
    show Document.int (toInt64Clamped (sumFloats ((i :: is).map ofInt))) = _
    rw [htotal, toInt64Clamped_ofInt hlarge, hrunning.nearest_eq]

lemma compute_sum_of_forall_isNull (hvalues : values.filter (!·.isNull) = []) :
    sum.compute values = .null := by
  unfold compute
  rw [hvalues]
  rfl

/-- A column in another order has the same integers in another order. -/
lemma exists_ints_of_perm (hvalues : values.filter (!·.isNull) = is.map .int)
    (hperm : values'.Perm values) :
    ∃ is' : List Int, values'.filter (!·.isNull) = is'.map .int ∧ is'.Perm is := by
  have hfilter : (values'.filter (!·.isNull)).Perm (is.map .int) := hvalues ▸ hperm.filter _
  exact (congr_fun₂ (List.eq_map_comp_perm Document.int) _ _).mpr hfilter

/-- **When a sum of integers is exact.**  The sum is the last of the running sums, each rounded to a
double, clamped to 64 bits; it is exact if this gives the exact sum.  Whatever the order and the
nulls among the values, this is so if the absolute values add up to `2 ^ 53` at most.  A column
without values has no sum. -/
theorem sum_exact_iff (hvalues : values.filter (!·.isNull) = is.map .int)
    (hints : ∀ i ∈ is, (Document.int i).isInt64) :
    (is = [] → sum.compute values = .null) ∧
    (is ≠ [] →
      sum.compute values = .int (clampInt64 (roundedSum is)) ∧
      (sum.compute values = .int is.sum ↔ clampInt64 (roundedSum is) = is.sum) ∧
      ((is.map Int.natAbs).sum ≤ 2 ^ 53 →
        ∀ values', values'.Perm values → sum.compute values' = .int is.sum)) := by
  refine ⟨fun hempty => compute_sum_of_forall_isNull (by rw [hvalues, hempty]; rfl), fun hne => ?_⟩
  have hsum := compute_sum hvalues hints hne
  refine ⟨hsum, by rw [hsum, Document.int.injEq], fun hsmall values' hperm => ?_⟩
  obtain ⟨is', hvalues', hsame⟩ := exists_ints_of_perm hvalues hperm
  have htotal : (is'.map Int.natAbs).sum ≤ 2 ^ 53 := (hsame.map _).sum_eq.trans_le hsmall
  have hrounded : roundedSum is' = is.sum := by
    rw [roundedSum, foldl_addRounded_of_le (by omega), hsame.sum_eq, Int.zero_add]
  have hnatAbs : is.sum.natAbs ≤ 2 ^ 53 := (natAbs_sum_le is).trans hsmall
  rw [compute_sum hvalues' (fun i hi => hints i (hsame.mem_iff.mp hi))
    (fun hnil => hne (List.perm_nil.mp (hnil ▸ hsame.symm))), hrounded,
    clampInt64_of_le hnatAbs]

/-- The greatest integer of 64 bits is the sum of itself: its double is too great, and clamped. -/
theorem sum_exact_iff_greatest :
    sum.compute [.null, .int 9223372036854775807] = .int 9223372036854775807 := by
  obtain ⟨-, hsum⟩ := @sum_exact_iff [.null, .int 9223372036854775807] [9223372036854775807] rfl
    (by decide)
  exact (hsum (by decide)).2.1.mpr (by decide)

/-- The first integer without a double of its own is not the sum of itself. -/
theorem sum_not_always_exact :
    ¬∀ (values : List Document) (is : List Int), values.filter (!·.isNull) = is.map .int →
      (∀ i ∈ is, (Document.int i).isInt64) → is ≠ [] → (Document.int is.sum).isInt64 →
      sum.compute values = .int is.sum := by
  intro h
  have hexact :=
    h [.int 9007199254740993] [9007199254740993] rfl (by decide) (by decide) (by decide)
  have hsum := @compute_sum [.int 9007199254740993] [9007199254740993] rfl (by decide) (by decide)
  rw [hsum, Document.int.injEq] at hexact
  exact absurd hexact (by decide)

/-- The order counts: one at a time, two ones are lost beside `2 ^ 53`. -/
example : roundedSum [9007199254740992, 1, 1] ≠ roundedSum [1, 1, 9007199254740992] := by
  decide

end AggregateFunction

end EntityFilter
