import ExScript.Number.ReadBack
import ExScript.Proofs.FloatBits

/-!
# The integers that doubles reach

The largest double is the integer `largestDouble`.  Up to it, every integer has a finite double
nearest to it (`isFinite_ofInt`), and no finite double is cut to an integer beyond it
(`natAbs_truncate_le`).
-/

namespace ExScript.Number

/-- The value of the largest double, whose mantissa has 53 bits that are set. -/
def largestDouble : Nat := (2 ^ 53 - 1) * 2 ^ 971

theorem largestDouble_units : ∃ top, top = 2045 ∧
    largestDouble * unitsPerOne = (2 * leadingBit - 1) * Nat.pow 2 top :=
  ⟨2045, rfl, by decide +kernel⟩

/-- Rounding does not get past a natural number. -/
theorem roundedQuotient_le {num den k : Nat} (positive : 0 < den) (h : num ≤ k * den) :
    roundedQuotient num den ≤ k := by
  have hdiv : num / den ≤ k := Nat.div_le_of_le_mul (Nat.mul_comm k den ▸ h)
  rcases Nat.lt_or_eq_of_le hdiv with hlt | heq
  · unfold roundedQuotient
    dsimp only
    split <;> omega
  · have hnum : num = k * den :=
      Nat.le_antisymm h (heq ▸ Nat.div_mul_le_self num den)
    exact Nat.le_of_eq (hnum ▸ roundedQuotient_mul k positive)

/-- The scale is chosen such that 53 bits are left of the units. -/
theorem units_lt (units : Nat) :
    units < 2 * leadingBit * Nat.pow 2 (units.log2 - 52) := by
  by_cases hzero : units = 0
  · subst hzero
    exact Nat.mul_pos (by decide) (pow_two_pos _)
  · have hlog : units < 2 ^ (53 + (units.log2 - 52)) := (Nat.log2_lt hzero).mp (by omega)
    rwa [Nat.pow_add] at hlog

theorem log2_le_of_lt {units top : Nat} (h : units < 2 * leadingBit * Nat.pow 2 top) :
    units.log2 - 52 ≤ top := by
  by_cases hzero : units = 0
  · subst hzero
    exact Nat.zero_le _
  · have hpow : units < 2 ^ (53 + top) := by rwa [Nat.pow_add]
    have hlog := (Nat.log2_lt hzero).mpr hpow
    omega

theorem nearestBits_lt {n : Nat} (h : n ≤ largestDouble) : nearestBits n 1 < infinityBits := by
  obtain ⟨top, htop, hlargest⟩ := largestDouble_units
  have hunits : n * unitsPerOne ≤ (2 * leadingBit - 1) * Nat.pow 2 top :=
    hlargest ▸ Nat.mul_le_mul_right _ h
  have hbelow := units_lt (n * unitsPerOne)
  have hscale : (n * unitsPerOne).log2 - 52 ≤ top := by
    refine log2_le_of_lt (Nat.lt_of_le_of_lt hunits ?_)
    exact Nat.mul_lt_mul_of_pos_right (by decide) (pow_two_pos top)
  refine Nat.lt_of_le_of_lt (Nat.min_le_right _ _) ?_
  rw [Nat.div_one, Nat.one_mul]
  generalize (n * unitsPerOne).log2 - 52 = scale at *
  -- on the last scale alone rounding up to one bit more would give infinity
  rcases Nat.lt_or_eq_of_le hscale with hlt | rfl
  · have hle := roundedQuotient_le (pow_two_pos scale) (Nat.le_of_lt hbelow)
    simp only [leadingBit, infinityBits] at *
    omega
  · have hle := roundedQuotient_le (pow_two_pos scale) hunits
    simp only [leadingBit, infinityBits] at *
    omega

theorem isFinite_ofInt {n : Int} (h : n.natAbs ≤ largestDouble) : isFinite (ofInt n) = true :=
  isFinite_ofMagnitude _ (nearestBits_lt h)

theorem unitsOfBits_le {bits : Nat} (h : bits < infinityBits) :
    unitsOfBits bits ≤ largestDouble * unitsPerOne := by
  obtain ⟨top, htop, hlargest⟩ := largestDouble_units
  have hscale : scaleOfBits bits ≤ top := by
    rw [htop]
    simp only [scaleOfBits, leadingBit, infinityBits] at *
    omega
  rw [hlargest]
  exact Nat.mul_le_mul (Nat.le_sub_one_of_lt (mantissaOfBits_lt _))
    (Nat.pow_le_pow_right (by decide) hscale)

theorem natAbs_withSign (negative : Bool) (whole : Nat) :
    (if negative then -(Int.ofNat whole) else Int.ofNat whole).natAbs = whole := by
  cases negative with
  | false => rfl
  | true => exact Int.natAbs_neg whole

theorem natAbs_truncate (x : Float) :
    (truncate x).natAbs = unitsOfBits (magnitudeBits x) / unitsPerOne :=
  natAbs_withSign (isNegative x) (unitsOfBits (magnitudeBits x) / unitsPerOne)

theorem natAbs_truncate_le {x : Float} (h : isFinite x = true) :
    (truncate x).natAbs ≤ largestDouble := by
  rw [natAbs_truncate]
  refine Nat.div_le_of_le_mul ?_
  rw [Nat.mul_comm]
  exact unitsOfBits_le (of_decide_eq_true h)

end ExScript.Number
