import ExScript.Number.Decimal

/-!
# Reading back what was written

`nearestBits` depends on the value of a quotient only, and decimals are read through it whatever
their exponents (`Decimal.bits_eq`), so that decimals of one value are read alike
(`Decimal.bits_congr`).  The shortest digits of a finite double read back as that double
(`bits_shortest`).
-/

namespace ExScript.Number

theorem pow_two_pos (n : Nat) : 0 < Nat.pow 2 n := Nat.pow_pos (by decide)

theorem pow_ten_pos (n : Nat) : 0 < Nat.pow 10 n := Nat.pow_pos (by decide)

theorem unitsPerOne_pos : 0 < unitsPerOne := pow_two_pos places

theorem pow_ten (n : Nat) : Nat.pow 10 n = Nat.pow 5 n * Nat.pow 2 n := Nat.mul_pow 5 2 n

/-! ## Rounding a quotient -/

theorem roundedQuotient_mul (n : Nat) {den : Nat} (positive : 0 < den) :
    roundedQuotient (n * den) den = n := by
  simp [roundedQuotient, Nat.mul_div_cancel _ positive, positive]

theorem roundedQuotient_cancel (num den : Nat) {factor : Nat} (positive : 0 < factor) :
    roundedQuotient (num * factor) (den * factor) = roundedQuotient num den := by
  have order : 2 * (num % den * factor) < den * factor ↔ 2 * (num % den) < den := by
    rw [← Nat.mul_assoc, Nat.mul_lt_mul_right positive]
  have tie : 2 * (num % den * factor) = den * factor ↔ 2 * (num % den) = den := by
    rw [← Nat.mul_assoc, Nat.mul_right_cancel_iff positive]
  simp only [roundedQuotient, Nat.mul_div_mul_right _ _ positive, Nat.mul_mod_mul_right, order, tie]

theorem nearestBits_cancel (num den : Nat) {factor : Nat} (positive : 0 < factor) :
    nearestBits (num * factor) (den * factor) = nearestBits num den := by
  have units : num * factor * unitsPerOne = num * unitsPerOne * factor := by ac_rfl
  have scaled (n : Nat) : den * factor * n = den * n * factor := by ac_rfl
  simp only [nearestBits, units, scaled, Nat.mul_div_mul_right _ _ positive,
    roundedQuotient_cancel _ _ positive]

/-- Only the value of the quotient counts. -/
theorem nearestBits_congr {num den num' den' : Nat} (positive : 0 < den) (positive' : 0 < den')
    (same : num * den' = num' * den) : nearestBits num den = nearestBits num' den' := by
  rw [← nearestBits_cancel num den positive', same, Nat.mul_comm den,
    nearestBits_cancel num' den' positive]

theorem nearestBits_zero (den : Nat) : nearestBits 0 den = 0 := by
  have rounded (n : Nat) : roundedQuotient 0 n = 0 := by
    simp [roundedQuotient, Nat.pos_iff_ne_zero, eq_comm]
  simp [nearestBits, rounded, show Nat.log2 0 = 0 from rfl]

theorem nearestBits_eq_zero {num den : Nat} (small : 2 * (num * unitsPerOne) < den) :
    nearestBits num den = 0 := by
  have below : num * unitsPerOne < den := by omega
  simp [nearestBits, roundedQuotient, Nat.div_eq_of_lt below, Nat.mod_eq_of_lt below, small]

theorem nearestBits_eq_infinityBits {num den : Nat}
    (large : 2099 ≤ (num * unitsPerOne / den).log2) : nearestBits num den = infinityBits := by
  refine Nat.min_eq_left (Nat.le_trans ?_ (Nat.le_add_right _ _))
  simp only [infinityBits, leadingBit]
  omega

/-- The scale of a double is the number of its bits beyond the first 53. -/
theorem log2_mul_pow_two {mantissa scale : Nat} (bound : mantissa < 2 * leadingBit)
    (normal : 0 < scale → leadingBit ≤ mantissa) :
    (mantissa * Nat.pow 2 scale).log2 - 52 = scale := by
  by_cases zero : mantissa = 0
  · subst zero
    cases scale with
    | zero => rfl
    | succ k => exact absurd (normal k.succ_pos) (by decide)
  have step := pow_two_pos scale
  have product := Nat.ne_of_gt (Nat.mul_pos (Nat.pos_of_ne_zero zero) step)
  have above : (mantissa * Nat.pow 2 scale).log2 < 53 + scale := by
    rw [Nat.log2_lt product, Nat.pow_add]
    exact Nat.mul_lt_mul_of_pos_right bound step
  cases scale with
  | zero => omega
  | succ k =>
    have below : 52 + (k + 1) ≤ (mantissa * Nat.pow 2 (k + 1)).log2 := by
      rw [Nat.le_log2 product, Nat.pow_add]
      exact Nat.mul_le_mul_right _ (normal k.succ_pos)
    omega

/-- A mantissa on its scale rounds to itself. -/
theorem nearestBits_exact {mantissa scale : Nat} (bound : mantissa < 2 * leadingBit)
    (normal : 0 < scale → leadingBit ≤ mantissa)
    (finite : scale * leadingBit + mantissa < infinityBits) :
    nearestBits (mantissa * Nat.pow 2 scale) unitsPerOne = scale * leadingBit + mantissa := by
  have regroup : mantissa * Nat.pow 2 scale * unitsPerOne =
      mantissa * (unitsPerOne * Nat.pow 2 scale) := by ac_rfl
  simp only [nearestBits, Nat.mul_div_cancel _ unitsPerOne_pos, log2_mul_pow_two bound normal]
  rw [regroup, roundedQuotient_mul _ (Nat.mul_pos unitsPerOne_pos (pow_two_pos scale))]
  exact Nat.min_eq_right (Nat.le_of_lt finite)

/-! ## Parts of a bit pattern -/

theorem mantissaOfBits_lt (bits : Nat) : mantissaOfBits bits < 2 * leadingBit := by
  simp only [mantissaOfBits, scaleOfBits, leadingBit]
  omega

theorem leadingBit_le_mantissaOfBits {bits : Nat} (h : 0 < scaleOfBits bits) :
    leadingBit ≤ mantissaOfBits bits := by
  simp only [mantissaOfBits, scaleOfBits, leadingBit] at *
  omega

theorem scaleOfBits_mul_add (bits : Nat) :
    scaleOfBits bits * leadingBit + mantissaOfBits bits = bits := by
  simp only [mantissaOfBits, scaleOfBits, leadingBit]
  omega

theorem nearestBits_unitsOfBits {bits : Nat} (finite : bits < infinityBits) :
    nearestBits (unitsOfBits bits) unitsPerOne = bits := by
  rw [unitsOfBits, nearestBits_exact (mantissaOfBits_lt bits) leadingBit_le_mantissaOfBits,
    scaleOfBits_mul_add]
  rwa [scaleOfBits_mul_add]

/-! ## Decimals -/

namespace Decimal

theorem denominator_pos (d : Decimal) : 0 < d.denominator := pow_ten_pos _

theorem two_pow_le_ten_pow : ∃ k ≤ 332, Nat.pow 2 (places + 4) ≤ Nat.pow 10 k :=
  ⟨332, by decide, by decide +kernel⟩

theorem two_pow_le_units : ∃ k ≤ 311, ∃ log ≥ 2099, Nat.pow 2 log ≤ Nat.pow 10 k * unitsPerOne :=
  ⟨311, by decide, 2099, by decide, by decide +kernel⟩

theorem lt_denominator {d : Decimal}
    (low : d.exponent < -331 - (d.significand.log2 / 3 : Nat)) :
    2 * (d.numerator * unitsPerOne) < d.denominator := by
  let third := d.significand.log2 / 3
  have whole : d.exponent.toNat = 0 := by omega
  have digits : third + 332 ≤ (-d.exponent).toNat := by omega
  have size : d.significand < Nat.pow 2 (3 * third + 3) :=
    Nat.lt_of_lt_of_le Nat.lt_log2_self (Nat.pow_le_pow_right (by decide) (by omega))
  have thirds : Nat.pow 2 (3 * third) ≤ Nat.pow 10 third :=
    Nat.le_trans (Nat.le_of_eq (Nat.pow_mul 2 3 third)) (Nat.pow_le_pow_left (by decide) third)
  have numerator : d.numerator = d.significand := by simp [numerator, whole]
  obtain ⟨k, few, enough⟩ := two_pow_le_ten_pow
  calc 2 * (d.numerator * unitsPerOne)
      < 2 * (Nat.pow 2 (3 * third + 3) * unitsPerOne) := by
        rw [numerator]
        exact Nat.mul_lt_mul_of_pos_left
          (Nat.mul_lt_mul_of_pos_right size unitsPerOne_pos) (by decide)
    _ = Nat.pow 2 (3 * third) * Nat.pow 2 (places + 4) := by
        simp only [unitsPerOne, Nat.pow_eq, Nat.pow_add]
        grind
    _ ≤ Nat.pow 10 third * Nat.pow 10 k := Nat.mul_le_mul thirds enough
    _ = Nat.pow 10 (third + k) := (Nat.pow_add 10 third k).symm
    _ ≤ d.denominator := Nat.pow_le_pow_right (by decide) (by omega)

theorem le_log2_numerator {d : Decimal} (positive : 0 < d.significand) (high : 310 < d.exponent) :
    2099 ≤ (d.numerator * unitsPerOne / d.denominator).log2 := by
  have whole : d.denominator = 1 := by
    have : (-d.exponent).toNat = 0 := by omega
    simp [denominator, this]
  obtain ⟨k, few, log, many, enough⟩ := two_pow_le_units
  have ten : Nat.pow 10 k ≤ d.numerator :=
    Nat.le_trans (Nat.pow_le_pow_right (by decide) (by omega))
      (Nat.le_mul_of_pos_left _ positive)
  have units := Nat.le_trans enough (Nat.mul_le_mul_right unitsPerOne ten)
  rw [whole, Nat.div_one]
  refine Nat.le_trans many ((Nat.le_log2 (Nat.ne_of_gt ?_)).2 units)
  exact Nat.lt_of_lt_of_le (pow_two_pos _) units

/-- The shortcuts for exponents far outside change nothing. -/
theorem bits_eq (d : Decimal) : d.bits = nearestBits d.numerator d.denominator := by
  rw [bits]
  split
  · next low =>
    rcases Nat.eq_zero_or_pos d.significand with zero | positive
    · have : d.numerator = 0 := by simp [numerator, zero]
      rw [this, nearestBits_zero]
    · have : d.exponent < -331 - (d.significand.log2 / 3 : Nat) := by
        simp only [Bool.or_eq_true, decide_eq_true_eq] at low
        omega
      rw [nearestBits_eq_zero (lt_denominator this)]
  · next inside =>
    have positive : 0 < d.significand := by
      simp only [Bool.or_eq_true, decide_eq_true_eq] at inside
      omega
    split
    · next high => rw [nearestBits_eq_infinityBits (le_log2_numerator positive high)]
    · rfl

/-- Both denote the same number. -/
def SameValue (d e : Decimal) : Prop := d.numerator * e.denominator = e.numerator * d.denominator

theorem bits_congr {d e : Decimal} (same : d.SameValue e) : d.bits = e.bits := by
  rw [bits_eq, bits_eq, nearestBits_congr d.denominator_pos e.denominator_pos same]

/-- Final zeros of the significand are the same as a larger exponent. -/
theorem sameValue_mul_pow_ten (significand zeros : Nat) (exponent : Int) :
    SameValue ⟨significand * Nat.pow 10 zeros, exponent⟩ ⟨significand, exponent + zeros⟩ := by
  have exponents : zeros + exponent.toNat + (-(exponent + zeros)).toNat =
      (exponent + zeros).toNat + (-exponent).toNat := by omega
  have powers := congrArg (Nat.pow 10) exponents
  simp only [Nat.pow_eq, Nat.pow_add] at powers
  simp only [SameValue, numerator, denominator, Nat.pow_eq, Nat.mul_assoc] at *
  rw [powers]

end Decimal

/-! ## The shortest digits -/

theorem bits_exactDecimal {bits : Nat} (finite : bits < infinityBits) :
    (exactDecimal bits).bits = bits := by
  rw [Decimal.bits_eq, ← nearestBits_unitsOfBits finite]
  refine nearestBits_congr (Decimal.denominator_pos _) unitsPerOne_pos ?_
  rw [nearestBits_unitsOfBits finite]
  have up : (-(places : Int)).toNat = 0 := by omega
  have down : (- -(places : Int)).toNat = places := by omega
  simp only [exactDecimal, Decimal.numerator, Decimal.denominator, up, down, pow_ten, unitsPerOne]
  simp [Nat.mul_assoc]

theorem bits_of_nearestOnGrid? {bits : Nat} {exponent : Int} {d : Decimal}
    (found : nearestOnGrid? bits exponent = some d) : d.bits = bits := by
  simp only [nearestOnGrid?] at found
  split at found
  · simp_all
  · split at found <;> simp_all

theorem bits_of_searchGrids {bits count : Nat} {coarsest : Int} {d : Decimal}
    (found : searchGrids bits count coarsest = some d) : d.bits = bits := by
  obtain ⟨k, _, here⟩ := List.exists_of_findSome?_eq_some found
  exact bits_of_nearestOnGrid? here

/-- The shortest digits read back. -/
theorem bits_shortest {bits : Nat} (finite : bits < infinityBits) :
    (shortest bits).bits = bits := by
  by_cases zero : bits = 0
  · subst zero; rfl
  rw [shortest, if_neg zero]
  cases found : searchGrids bits 20 (leadingExponent (unitsOfBits bits) + 1) with
  | none => exact bits_exactDecimal finite
  | some d => exact bits_of_searchGrids found

end ExScript.Number
