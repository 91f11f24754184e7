import ExScript.Proofs.IntegerRange

/-!
# Powers of integers

A large exponent and a base without growth are settled without computing the power, and neither
changes the result: for an exponent that is not negative it is the power, checked against the range
(`power_eq_checkedInt`).  So `pow` is exact, and each of its refusals means one thing
(`pow_exact`).
-/

namespace ExScript.Library

variable {base exponent : Int}

/-! ## Growth -/

/-- An exponent that is refused on sight takes the power far out of the range. -/
theorem not_inRange_pow (hbase : 1 < base.natAbs) (hexponent : 64 < exponent) :
    ¬ InRange (base ^ exponent.toNat) := by
  have hlarge : 2 ^ 65 ≤ (base ^ exponent.toNat).natAbs := by
    rw [Int.natAbs_pow]
    calc 2 ^ 65 ≤ 2 ^ exponent.toNat := Nat.pow_le_pow_right (by decide) (by omega)
      _ ≤ base.natAbs ^ exponent.toNat := Nat.pow_le_pow_left hbase _
  rintro ⟨hmin, hmax⟩
  simp only [minInt, maxInt] at hmin hmax
  omega

theorem inRange_pow_of_natAbs_le_one (hbase : base.natAbs ≤ 1) (n : Nat) : InRange (base ^ n) := by
  have hsmall : (base ^ n).natAbs ≤ 1 := by
    rw [Int.natAbs_pow]
    exact pow_le_one₀ (Nat.zero_le _) hbase
  simp only [InRange, minInt, maxInt]
  omega

/-- A base without growth has no power but itself and one. -/
theorem pow_of_natAbs_le_one {n : Nat} (hbase : base.natAbs ≤ 1) (hn : n ≠ 0) :
    base ^ n = if base = -1 ∧ n % 2 = 0 then 1 else base := by
  have hcases : base = -1 ∨ base = 0 ∨ base = 1 := by omega
  rcases hcases with rfl | rfl | rfl
  · rcases Nat.mod_two_eq_zero_or_one n with heven | hodd
    · rw [if_pos ⟨rfl, heven⟩, (Nat.even_iff.mpr heven).neg_one_pow]
    · rw [if_neg (by omega), (Nat.odd_iff.mpr hodd).neg_one_pow]
  · simp [hn]
  · simp

/-! ## The method -/

theorem checkedInt_of_inRange {n : Int} (h : InRange n) : checkedInt n = .ok (some (.int n)) :=
  if_pos (inIntRange_iff.mpr h)

theorem checkedInt_of_not_inRange {n : Int} (h : ¬ InRange n) :
    checkedInt n = .error (.error .overflow) :=
  if_neg (mt inIntRange_iff.mp h)

/-- The shortcuts change nothing. -/
theorem power_eq_checkedInt (h : 0 ≤ exponent) :
    power base exponent = checkedInt (base ^ exponent.toNat) := by
  rw [power, if_neg (Int.not_lt.mpr h)]
  by_cases hbase : 1 < base.natAbs
  · rw [if_pos hbase]
    split
    next hexponent => rw [checkedInt_of_not_inRange (not_inRange_pow hbase hexponent)]
    next => rfl
  · have hsmall : base.natAbs ≤ 1 := Nat.le_of_not_lt hbase
    rw [if_neg hbase, checkedInt_of_inRange (inRange_pow_of_natAbs_le_one hsmall _)]
    split
    next hzero => simp [hzero]
    next hzero =>
      have heven : exponent.toNat % 2 = 0 ↔ exponent % 2 = 0 := by omega
      rw [pow_of_natAbs_le_one hsmall (by omega)]
      simp [heven]

theorem pow_of_neg (h : exponent < 0) :
    pow (.int base) [.int exponent] = .error (.error .negativeExponent) :=
  if_pos h

theorem pow_of_nonneg (h : 0 ≤ exponent) :
    pow (.int base) [.int exponent] = checkedInt (base ^ exponent.toNat) :=
  power_eq_checkedInt h

/-- The call is refused with this message. -/
def PowRefused (base exponent : Int) (message : String) : Prop :=
  ∃ e : LibraryError, pow (.int base) [.int exponent] = .error (.error e) ∧ e.message = message

theorem pow_eq_ok_iff {n : Int} : pow (.int base) [.int exponent] = .ok (some (.int n)) ↔
    0 ≤ exponent ∧ InRange (base ^ exponent.toNat) ∧ n = base ^ exponent.toNat := by
  rcases lt_or_ge exponent 0 with hneg | hnonneg
  · simp [pow_of_neg hneg, hneg]
  · by_cases hrange : InRange (base ^ exponent.toNat)
    · simp [pow_of_nonneg hnonneg, checkedInt_of_inRange hrange, hnonneg, hrange, eq_comm]
    · simp [pow_of_nonneg hnonneg, checkedInt_of_not_inRange hrange, hrange]

theorem powRefused_iff (message : String) : PowRefused base exponent message ↔
    (exponent < 0 ∧ message = "pow exponent must not be negative") ∨
      (0 ≤ exponent ∧ ¬ InRange (base ^ exponent.toNat) ∧ message = "integer overflow") := by
  have hnegative : LibraryError.negativeExponent.message = "pow exponent must not be negative" := rfl
  have hoverflow : LibraryError.overflow.message = "integer overflow" := rfl
  rcases lt_or_ge exponent 0 with hneg | hnonneg
  · simp [PowRefused, pow_of_neg hneg, hneg, Int.not_le.mpr hneg, hnegative, eq_comm]
  · by_cases hrange : InRange (base ^ exponent.toNat)
    · simp [PowRefused, pow_of_nonneg hnonneg, checkedInt_of_inRange hrange, hnonneg, hrange]
    · simp [PowRefused, pow_of_nonneg hnonneg, checkedInt_of_not_inRange hrange, hnonneg, hrange,
        hoverflow, eq_comm]

/-- A power is given if and only if the exponent is not negative and the power is in range. -/
theorem pow_exact (base exponent : Int) :
    (∀ n, pow (.int base) [.int exponent] = .ok (some (.int n)) ↔
      0 ≤ exponent ∧ InRange (base ^ exponent.toNat) ∧ n = base ^ exponent.toNat) ∧
    (PowRefused base exponent "pow exponent must not be negative" ↔ exponent < 0) ∧
    (PowRefused base exponent "integer overflow" ↔
      0 ≤ exponent ∧ ¬ InRange (base ^ exponent.toNat)) ∧
    ¬ (1 < base.natAbs ∧ 64 < exponent ∧ InRange (base ^ exponent.toNat)) := by
  refine ⟨fun n => pow_eq_ok_iff, ?_, ?_, fun ⟨hbase, hlarge, hrange⟩ =>
    not_inRange_pow hbase hlarge hrange⟩
  · simp [powRefused_iff]
  · simp [powRefused_iff]

/-- The range has one more integer below zero than above. -/
example : pow (.int (-2)) [.int 63] = .ok (some (.int minInt)) ∧
    PowRefused 2 63 "integer overflow" := ⟨rfl, ⟨_, rfl, rfl⟩⟩

end ExScript.Library
