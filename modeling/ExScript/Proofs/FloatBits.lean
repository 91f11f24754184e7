import ExScript.Number.Binary64
import Mathlib

/-!
# Bit patterns of finite doubles

A pattern below that of infinity, with or without the sign bit, is the pattern of exactly one double
(`toNat_toBits_ofMagnitude`), and any double comes back from its sign and its magnitude
(`ofMagnitude_magnitudeBits`).  Minus gives the double of the same magnitude and the other sign
(`neg_eq_ofMagnitude`).
-/

namespace ExScript.Number

open Float.Model UnpackedFloat

theorem isNaNBits_eq_false {bits : UInt64} (h : bits.toNat % signBit < infinityBits) :
    @isNaNBits .binary64 bits.toBitVec = false := by
  rw [isNaNBits, decide_eq_false_iff_not, unpackExponent_def]
  rintro ⟨hexp, _⟩
  have hn := congrArg BitVec.toNat hexp
  simp only [BitVec.extractLsb'_toNat, UInt64.toNat_toBitVec, Nat.shiftRight_eq_div_pow] at hn
  simp only [signBit, infinityBits] at h
  simp at hn
  omega

theorem toBits_ofBits {bits : UInt64} (h : bits.toNat % signBit < infinityBits) :
    (Float.ofBits bits).toBits = bits := by
  have hpack := @pack_unpack .binary64 bits.toBitVec
  rw [isNaNBits_eq_false h] at hpack
  exact UInt64.toBitVec_inj.mp hpack

variable {bits : Nat}

theorem toNat_toBits_ofMagnitude (negative : Bool) (h : bits < infinityBits) :
    (ofMagnitude negative bits).toBits.toNat = if negative then signBit + bits else bits := by
  have hsize : (if negative then signBit + bits else bits) < UInt64.size := by
    simp only [signBit, infinityBits, UInt64.size] at *
    split <;> omega
  have hmod : (if negative then signBit + bits else bits) % signBit = bits := by
    simp only [signBit, infinityBits] at *
    split <;> omega
  have hnat := UInt64.toNat_ofNat_of_lt' hsize
  rw [ofMagnitude, toBits_ofBits, hnat]
  rwa [hnat, hmod]

theorem magnitudeBits_ofMagnitude (negative : Bool) (h : bits < infinityBits) :
    magnitudeBits (ofMagnitude negative bits) = bits := by
  rw [magnitudeBits, toNat_toBits_ofMagnitude negative h]
  simp only [signBit, infinityBits] at *
  split <;> omega

theorem isNegative_ofMagnitude (negative : Bool) (h : bits < infinityBits) :
    isNegative (ofMagnitude negative bits) = negative := by
  rw [isNegative, toNat_toBits_ofMagnitude negative h]
  cases negative with
  | false => simp [signBit, infinityBits] at *; omega
  | true => simp

theorem isFinite_ofMagnitude (negative : Bool) (h : bits < infinityBits) :
    isFinite (ofMagnitude negative bits) = true := by
  rw [isFinite, magnitudeBits_ofMagnitude negative h]
  exact decide_eq_true h

/-- A double is put together from its sign and its magnitude. -/
theorem toNat_toBits (x : Float) :
    x.toBits.toNat = if isNegative x then signBit + magnitudeBits x else magnitudeBits x := by
  have hsize : x.toBits.toNat < 2 ^ 64 := x.toBits.toNat_lt
  cases hsign : isNegative x with
  | false =>
    have hlow := Nat.lt_of_not_le (of_decide_eq_false hsign)
    exact (Nat.mod_eq_of_lt hlow).symm
  | true =>
    have hhigh : signBit ≤ x.toBits.toNat := of_decide_eq_true hsign
    simp only [magnitudeBits, signBit, if_true] at *
    omega

theorem ofMagnitude_magnitudeBits (x : Float) :
    ofMagnitude (isNegative x) (magnitudeBits x) = x := by
  rw [ofMagnitude, ← toNat_toBits]
  simp

/-! ## The other sign -/

theorem sign_neg {s s' : BitVec 1} (h : s' ≠ s) : Sign.ofBitVec s' = -Sign.ofBitVec s := by
  rcases BitVec.eq_zero_or_eq_one s with rfl | rfl <;>
    rcases BitVec.eq_zero_or_eq_one s' with rfl | rfl
  all_goals first | exact absurd rfl h | rfl

/-- The sign bit stands apart from the exponent and the fraction. -/
theorem unpack_neg {bits bits' : UInt64} (hm : bits'.toNat % signBit = bits.toNat % signBit)
    (hs : bits'.toNat / signBit ≠ bits.toNat / signBit) :
    UnpackedFloat.unpack .binary64 bits'.toBitVec =
      (UnpackedFloat.unpack .binary64 bits.toBitVec).neg := by
  have hsize := bits.toNat_lt
  have hsize' := bits'.toNat_lt
  simp only [signBit] at hm hs
  have hfraction : @unpackMantissa .binary64 bits'.toBitVec =
      @unpackMantissa .binary64 bits.toBitVec := by
    apply BitVec.eq_of_toNat_eq
    simp only [unpackMantissa_def, BitVec.extractLsb'_toNat, UInt64.toNat_toBitVec,
      Nat.shiftRight_zero]
    omega
  have hexponent : @unpackExponent .binary64 bits'.toBitVec =
      @unpackExponent .binary64 bits.toBitVec := by
    apply BitVec.eq_of_toNat_eq
    simp only [unpackExponent_def, BitVec.extractLsb'_toNat, UInt64.toNat_toBitVec,
      Nat.shiftRight_eq_div_pow]
    omega
  have hsign : Sign.ofBitVec (@unpackSign .binary64 bits'.toBitVec) =
      -Sign.ofBitVec (@unpackSign .binary64 bits.toBitVec) := by
    refine sign_neg fun heq => ?_
    have hnat := congrArg BitVec.toNat heq
    simp only [unpackSign_def, BitVec.extractLsb'_toNat, UInt64.toNat_toBitVec,
      Nat.shiftRight_eq_div_pow] at hnat
    omega
  unfold UnpackedFloat.unpack
  simp only [hfraction, hexponent, hsign]
  split
  · split <;> rfl
  · split
    · split <;> rfl
    · rfl

/-- Minus changes the sign and nothing else. -/
theorem neg_eq_ofMagnitude (x : Float) : -x = ofMagnitude (!isNegative x) (magnitudeBits x) := by
  have hbits := toNat_toBits x
  have hlow : magnitudeBits x < signBit := Nat.mod_lt _ (by decide)
  have hsize : (if !isNegative x then signBit + magnitudeBits x else magnitudeBits x) <
      UInt64.size := by
    simp only [signBit, UInt64.size] at *
    split <;> omega
  have hflip := UInt64.toNat_ofNat_of_lt' hsize
  have hunpack : UnpackedFloat.unpack .binary64 (UInt64.ofNat
      (if !isNegative x then signBit + magnitudeBits x else magnitudeBits x)).toBitVec =
      (UnpackedFloat.unpack .binary64 x.toBits.toBitVec).neg := by
    apply unpack_neg
    all_goals
      rw [hflip, hbits]
      simp only [signBit] at *
      cases isNegative x <;> simp
  exact congrArg (fun u => Float.ofModel (Float.Model.pack u)) hunpack.symm

theorem neg_ofMagnitude (negative : Bool) (h : bits < infinityBits) :
    -ofMagnitude negative bits = ofMagnitude (!negative) bits := by
  rw [neg_eq_ofMagnitude, isNegative_ofMagnitude negative h, magnitudeBits_ofMagnitude negative h]

/-- A number equals itself. -/
theorem beq_self_of_not_isNaN {x : Float} (h : isNaN x = false) : (x == x) = true := by
  rw [Float.beq_iff_ne_nan_and_eq]
  have hne : x ≠ Float.nan := by
    rintro rfl
    exact absurd h (by decide)
  exact ⟨hne, hne, .inl rfl⟩

theorem isNaN_of_isFinite {x : Float} (h : isFinite x = true) : isNaN x = false :=
  decide_eq_false (Nat.lt_asymm (of_decide_eq_true h))

end ExScript.Number
