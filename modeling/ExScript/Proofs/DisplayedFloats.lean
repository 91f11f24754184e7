import ExScript.Proofs.DoubleRange
import ExScript.Proofs.TextConversions

/-!
# Displayed doubles read back

The display text of a double is a word, the digits of an integer, or the shortest digits with a point
or an exponent.  Each of these spells a number: a layout of a decimal spells a decimal that is read as
the same bits (`compact_spelledBy`), and the digits of a double without fraction are its exact value
(`bits_of_isIntegral`).  So every display text is converted to an equal double
(`display_reads_back`), of which only the sign of a zero may differ.
-/

namespace ExScript.Number

variable {x : Float}

/-! ## Layouts of a decimal -/

namespace Decimal

/-- The digits on both sides of a point, without an exponent. -/
theorem positional_spelledBy (d : Decimal) : ∃ e : Decimal, e.SpelledBy d.positional ∧
    e.SameValue d := by
  obtain ⟨whole, fraction, htext, hw, hf, hsame⟩ := d.positional_split
  have hspelled := SpelledBy.intro (.point hw hf.digits) .none
  rw [List.append_nil, ← htext] at hspelled
  exact ⟨_, hspelled, hsame⟩

/-- The exponent is written with its sign and at least two digits. -/
theorem exponent_spelledBy (n : Int) :
    let power := Nat.toDigits 10 n.natAbs
    ExponentPart ('e' :: (if n < 0 then '-' else '+') ::
      (List.replicate (2 - power.length) '0' ++ power)) n := by
  intro power
  have hdigits := (isDigitRun_toDigits n.natAbs).zeros_append (2 - power.length)
  have hsign : Sign (n < 0) [if n < 0 then '-' else '+'] := by
    by_cases hneg : n < 0
    · simpa [hneg] using Sign.minus
    · simpa [hneg] using Sign.plus
  have hexponent := ExponentPart.some (.inl rfl) (IntText.SpelledBy.intro hsign hdigits)
  have hvalue : IntText.value ⟨n < 0, List.replicate (2 - power.length) '0' ++ power⟩ = n := by
    have hpower := IntText.value_ofInt n
    simp only [IntText.ofInt, IntText.value] at hpower ⊢
    rwa [Nat.ofDigitChars_append, Nat.ofDigitChars_replicate_zero, Nat.mul_zero]
  rwa [hvalue] at hexponent

/-- One digit, which is there, and the others behind the point. -/
theorem scientific_spelledBy (d : Decimal) : d.SpelledBy d.scientific := by
  have hdigits := isDigitRun_toDigits d.significand
  have hvalue : Nat.ofDigitChars 10 (Nat.toDigits 10 d.significand) 0 = d.significand :=
    Nat.ofDigitChars_ten_toDigits
  have hexponent := exponent_spelledBy (d.pointPosition - 1)
  have hposition : d.pointPosition = (Nat.toDigits 10 d.significand).length + d.exponent := rfl
  unfold scientific
  generalize Nat.toDigits 10 d.significand = digits at *
  cases digits with
  | nil => exact absurd rfl hdigits.nonempty
  | cons c rest =>
    have hsplit : ofDigits [c] rest (d.pointPosition - 1) = d := by
      rw [ofDigits, List.singleton_append, hvalue, hposition, List.length_cons]
      congr 1
      omega
    have hc : IsDigitRun [c] := ⟨List.cons_ne_nil _ _, fun c' hc' =>
      hdigits.digits c' (List.mem_singleton.mp hc' ▸ List.mem_cons_self)⟩
    cases rest with
    | nil =>
      have hspelled := SpelledBy.intro (.integral hc) hexponent
      rwa [hsplit] at hspelled
    | cons c' rest =>
      have hrest : ∀ c'' ∈ c' :: rest, c''.isDigit = true := fun c'' h =>
        hdigits.digits c'' (List.mem_cons_of_mem c h)
      have hspelled := SpelledBy.intro (.point hc hrest) hexponent
      rwa [hsplit] at hspelled

theorem compact_spelledBy (d : Decimal) : ∃ e : Decimal, e.SpelledBy d.compact ∧
    e.SameValue d := by
  unfold compact
  split
  · exact d.positional_spelledBy
  · exact ⟨d, d.scientific_spelledBy, sameValue_refl d⟩

/-- The integer part of a double without fraction is its value. -/
theorem bits_of_isIntegral (h : isIntegral x = true) :
    bits ⟨(truncate x).natAbs, 0⟩ = magnitudeBits x := by
  obtain ⟨hfinite, hmod⟩ : isFinite x = true ∧ unitsOfBits (magnitudeBits x) % unitsPerOne = 0 := by
    simpa [isIntegral] using h
  have hunits : (truncate x).natAbs * unitsPerOne = unitsOfBits (magnitudeBits x) := by
    rw [natAbs_truncate]
    exact Nat.div_mul_cancel (Nat.dvd_of_mod_eq_zero hmod)
  calc bits ⟨(truncate x).natAbs, 0⟩
      = nearestBits (truncate x).natAbs 1 := by simp [bits_eq, numerator, denominator]
    _ = nearestBits ((truncate x).natAbs * unitsPerOne) (1 * unitsPerOne) :=
        (nearestBits_cancel _ 1 unitsPerOne_pos).symm
    _ = nearestBits (unitsOfBits (magnitudeBits x)) unitsPerOne := by rw [hunits, Nat.one_mul]
    _ = magnitudeBits x := nearestBits_unitsOfBits (of_decide_eq_true hfinite)

end Decimal

/-! ## Display texts -/

theorem same_self (x : Float) : (Value.float x).same (.float x) = true := by
  cases hnan : isNaN x with
  | true => simp [Value.same, hnan]
  | false => simp [Value.same, beq_self_of_not_isNaN hnan]

/-- Zero has no sign. -/
theorem same_zero (negative negative' : Bool) :
    (Value.float (ofMagnitude negative 0)).same (.float (ofMagnitude negative' 0)) = true := by
  cases negative <;> cases negative' <;> decide

/-- The sign of a double without fraction is that of its integer part, unless this is zero. -/
theorem truncate_neg_iff (h : truncate x ≠ 0) : truncate x < 0 ↔ isNegative x = true := by
  simp only [truncate, Int.ofNat_eq_natCast] at h ⊢
  generalize unitsOfBits (magnitudeBits x) / unitsPerOne = whole at *
  cases hsign : isNegative x with
  | false => simp
  | true =>
    simp only [hsign, if_true, iff_true] at h ⊢
    omega

theorem magnitudeBits_eq_infinityBits (hnan : isNaN x = false) (hfinite : isFinite x = false) :
    magnitudeBits x = infinityBits :=
  Nat.le_antisymm (Nat.le_of_not_lt (of_decide_eq_false hnan))
    (Nat.le_of_not_lt (of_decide_eq_false hfinite))

end ExScript.Number

namespace ExScript.Library

open Number

variable {x : Float}

theorem spellsFloat_infinite (hnan : isNaN x = false) (hfinite : isFinite x = false) :
    SpellsFloat (specialText x) (.float x) := by
  have hx := ofMagnitude_magnitudeBits x
  rw [magnitudeBits_eq_infinityBits hnan hfinite] at hx
  have hword : FloatWord.infinite.SpelledBy "inf".toList := .inf (by decide)
  cases hsign : isNegative x with
  | false =>
    have hspelled : SpellsFloat "inf" _ := .word (.word .none hword)
    rw [hsign] at hx
    simpa [specialText, hnan, hsign, FloatWord.toFloat, infinity, hx] using hspelled
  | true =>
    have hspelled : SpellsFloat "-inf" _ := .word (.word .minus hword)
    rw [hsign] at hx
    simpa [specialText, hnan, hsign, FloatWord.toFloat, infinity, hx] using hspelled

/-- The shortest digits, with a point or an exponent. -/
theorem spellsFloat_finite (hfinite : isFinite x = true) :
    SpellsFloat (finiteText Decimal.compact x) (.float x) := by
  obtain ⟨d, hd, hsame⟩ := (shortest (magnitudeBits x)).compact_spelledBy
  have hbits := (Decimal.bits_congr hsame).trans (bits_shortest (of_decide_eq_true hfinite))
  have hx : d.toFloat (isNegative x) = x := by
    rw [Decimal.toFloat, hbits, ofMagnitude_magnitudeBits]
  have htext : (finiteText Decimal.compact x).toList =
      signText (isNegative x) ++ (shortest (magnitudeBits x)).compact := String.toList_ofList
  have hspelled := FloatText.SpelledBy.decimal (sign_signText (isNegative x)) hd
  rw [← htext] at hspelled
  have hfloat := SpellsFloat.decimal hspelled
  rwa [hx] at hfloat

/-- The digits of an integer. -/
theorem spellsFloat_integer (n : Int) :
    SpellsFloat (toString n) (.float (Decimal.toFloat (n < 0) ⟨n.natAbs, 0⟩)) := by
  have hd := Decimal.SpelledBy.intro (.integral (isDigitRun_toDigits n.natAbs)) .none
  have hvalue : Decimal.ofDigits (Nat.toDigits 10 n.natAbs) [] 0 = ⟨n.natAbs, 0⟩ := by
    simp [Decimal.ofDigits]
  have htext := FloatText.SpelledBy.decimal (sign_signText (n < 0)) hd
  rw [hvalue, List.append_nil, ← toList_toString_int] at htext
  exact .decimal htext

/-- A double without fraction is the value of its integer part, but for the sign of a zero. -/
theorem same_truncate (h : isIntegral x = true) :
    (Value.float (Decimal.toFloat (truncate x < 0) ⟨(truncate x).natAbs, 0⟩)).same (.float x) =
      true := by
  have hbits := Decimal.bits_of_isIntegral h
  have hx := ofMagnitude_magnitudeBits x
  rw [Decimal.toFloat, hbits]
  -- a negative zero has no sign in front of its digits
  by_cases hzero : truncate x = 0
  · have hmagnitude : magnitudeBits x = 0 := by
      rw [← hbits, hzero]
      rfl
    rw [hmagnitude] at hx ⊢
    rw [← hx]
    exact same_zero _ _
  · have hsign : decide (truncate x < 0) = isNegative x := by
      rw [Bool.eq_iff_iff, decide_eq_true_iff]
      exact truncate_neg_iff hzero
    rw [hsign, hx]
    exact same_self x

/-- Every display text spells an equal double.  The cases are those of the display. -/
theorem spellsFloat_displayText (x : Float) :
    ∃ y, SpellsFloat (displayText x) (.float y) ∧ (Value.float y).same (.float x) = true := by
  unfold displayText
  split
  next hnan =>
    have hword : FloatWord.notANumber.SpelledBy "NaN".toList := .nan (by decide)
    refine ⟨nan, .word (.word .none hword), ?_⟩
    simp [Value.same, hnan, show Number.isNaN nan = true by decide]
  next hnan =>
    split
    next hintegral => exact ⟨_, spellsFloat_integer (truncate x), same_truncate hintegral⟩
    · unfold exponentText
      split
      next hfinite => exact ⟨x, spellsFloat_finite hfinite, same_self x⟩
      next hfinite =>
        have hinfinite := spellsFloat_infinite (by simpa using hnan) (by simpa using hfinite)
        exact ⟨x, hinfinite, same_self x⟩

/-- What is displayed for a double is converted to an equal double. -/
theorem display_reads_back (x : Float) : ∃ y,
    toStringMethod (.float x) [] = .ok (some (.string (displayText x))) ∧
      stringToFloat (.string (displayText x)) [] = .ok (some (.float y)) ∧
        (Value.float y).same (.float x) = true := by
  obtain ⟨y, hspelled, hsame⟩ := spellsFloat_displayText x
  exact ⟨y, rfl, readFloat_ok hspelled, hsame⟩

/-- The sign of a zero is not displayed, so nothing gives it back. -/
example : displayText (ofMagnitude true 0) = displayText (ofMagnitude false 0) := by decide +kernel

end ExScript.Library
