import ExScript.Number.FloatText
import ExScript.Number.ReadBack
import ExScript.Proofs.FloatBits

/-!
# Float literals read back

The positional spelling of a decimal has digits on both sides of the point and denotes the same
number (`positional_split`).  So the literal of a finite double with a clear sign bit reads back as
that double, bit by bit (`literalText?_split`).
-/

namespace ExScript.Number

/-- A run of ASCII digits that is not empty. -/
structure IsDigitRun (cs : List Char) : Prop where
  nonempty : cs ≠ []
  digits : ∀ c ∈ cs, c.isDigit = true

theorem isDigitRun_toDigits (n : Nat) : IsDigitRun (Nat.toDigits 10 n) :=
  ⟨Nat.toDigits_ne_nil, fun _ h => Nat.isDigit_of_mem_toDigits (by decide) (by decide) h⟩

theorem IsDigitRun.append_zeros {cs : List Char} (h : IsDigitRun cs) (k : Nat) :
    IsDigitRun (cs ++ List.replicate k '0') := by
  refine ⟨by simp [h.nonempty], fun c hc => ?_⟩
  rcases List.mem_append.mp hc with hc | hc
  · exact h.digits c hc
  · rw [List.eq_of_mem_replicate hc]; decide

theorem IsDigitRun.zeros_append {cs : List Char} (h : IsDigitRun cs) (k : Nat) :
    IsDigitRun (List.replicate k '0' ++ cs) := by
  refine ⟨by simp [h.nonempty], fun c hc => ?_⟩
  rcases List.mem_append.mp hc with hc | hc
  · rw [List.eq_of_mem_replicate hc]; decide
  · exact h.digits c hc

theorem IsDigitRun.noBreak {cs : List Char} (h : IsDigitRun cs) : '\n' ∉ cs := fun hmem =>
  absurd (h.digits _ hmem) (by decide)

theorem isDigitRun_zero : IsDigitRun ['0'] := ⟨List.cons_ne_nil _ _, by simp⟩

namespace Decimal

theorem sameValue_refl (d : Decimal) : d.SameValue d := rfl

theorem SameValue.symm {d e : Decimal} (h : d.SameValue e) : e.SameValue d := Eq.symm h

theorem SameValue.trans {d e f : Decimal} (h : d.SameValue e) (h' : e.SameValue f) :
    d.SameValue f := by
  unfold SameValue at *
  apply Nat.mul_right_cancel e.denominator_pos
  calc d.numerator * f.denominator * e.denominator
      = d.numerator * e.denominator * f.denominator := Nat.mul_right_comm ..
    _ = e.numerator * f.denominator * d.denominator := by rw [h, Nat.mul_right_comm]
    _ = f.numerator * d.denominator * e.denominator := by rw [h', Nat.mul_right_comm]

theorem ofDigits_integral (significand k : Nat) :
    (ofDigits (Nat.toDigits 10 significand ++ List.replicate k '0') ['0'] 0).SameValue
      ⟨significand, k⟩ := by
  have hsum :
      Nat.ofDigitChars 10 ((Nat.toDigits 10 significand ++ List.replicate k '0') ++ ['0']) 0 =
      significand * Nat.pow 10 (k + 1) := by
    rw [List.append_assoc, ← List.replicate_succ', Nat.ofDigitChars_append,
      Nat.ofDigitChars_ten_toDigits, Nat.ofDigitChars_replicate_zero, Nat.mul_comm]
    rfl
  have hexponent : (0 - (['0'].length : Nat) + (k + 1 : Nat) : Int) = k := by simp
  rw [ofDigits, hsum, ← hexponent]
  exact sameValue_mul_pow_ten significand (k + 1) _

theorem ofDigits_split {significand k : Nat} (h : k < (Nat.toDigits 10 significand).length) :
    let digits := Nat.toDigits 10 significand
    ofDigits (digits.take (digits.length - k)) (digits.drop (digits.length - k)) 0 =
      ⟨significand, -k⟩ := by
  simp only [ofDigits, List.take_append_drop, Nat.ofDigitChars_ten_toDigits, List.length_drop,
    Decimal.mk.injEq, true_and]
  omega

theorem ofDigits_small {significand k : Nat} (h : (Nat.toDigits 10 significand).length ≤ k) :
    let digits := Nat.toDigits 10 significand
    ofDigits ['0'] (List.replicate (k - digits.length) '0' ++ digits) 0 = ⟨significand, -k⟩ := by
  have hsum : Nat.ofDigitChars 10 (['0'] ++ (List.replicate
      (k - (Nat.toDigits 10 significand).length) '0' ++ Nat.toDigits 10 significand)) 0 =
        significand := by
    rw [Nat.ofDigitChars_append, Nat.ofDigitChars_append]
    simp [Nat.ofDigitChars_cons]
  simp only [ofDigits, hsum, List.length_append, List.length_replicate, Decimal.mk.injEq, true_and]
  omega

theorem positional_split (d : Decimal) : ∃ whole fraction,
    d.positional = whole ++ '.' :: fraction ∧ IsDigitRun whole ∧ IsDigitRun fraction ∧
      (ofDigits whole fraction 0).SameValue d := by
  obtain ⟨significand, exponent⟩ := d
  have hdigits := isDigitRun_toDigits significand
  cases exponent with
  | ofNat k =>
    refine ⟨_, ['0'], ?_, hdigits.append_zeros k, isDigitRun_zero,
      ofDigits_integral significand k⟩
    simp [positional]
  | negSucc k =>
    simp only [positional]
    split
    · next h =>
      have htake := List.take_subset ((Nat.toDigits 10 significand).length - (k + 1))
        (Nat.toDigits 10 significand)
      have hdrop := List.drop_subset ((Nat.toDigits 10 significand).length - (k + 1))
        (Nat.toDigits 10 significand)
      refine ⟨_, _, rfl, ⟨?_, fun c hc => hdigits.digits c (htake hc)⟩,
        ⟨?_, fun c hc => hdigits.digits c (hdrop hc)⟩, ofDigits_split h ▸ sameValue_refl _⟩
      · exact List.ne_nil_of_length_pos (by simp; omega)
      · exact List.ne_nil_of_length_pos (by simp; omega)
    · next h =>
      exact ⟨['0'], _, rfl, isDigitRun_zero, hdigits.zeros_append _,
        ofDigits_small (Nat.le_of_not_lt h) ▸ sameValue_refl _⟩

end Decimal

/-- The literal of a double reads back as that double. -/
theorem literalText?_split {x : Float} (hfinite : isFinite x = true)
    (hsign : isNegative x = false) :
    ∃ text whole fraction, literalText? x = some text ∧ text.toList = whole ++ '.' :: fraction ∧
      IsDigitRun whole ∧ IsDigitRun fraction ∧
        (Decimal.ofDigits whole fraction 0).bits < infinityBits ∧
          (Decimal.ofDigits whole fraction 0).toFloat false = x := by
  obtain ⟨whole, fraction, htext, hw, hf, hsame⟩ :=
    (shortest (magnitudeBits x)).positional_split
  have hm : magnitudeBits x < infinityBits := of_decide_eq_true hfinite
  have hbits := (Decimal.bits_congr hsame).trans (bits_shortest hm)
  refine ⟨_, whole, fraction, if_pos hfinite, ?_, hw, hf, hbits ▸ hm, ?_⟩
  · simpa [finiteText, hsign, signText] using htext
  · rw [Decimal.toFloat, hbits, ← hsign, ofMagnitude_magnitudeBits]

end ExScript.Number
