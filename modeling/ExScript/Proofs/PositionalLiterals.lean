import ExScript.Proofs.DisplayedFloats
import ExScript.Proofs.LexicalLayout

/-!
# Positional float literals

The literal of a finite double has no exponent, whatever its magnitude, but it denotes the same
number as the spelling with one (`literal_sameValue`).  It is a single lexeme, which the lexer reads
as the same bits (`literal_tokenizes`).  The sign stands in front of the literal of the opposite
double (`literalText?_neg`) and is not part of the lexeme.
-/

namespace ExScript

open Number

variable {x : Float}

/-- A run of digits, a point and another run are one lexeme up to the end of the line. -/
theorem Lexer.scanLine_float {whole fraction : List Char} (hw : IsDigitRun whole)
    (hf : IsDigitRun fraction) (hb : (Decimal.ofDigits whole fraction 0).bits < infinityBits)
    (line col : Nat) :
    scanLine line col 0 (whole ++ '.' :: fraction) =
      .ok [⟨.float ((Decimal.ofDigits whole fraction 0).toFloat false), line, col⟩,
        ⟨.ofMark .newline, line, (col + (whole ++ '.' :: fraction).length : Nat)⟩] := by
  obtain ⟨c, more, rfl⟩ := List.exists_cons_of_ne_nil hw.nonempty
  have hscan := (scan_float hw hf ends_nil hb).1
  rw [List.append_nil] at hscan
  have hcol : col + 1 + (more ++ '.' :: fraction).length =
      col + (c :: (more ++ '.' :: fraction)).length := by
    rw [List.length_cons]
    omega
  simp only [List.cons_append, scanLine, hscan, scanLine_rest, hcol]
  rfl

namespace Number

/-- The literal and the spelling that may have an exponent denote the same number. -/
theorem literal_sameValue (hfinite : isFinite x = true) (hsign : isNegative x = false) :
    ∃ text d e, literalText? x = some text ∧ Decimal.SpelledBy d text.toList ∧
      Decimal.SpelledBy e (exponentText x).toList ∧ d.SameValue e := by
  obtain ⟨d, hd, hdsame⟩ := (shortest (magnitudeBits x)).positional_spelledBy
  obtain ⟨e, he, hesame⟩ := (shortest (magnitudeBits x)).compact_spelledBy
  have hlist (layout : Decimal → List Char) :
      (finiteText layout x).toList = layout (shortest (magnitudeBits x)) := by
    simp [finiteText, hsign, signText]
  rw [exponentText, if_pos hfinite]
  exact ⟨_, d, e, if_pos hfinite, (hlist _).symm ▸ hd, (hlist _).symm ▸ he,
    hdsame.trans hesame.symm⟩

/-- The literal of a negative double is that of its opposite behind a minus. -/
theorem literalText?_neg (hfinite : isFinite x = true) (hsign : isNegative x = true) :
    ∃ text, literalText? (-x) = some text ∧ literalText? x = some ("-" ++ text) := by
  have hm : magnitudeBits x < infinityBits := of_decide_eq_true hfinite
  have hneg : -x = ofMagnitude false (magnitudeBits x) := by
    rw [neg_eq_ofMagnitude, hsign]
    rfl
  have hopposite : literalText? (-x) = some (finiteText Decimal.positional (-x)) := by
    rw [hneg]
    exact if_pos (isFinite_ofMagnitude false hm)
  refine ⟨_, hopposite, (if_pos hfinite).trans (congrArg some ?_)⟩
  apply String.toList_inj.mp
  simp [finiteText, hneg, hsign, isNegative_ofMagnitude false hm,
    magnitudeBits_ofMagnitude false hm, signText]

end Number

/-- The literal of a finite double with a clear sign bit has digits on both sides of a point and
nothing else, and is read as one lexeme, which is this double.  It denotes the same number as the
spelling with an exponent.  With the sign bit set, the literal is a minus in front of that of the
opposite double. -/
theorem literal_tokenizes (hfinite : isFinite x = true) :
    (isNegative x = false → ∃ text whole fraction, literalText? x = some text ∧
      text.toList = whole ++ '.' :: fraction ∧ IsDigitRun whole ∧ IsDigitRun fraction ∧
        tokenize text = .ok [⟨.float x, 1, 1⟩, ⟨.ofMark .newline, 1, (1 + text.length : Nat)⟩] ∧
          ∃ d e, Decimal.SpelledBy d text.toList ∧ Decimal.SpelledBy e (exponentText x).toList ∧
            d.SameValue e) ∧
      (isNegative x = true →
        ∃ text, literalText? (-x) = some text ∧ literalText? x = some ("-" ++ text)) := by
  refine ⟨fun hsign => ?_, literalText?_neg hfinite⟩
  obtain ⟨text, whole, fraction, htext, hsplit, hw, hf, hb, hx⟩ := literalText?_split hfinite hsign
  obtain ⟨text', d, e, htext', hsame⟩ := literal_sameValue hfinite hsign
  cases htext.symm.trans htext'
  refine ⟨text, whole, fraction, htext, hsplit, hw, hf, ?_, d, e, hsame⟩
  have hbreak : '\n' ∉ whole ++ '.' :: fraction := by
    simp [hw.noBreak, hf.noBreak]
  have hread := Lexer.scanLine_float hw hf hb 1 1
  rw [hx] at hread
  rw [← String.ofList_toList (s := text), hsplit, Lexer.tokenize_line hbreak, hread,
    String.length_ofList]
  rfl

/-- The double nearest to `10 ^ 22` and its opposite. -/
theorem literal_tokenizes_large :
    let x := ofMagnitude false 0x4480f0cf064dd592
    isFinite x = true ∧ exponentText x = "1e+22" ∧
      tokenize "10000000000000000000000.0" = .ok [⟨.float x, 1, 1⟩, ⟨.ofMark .newline, 1, 26⟩] ∧
        literalText? (-x) = some "-10000000000000000000000.0" := by
  intro x
  have hbits : 0x4480f0cf064dd592 < infinityBits := by decide
  have hfinite : isFinite x = true := isFinite_ofMagnitude false hbits
  have hsign : isNegative x = false := isNegative_ofMagnitude false hbits
  have htext : literalText? x = some "10000000000000000000000.0" := by decide +kernel
  obtain ⟨text, _, _, hliteral, _, _, _, hread, _⟩ := (literal_tokenizes hfinite).1 hsign
  cases htext.symm.trans hliteral
  have hneg : -x = ofMagnitude true 0x4480f0cf064dd592 := neg_ofMagnitude false hbits
  obtain ⟨text, hopposite, hminus⟩ := (literal_tokenizes (isFinite_ofMagnitude true hbits)).2
    (isNegative_ofMagnitude true hbits)
  rw [neg_ofMagnitude true hbits] at hopposite
  cases htext.symm.trans hopposite
  exact ⟨hfinite, by decide +kernel, hread, hneg ▸ hminus⟩

end ExScript
