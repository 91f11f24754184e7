import ExScript.Evaluation
import ExScript.Library.Default
import ExScript.Proofs.NumberTexts
import ExScript.Proofs.StandardLimits

/-!
# Conversions of texts to numbers

A conversion is strict if a text that spells a number gives this number and every other text gives
an error of the library, which a run turns into a fault of the language at the place of the call
(`Strict`).  The two conversions are strict on all texts but those on which the host crashes
(`conversions_strict_iff`): integers with too many zeros in front, and words with a letter that is
not ASCII.
-/

namespace ExScript.Number

/-! ## Leading zeros -/

theorem ofDigitChars_cons_zero (c : Char) (cs : List Char) :
    Nat.ofDigitChars 10 (c :: cs) 0 =
      10 ^ cs.length * (c.toNat - '0'.toNat) + Nat.ofDigitChars 10 cs 0 := by
  rw [Nat.ofDigitChars_cons, Nat.mul_zero, Nat.zero_add, Nat.ofDigitChars_eq_ofDigitChars_zero]

theorem ofDigitChars_lt {digits : List Char} (h : ∀ c ∈ digits, c.isDigit = true) :
    Nat.ofDigitChars 10 digits 0 < 10 ^ digits.length := by
  induction digits with
  | nil => simp
  | cons c cs ih =>
    have hc : c.toNat ≤ '9'.toNat := (Char.isDigit_iff_toNat.mp (h c List.mem_cons_self)).2
    have hle : 10 ^ cs.length * (c.toNat - '0'.toNat) ≤ 10 ^ cs.length * 9 :=
      Nat.mul_le_mul_left _ (Nat.sub_le_of_le_add hc)
    have hcs := ih fun d hd => h d (List.mem_cons_of_mem _ hd)
    rw [ofDigitChars_cons_zero, List.length_cons, Nat.pow_succ]
    omega

theorem le_ofDigitChars {c : Char} (cs : List Char) (hd : c.isDigit = true) (hc : c ≠ '0') :
    10 ^ cs.length ≤ Nat.ofDigitChars 10 (c :: cs) 0 := by
  have hne : c.toNat ≠ '0'.toNat := fun h => hc (Char.toNat_inj.mp h)
  have hpos : 1 ≤ c.toNat - '0'.toNat := by
    have := (Char.isDigit_iff_toNat.mp hd).1
    omega
  have hle := Nat.mul_le_mul_left (10 ^ cs.length) hpos
  rw [ofDigitChars_cons_zero]
  omega

theorem ofDigitChars_dropWhile_zero (cs : List Char) :
    Nat.ofDigitChars 10 (cs.dropWhile (· = '0')) 0 = Nat.ofDigitChars 10 cs 0 := by
  induction cs with
  | nil => rfl
  | cons c cs ih =>
    by_cases hc : c = '0'
    · subst hc
      rw [List.dropWhile_cons_of_pos (by simp), ih, ofDigitChars_cons_zero]
      simp
    · rw [List.dropWhile_cons_of_neg (by simpa using hc)]

namespace IntText

variable {t : IntText} {cs : List Char}

theorem SpelledBy.isDigitRun (h : t.SpelledBy cs) : IsDigitRun t.digits := by
  cases h with
  | intro _ hd => exact hd

theorem natAbs_value (t : IntText) : t.value.natAbs = Nat.ofDigitChars 10 t.digits 0 := by
  rw [value, signed]
  split
  · exact Int.natAbs_neg _
  · rfl

/-- A bound on the digits that count is a bound on the number. -/
theorem length_significant_le_iff (h : IsDigitRun t.digits) (k : Nat) :
    t.significant.length ≤ k ↔ t.value.natAbs < 10 ^ k := by
  rw [natAbs_value, ← ofDigitChars_dropWhile_zero]
  change t.significant.length ≤ k ↔ Nat.ofDigitChars 10 t.significant 0 < 10 ^ k
  have hdigits : ∀ c ∈ t.significant, c.isDigit = true := fun c hc =>
    h.digits c ((List.dropWhile_suffix _).subset hc)
  constructor
  · intro hk
    exact Nat.lt_of_lt_of_le (ofDigitChars_lt hdigits) (Nat.pow_le_pow_right (by decide) hk)
  · intro hlt
    by_contra hk
    cases hs : t.significant with
    | nil => simp [hs] at hk
    | cons c cs =>
      have hc : c ≠ '0' := by
        have hhead := List.head?_dropWhile_not (· = '0') t.digits
        rw [show t.digits.dropWhile (· = '0') = c :: cs from hs] at hhead
        simpa using hhead
      have hle := le_ofDigitChars cs (hdigits c (hs ▸ List.mem_cons_self)) hc
      have hpow : 10 ^ k ≤ 10 ^ cs.length :=
        Nat.pow_le_pow_right (by decide) (by simp [hs] at hk; omega)
      rw [hs] at hlt
      omega

theorem natAbs_lt_of_inIntRange (h : inIntRange t.value = true) :
    t.value.natAbs < 10 ^ Library.maxSignificant := by
  have hrange := inIntRange_iff.mp h
  simp only [minInt, maxInt] at hrange
  have : (10 : Nat) ^ Library.maxSignificant = 10000000000000000000 := rfl
  omega

end IntText

end ExScript.Number

namespace ExScript.Library

open Eval Number

variable {text : String} {v : Value}

/-! ## Strict conversions -/

/-- The text spells an integer in range. -/
inductive SpellsInt (text : String) : Value → Prop
  | intro {t : IntText} (h : t.SpelledBy text.toList) (hr : inIntRange t.value = true) :
    SpellsInt text (.int t.value)

inductive SpellsFloat (text : String) : Value → Prop
  | decimal {negative : Bool} {d : Decimal}
    (h : (FloatText.decimal negative d).SpelledBy text.toList) :
    SpellsFloat text (.float (d.toFloat negative))
  | word {negative : Bool} {w : FloatWord}
    (h : (FloatText.word negative w).SpelledBy text.toList) :
    SpellsFloat text (.float (w.toFloat negative))

/-- The text spells an integer with more digits than the host converts, but so many zeros in front
that it is not recognised as too large. -/
def Overlong (text : String) : Prop :=
  ∃ t : IntText, t.SpelledBy text.toList ∧ maxDigits < t.digits.length ∧
    t.value.natAbs < 10 ^ maxSignificant

/-- The text is a word but for a letter that is not ASCII. -/
def ForeignWord (text : String) : Prop := FloatText.foreignWord.SpelledBy text.toList

/-- All calls of a conversion in runs with the standard library end in this way.  The predicate is
given the place of the call, the machine with the call in its log, and how the call ends. -/
def CallEnds (method text : String)
    (P : Pos → Machine → EStateM.Result Interrupt Machine Unit → Prop) : Prop :=
  ∀ (env : Env) (frames : Nat) (pos : Pos) (m : Machine), env.library = standard →
    P pos { m with log := .methodCall "String" method 0 :: m.log }
      (callOn env (frames + 2) (.string text) method [] pos m)

/-- Values that are spelled are results, and everything else fails, and only in the language. -/
structure Strict (method : String) (f : LibraryMethod) (text : String) (Spelled : Value → Prop) :
    Prop where
  result : ∀ v, f (.string text) [] = .ok (some v) ↔ Spelled v
  error : (∀ v, ¬ Spelled v) → ∃ e, f (.string text) [] = .error (.error e)
  pushed : ∀ v, Spelled v → CallEnds method text fun _ m r =>
    r = .ok () { m with channel := v :: m.channel }
  fault : (∀ v, ¬ Spelled v) → ∃ cause : Cause, cause.category = .fault ∧
    CallEnds method text fun pos m r => r = .error (.abort (.failed ⟨cause, some pos⟩)) m

theorem callOn_string {method : String} {f : LibraryMethod}
    (hf : stringTable.find? method = some f) (env : Env) (frames : Nat) (pos : Pos) (m : Machine)
    (henv : env.library = standard) : callOn env (frames + 2) (.string text) method [] pos m =
      (callMethod f method (.string text) [] pos >>= pushResult)
        { m with log := .methodCall "String" method 0 :: m.log } := by
  have ht : standard.methods.find? (Value.string text).kind = some stringTable := rfl
  simp only [callOn, henv, ht, hf]
  rfl

/-- It is enough to know the results for the values that are spelled, and where there are none. -/
theorem strict_of_method {method : String} {f : LibraryMethod} {Spelled : Value → Prop}
    (hf : stringTable.find? method = some f)
    (hok : ∀ v, Spelled v → f (.string text) [] = .ok (some v))
    (herror : (∀ v, ¬ Spelled v) → ∃ e, f (.string text) [] = .error (.error e)) :
    Strict method f text Spelled where
  result v := by
    refine ⟨fun h => ?_, hok v⟩
    by_cases hv : ∃ w, Spelled w
    · obtain ⟨w, hw⟩ := hv
      cases h.symm.trans (hok w hw)
      exact hw
    · obtain ⟨e, he⟩ := herror (not_exists.mp hv)
      cases h.symm.trans he
  error := herror
  pushed v hv env frames pos m henv := by
    rw [callOn_string hf env frames pos m henv, callMethod, hok v hv]
    rfl
  fault hv := by
    obtain ⟨e, he⟩ := herror hv
    refine ⟨.methodFailed method e.message, rfl, fun env frames pos m henv => ?_⟩
    rw [callOn_string hf env frames pos m henv, callMethod, he]
    rfl

/-- A conversion on which the host crashes is not strict. -/
theorem Strict.not_crash {method : String} {f : LibraryMethod} {Spelled : Value → Prop}
    (h : Strict method f text Spelled) (c : Crash) : f (.string text) [] ≠ .error (.crash c) := by
  intro hc
  by_cases hv : ∃ v, Spelled v
  · obtain ⟨v, hv⟩ := hv
    cases hc.symm.trans ((h.result v).mpr hv)
  · obtain ⟨e, he⟩ := h.error (not_exists.mp hv)
    cases hc.symm.trans he

/-! ## Integers -/

theorem stringToInt_apply (text : String) : stringToInt (.string text) [] = readInt text := rfl

theorem readInt_overlong {t : IntText} (h : t.SpelledBy text.toList)
    (hlen : maxDigits < t.digits.length) (hvalue : t.value.natAbs < 10 ^ maxSignificant) :
    readInt text = .error (.crash (.tooManyDigits t.digits.length)) := by
  have hsig := Nat.not_lt.mpr ((IntText.length_significant_le_iff h.isDigitRun _).mpr hvalue)
  simp only [readInt, IntText.ofChars?_iff.mpr h, if_neg hsig, if_pos hlen]

theorem readInt_ok (h : ¬ Overlong text) (hv : SpellsInt text v) : readInt text = .ok (some v) := by
  obtain ⟨ht, hr⟩ := hv
  have hvalue := IntText.natAbs_lt_of_inIntRange hr
  have hsig := Nat.not_lt.mpr ((IntText.length_significant_le_iff ht.isDigitRun _).mpr hvalue)
  have hlen : ¬ maxDigits < _ := fun hlen => h ⟨_, ht, hlen, hvalue⟩
  simp only [readInt, IntText.ofChars?_iff.mpr ht, if_neg hsig, if_neg hlen, if_pos hr]

theorem readInt_error (h : ¬ Overlong text) (hv : ∀ v, ¬ SpellsInt text v) :
    readInt text = .error (.error (.notIntText text)) := by
  simp only [readInt]
  split
  · rfl
  next t ht =>
    have ht := IntText.ofChars?_iff.mp ht
    split
    · rfl
    next hsig =>
      have hvalue := (IntText.length_significant_le_iff ht.isDigitRun _).mp (Nat.not_lt.mp hsig)
      rw [if_neg fun hlen => h ⟨t, ht, hlen, hvalue⟩, if_neg fun hr => hv _ ⟨ht, hr⟩]

theorem strict_toInt_iff (text : String) :
    Strict "to_int" stringToInt text (SpellsInt text) ↔ ¬ Overlong text := by
  constructor
  · rintro hs ⟨t, ht, hlen, hvalue⟩
    exact hs.not_crash _ ((stringToInt_apply text).trans (readInt_overlong ht hlen hvalue))
  · intro h
    exact strict_of_method rfl (fun v => readInt_ok h) fun hv => ⟨_, readInt_error h hv⟩

/-! ## Doubles -/

theorem readFloat_foreignWord (h : ForeignWord text) :
    readFloat text = .error (.crash (.unreadableFloat (Text.quoted text))) := by
  simp only [readFloat, FloatText.ofChars?_iff.mpr h]

theorem readFloat_ok (hv : SpellsFloat text v) : readFloat text = .ok (some v) := by
  cases hv with
  | decimal h | word h => simp only [readFloat, FloatText.ofChars?_iff.mpr h]

theorem readFloat_error (h : ¬ ForeignWord text) (hv : ∀ v, ¬ SpellsFloat text v) :
    readFloat text = .error (.error (.notFloatText text)) := by
  simp only [readFloat]
  split
  · rfl
  next ht => exact absurd (.decimal (FloatText.ofChars?_iff.mp ht)) (hv _)
  next ht => exact absurd (.word (FloatText.ofChars?_iff.mp ht)) (hv _)
  next ht => exact absurd (FloatText.ofChars?_iff.mp ht) h

theorem strict_toFloat_iff (text : String) :
    Strict "to_float" stringToFloat text (SpellsFloat text) ↔ ¬ ForeignWord text := by
  constructor
  · intro hs h
    exact hs.not_crash _ (readFloat_foreignWord h)
  · intro h
    exact strict_of_method rfl (fun v => readFloat_ok) fun hv => ⟨_, readFloat_error h hv⟩

/-- Conversions of texts are strict but for the texts on which the host crashes. -/
theorem conversions_strict_iff (text : String) :
    (Strict "to_int" stringToInt text (SpellsInt text) ↔ ¬ Overlong text) ∧
      (Strict "to_float" stringToFloat text (SpellsFloat text) ↔ ¬ ForeignWord text) :=
  ⟨strict_toInt_iff text, strict_toFloat_iff text⟩

theorem ForeignWord.not_spelled (h : ForeignWord text) (v : Value) : ¬ SpellsFloat text v := by
  have hread := FloatText.ofChars?_iff.mpr h
  intro hv
  cases hv with
  | decimal hd => cases hread.symm.trans (FloatText.ofChars?_iff.mpr hd)
  | word hw => cases hread.symm.trans (FloatText.ofChars?_iff.mpr hw)

/-- As many zeros. -/
def zeros (n : Nat) : IntText := ⟨false, List.replicate n '0'⟩

theorem zeros_spelledBy (n : Nat) :
    (zeros (n + 1)).SpelledBy (String.ofList (List.replicate (n + 1) '0')).toList := by
  rw [String.toList_ofList]
  exact .intro .none (isDigitRun_zero.append_zeros n)

theorem value_zeros (n : Nat) : (zeros n).value = 0 := by
  rw [zeros, IntText.value, Nat.ofDigitChars_replicate_zero]
  rfl

theorem length_zeros (n : Nat) : (zeros n).digits.length = n := List.length_replicate

/-- A zero with 4301 digits is not read, and a word with a dotless letter is not refused. -/
theorem conversions_crash :
    let zero := String.ofList (List.replicate 4301 '0')
    let word := "\u0131nf"
    (SpellsInt zero (.int 0) ∧
      stringToInt (.string zero) [] = .error (.crash (.tooManyDigits 4301)) ∧
        ¬ Strict "to_int" stringToInt zero (SpellsInt zero)) ∧
      (∀ v, ¬ SpellsFloat word v) ∧
        stringToFloat (.string word) [] = .error (.crash (.unreadableFloat "'\u0131nf'")) ∧
          ¬ Strict "to_float" stringToFloat word (SpellsFloat word) := by
  intro zero word
  have hzero : (zeros 4301).SpelledBy zero.toList := zeros_spelledBy 4300
  have hlen : maxDigits < (zeros 4301).digits.length := by
    rw [length_zeros]
    decide
  have hvalue : (zeros 4301).value.natAbs < 10 ^ maxSignificant := by
    rw [value_zeros]
    decide
  have hspelled : SpellsInt zero (.int (zeros 4301).value) :=
    .intro hzero (by rw [value_zeros]; decide)
  have hcrash := (stringToInt_apply zero).trans (readInt_overlong hzero hlen hvalue)
  have hword : ForeignWord word := .foreignWord .none (.inf (by decide)) (by decide)
  rw [value_zeros] at hspelled
  rw [length_zeros] at hcrash
  have hquoted : Text.quoted word = "'\u0131nf'" := by decide +kernel
  refine ⟨⟨hspelled, hcrash, fun hs => ?_⟩, hword.not_spelled, ?_, fun hs => ?_⟩
  · exact (strict_toInt_iff zero).mp hs ⟨_, hzero, hlen, hvalue⟩
  · exact hquoted ▸ readFloat_foreignWord hword
  · exact (strict_toFloat_iff word).mp hs hword

end ExScript.Library
