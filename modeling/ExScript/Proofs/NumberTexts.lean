import ExScript.Number.Reading
import ExScript.Proofs.Lexemes

/-!
# Texts that spell numbers

An integer is spelled by an optional sign and ASCII digits, a double by an optional sign and decimal
notation or a word.  The readers accept these texts and no others, and they find the sign, the
digits and the exponent where they are (`IntText.ofChars?_iff`, `FloatText.ofChars?_iff`), but for
one more sort of text: words with a letter that is not ASCII but folds to `i`.
-/

namespace ExScript.Number

/-! ## Spelling -/

/-- An optional sign. -/
inductive Sign : Bool → List Char → Prop
  | none : Sign false []
  | plus : Sign false ['+']
  | minus : Sign true ['-']

/-- The sign and the digits of an integer. -/
inductive IntText.SpelledBy : IntText → List Char → Prop
  | intro {negative : Bool} {sign digits : List Char} (hs : Sign negative sign)
    (hd : IsDigitRun digits) : SpelledBy ⟨negative, digits⟩ (sign ++ digits)

/-- Digits with or without a point, at least one of them, apart from the point. -/
inductive Mantissa : List Char → List Char → List Char → Prop
  | integral {whole : List Char} (hw : IsDigitRun whole) : Mantissa whole whole []
  | point {whole fraction : List Char} (hw : IsDigitRun whole)
    (hf : ∀ c ∈ fraction, c.isDigit = true) : Mantissa (whole ++ '.' :: fraction) whole fraction
  | fraction {fraction : List Char} (hf : IsDigitRun fraction) :
    Mantissa ('.' :: fraction) [] fraction

/-- The exponent at the end of a decimal, which may be missing. -/
inductive ExponentPart : List Char → Int → Prop
  | none : ExponentPart [] 0
  | some {mark : Char} {text : List Char} {t : IntText} (hm : mark = 'e' ∨ mark = 'E')
    (ht : t.SpelledBy text) : ExponentPart (mark :: text) t.value

inductive Decimal.SpelledBy : Decimal → List Char → Prop
  | intro {text whole fraction exponent : List Char} {n : Int} (hm : Mantissa text whole fraction)
    (he : ExponentPart exponent n) : SpelledBy (ofDigits whole fraction n) (text ++ exponent)

/-- A word in any case of its letters, which are ASCII. -/
inductive FloatWord.SpelledBy : FloatWord → List Char → Prop
  | inf {cs : List Char} (h : cs.map Char.toLower = "inf".toList) : SpelledBy infinite cs
  | infinity {cs : List Char} (h : cs.map Char.toLower = "infinity".toList) :
    SpelledBy infinite cs
  | nan {cs : List Char} (h : cs.map Char.toLower = "nan".toList) : SpelledBy notANumber cs

/-- The letters of other alphabets that fold to `i` are replaced by it. -/
def asLatin (c : Char) : Char := if c = '\u0130' ∨ c = '\u0131' then 'i' else c

inductive FloatText.SpelledBy : FloatText → List Char → Prop
  | decimal {negative : Bool} {sign cs : List Char} {d : Decimal} (hs : Sign negative sign)
    (hd : d.SpelledBy cs) : SpelledBy (.decimal negative d) (sign ++ cs)
  | word {negative : Bool} {sign cs : List Char} {w : FloatWord} (hs : Sign negative sign)
    (hw : w.SpelledBy cs) : SpelledBy (.word negative w) (sign ++ cs)
  | foreignWord {negative : Bool} {sign cs : List Char} {w : FloatWord} (hs : Sign negative sign)
    (hw : w.SpelledBy (cs.map asLatin)) (hf : cs.map asLatin ≠ cs) :
    SpelledBy .foreignWord (sign ++ cs)

variable {cs sign body rest : List Char} {negative : Bool}

/-! ## Signs and digits -/

/-- The text does not begin with a sign. -/
def Unsigned (cs : List Char) : Prop := ∀ c ∈ cs.head?, c ≠ '+' ∧ c ≠ '-'

theorem splitSign_append (hs : Sign negative sign) (hb : Unsigned body) :
    splitSign (sign ++ body) = (negative, body) := by
  cases hs with
  | plus | minus => rfl
  | none =>
    rw [List.nil_append]
    unfold splitSign
    split
    · exact absurd rfl (hb '+' rfl).1
    · exact absurd rfl (hb '-' rfl).2
    · rfl

theorem sign_splitSign (cs : List Char) :
    ∃ sign, Sign (splitSign cs).1 sign ∧ cs = sign ++ (splitSign cs).2 := by
  unfold splitSign
  split
  · exact ⟨_, .plus, rfl⟩
  · exact ⟨_, .minus, rfl⟩
  · exact ⟨_, .none, rfl⟩

theorem isDigits_iff : isDigits cs = true ↔ IsDigitRun cs := by
  rw [isDigits, Bool.and_eq_true, List.all_eq_true]
  refine ⟨fun h => ⟨?_, h.2⟩, fun h => ⟨?_, h.digits⟩⟩
  · rintro rfl
    simp at h
  · simpa using h.nonempty

theorem unsigned_of_digit (h : ∀ c ∈ cs.head?, c.isDigit = true) : Unsigned cs := by
  intro c hc
  constructor
  all_goals
    rintro rfl
    exact absurd (h _ hc) (by decide)

theorem IsDigitRun.head (h : IsDigitRun cs) (rest : List Char) :
    ∃ c ∈ (cs ++ rest).head?, c.isDigit = true := by
  cases cs with
  | nil => exact absurd rfl h.nonempty
  | cons c cs => exact ⟨c, rfl, h.digits c List.mem_cons_self⟩

theorem IsDigitRun.unsigned (h : IsDigitRun cs) : Unsigned cs :=
  unsigned_of_digit fun c hc => h.digits c (List.mem_of_mem_head? hc)

theorem IntText.ofChars?_iff {t : IntText} : ofChars? cs = some t ↔ t.SpelledBy cs := by
  constructor
  · intro h
    obtain ⟨sign, hs, hcs⟩ := sign_splitSign cs
    simp only [ofChars?, Option.ite_none_right_eq_some, Option.some.injEq] at h
    obtain ⟨hd, rfl⟩ := h
    have ht := SpelledBy.intro hs (isDigits_iff.mp hd)
    rwa [← hcs] at ht
  · rintro ⟨hs, hd⟩
    simp [ofChars?, splitSign_append hs hd.unsigned, isDigits_iff.mpr hd]

theorem sign_signText (negative : Bool) : Sign negative (signText negative) := by
  cases negative with
  | false => exact .none
  | true => exact .minus

/-- The text of an integer is a sign if it needs one and the digits of its magnitude. -/
theorem toList_toString_int (n : Int) :
    (toString n).toList = signText (n < 0) ++ Nat.toDigits 10 n.natAbs := by
  cases n with
  | ofNat n => exact String.toList_ofList
  | negSucc n =>
    show (Int.repr (Int.negSucc n)).toList = _
    simp [Int.repr, signText, Nat.repr]

/-- The sign and the digits in the text of an integer. -/
def IntText.ofInt (n : Int) : IntText := ⟨n < 0, Nat.toDigits 10 n.natAbs⟩

theorem IntText.spelledBy_ofInt (n : Int) : (ofInt n).SpelledBy (toString n).toList := by
  rw [toList_toString_int]
  exact .intro (sign_signText _) (isDigitRun_toDigits _)

theorem IntText.value_ofInt (n : Int) : (ofInt n).value = n := by
  simp only [ofInt, value, signed, Nat.ofDigitChars_ten_toDigits, decide_eq_true_eq]
  split <;> omega

/-! ## Decimal notation -/

theorem readExponent?_iff {n : Int} : readExponent? cs = some n ↔ ExponentPart cs n := by
  cases cs with
  | nil =>
    refine ⟨fun h => ?_, fun h => ?_⟩
    · cases h
      exact .none
    · cases h
      rfl
  | cons c rest =>
    constructor
    · intro h
      simp only [readExponent?] at h
      split at h
      next hc =>
        obtain ⟨t, ht, rfl⟩ := Option.map_eq_some_iff.mp h
        exact .some (by simpa using hc) (IntText.ofChars?_iff.mp ht)
      · exact absurd h nofun
    · intro h
      cases h with
      | some hm ht => simp [readExponent?, hm, IntText.ofChars?_iff.mpr ht]

/-- What follows the digits of a decimal is neither a digit nor a point. -/
theorem ExponentPart.head {n : Int} (h : ExponentPart cs n) :
    ∀ c ∈ cs.head?, c.isDigit = false ∧ c ≠ '.' := by
  cases h with
  | none => exact nofun
  | some hm _ =>
    rintro c ⟨⟩
    rcases hm with rfl | rfl <;> decide

theorem readDecimal?_integral (hw : IsDigitRun body) {n : Int} (he : ExponentPart rest n) :
    readDecimal? (body ++ rest) = some (Decimal.ofDigits body [] n) := by
  have htake := Lexer.takeWhile_run hw.digits fun c hc => (he.head c hc).1
  have hdrop := Lexer.dropWhile_run hw.digits fun c hc => (he.head c hc).1
  simp only [readDecimal?, htake, hdrop]
  split
  next more _ => exact absurd rfl (he.head '.' rfl).2
  · simp [hw.nonempty, readExponent?_iff.mpr he]

theorem readDecimal?_point {whole fraction : List Char} (hw : ∀ c ∈ whole, c.isDigit = true)
    (hf : ∀ c ∈ fraction, c.isDigit = true) (hne : ¬ (whole = [] ∧ fraction = [])) {n : Int}
    (he : ExponentPart rest n) :
    readDecimal? (whole ++ '.' :: fraction ++ rest) = some (Decimal.ofDigits whole fraction n) := by
  have hpoint : ∀ c ∈ ('.' :: (fraction ++ rest)).head?, c.isDigit = false := by
    rintro c ⟨⟩
    decide
  have htake := Lexer.takeWhile_run hf fun c hc => (he.head c hc).1
  have hdrop := Lexer.dropWhile_run hf fun c hc => (he.head c hc).1
  rw [List.append_assoc, List.cons_append]
  simp only [readDecimal?, Lexer.takeWhile_run hw hpoint, Lexer.dropWhile_run hw hpoint, htake,
    hdrop]
  simp [hne, readExponent?_iff.mpr he]

theorem isDigit_of_mem_takeWhile {c : Char} (h : c ∈ cs.takeWhile Char.isDigit) :
    c.isDigit = true :=
  List.all_eq_true.mp List.all_takeWhile c h

theorem Mantissa.of_point {whole fraction : List Char} (hw : ∀ c ∈ whole, c.isDigit = true)
    (hf : ∀ c ∈ fraction, c.isDigit = true) (hne : ¬ (whole = [] ∧ fraction = [])) :
    Mantissa (whole ++ '.' :: fraction) whole fraction := by
  cases whole with
  | nil => exact .fraction ⟨fun h => hne ⟨rfl, h⟩, hf⟩
  | cons c whole => exact .point ⟨List.cons_ne_nil c whole, hw⟩ hf

theorem readDecimal?_sound {d : Decimal} (h : readDecimal? cs = some d) : d.SpelledBy cs := by
  have hcs := List.takeWhile_append_dropWhile (p := Char.isDigit) (l := cs)
  have hwhole : ∀ c ∈ cs.takeWhile Char.isDigit, c.isDigit = true :=
    fun _ => isDigit_of_mem_takeWhile
  simp only [readDecimal?] at h
  split at h
  next more hmore =>
    have hd := List.takeWhile_append_dropWhile (p := Char.isDigit) (l := more)
    simp only [Bool.and_eq_true, List.isEmpty_iff, Option.ite_none_left_eq_some,
      Option.map_eq_some_iff] at h
    obtain ⟨hne, n, he, rfl⟩ := h
    have hm := Mantissa.of_point hwhole (fun _ => isDigit_of_mem_takeWhile) hne
    have := Decimal.SpelledBy.intro hm (readExponent?_iff.mp he)
    rwa [List.append_assoc, List.cons_append, hd, ← hmore, hcs] at this
  next =>
    simp only [List.isEmpty_nil, Bool.and_true, List.isEmpty_iff, Option.ite_none_left_eq_some,
      Option.map_eq_some_iff] at h
    obtain ⟨hne, n, he, rfl⟩ := h
    have hd := Decimal.SpelledBy.intro (.integral ⟨hne, hwhole⟩) (readExponent?_iff.mp he)
    rwa [hcs] at hd

theorem readDecimal?_iff {d : Decimal} : readDecimal? cs = some d ↔ d.SpelledBy cs := by
  refine ⟨readDecimal?_sound, fun ⟨hm, he⟩ => ?_⟩
  cases hm with
  | integral hw => exact readDecimal?_integral hw he
  | point hw hf => exact readDecimal?_point hw.digits hf (fun h => hw.nonempty h.1) he
  | fraction hf =>
    exact readDecimal?_point (List.forall_mem_nil _) hf.digits (fun h => hf.nonempty h.2) he

/-! ## Words -/

theorem asLatin_of_not {c : Char} (h : ¬ (c = '\u0130' ∨ c = '\u0131')) : asLatin c = c := if_neg h

/-- Whatever folds to a letter does so by its case or as a letter of another alphabet. -/
theorem foldsTo_iff {letter c : Char} (h : asLatin letter = letter) :
    foldsTo letter c = true ↔ (asLatin c).toLower = letter := by
  by_cases hc : c = '\u0130' ∨ c = '\u0131'
  · have hne : c.toLower ≠ letter := by
      rintro rfl
      rcases hc with rfl | rfl <;> exact absurd h (by decide)
    simp only [foldsTo, hne, asLatin, if_pos hc]
    simpa [hc] using eq_comm
  · simp [foldsTo, asLatin_of_not hc, not_or.mp hc]

theorem foldsToWord_iff {word : List Char} (h : word.map asLatin = word) (cs : List Char) :
    foldsToWord word cs = true ↔ (cs.map asLatin).map Char.toLower = word := by
  induction word generalizing cs with
  | nil => cases cs <;> simp [foldsToWord]
  | cons letter word ih =>
    obtain ⟨hl, hw⟩ := List.cons.inj h
    cases cs with
    | nil => simp [foldsToWord]
    | cons c cs => simp [foldsToWord, foldsTo_iff hl, ih hw]

theorem FloatWord.ofChars?_iff {w : FloatWord} :
    ofChars? cs = some w ↔ w.SpelledBy (cs.map asLatin) := by
  have hinf := foldsToWord_iff (show "inf".toList.map asLatin = _ by decide) cs
  have hinfinity := foldsToWord_iff (show "infinity".toList.map asLatin = _ by decide) cs
  have hnan := foldsToWord_iff (show "nan".toList.map asLatin = _ by decide) cs
  constructor
  · intro h
    simp only [ofChars?, Bool.or_eq_true, hinf, hinfinity, hnan] at h
    split at h
    next h' =>
      cases h
      exact h'.elim .inf .infinity
    · split at h
      next h' =>
        cases h
        exact .nan h'
      · exact absurd h nofun
  · rintro (h | h | h)
    · rw [ofChars?, hinf.mpr h, Bool.true_or, if_pos rfl]
    · rw [ofChars?, hinfinity.mpr h, Bool.or_true, if_pos rfl]
    · rw [ofChars?, if_neg, if_pos (hnan.mpr h)]
      rw [Bool.or_eq_true, hinf, hinfinity, h]
      decide

theorem toNat_lt_of_toLower {c : Char} (h : c.toLower.toNat < 128) : c.toNat < 128 := by
  unfold Char.toLower at h
  split at h
  next hc => exact Nat.lt_of_le_of_lt hc.2 (by decide)
  · exact h

theorem ascii_iff {c : Char} (h : (asLatin c).toLower.toNat < 128) :
    c.toNat < 128 ↔ asLatin c = c := by
  by_cases hc : c = '\u0130' ∨ c = '\u0131'
  · rcases hc with rfl | rfl <;> decide
  · rw [asLatin_of_not hc] at h ⊢
    exact iff_of_true (toNat_lt_of_toLower h) rfl

theorem FloatWord.SpelledBy.ascii {w : FloatWord} (h : w.SpelledBy cs) :
    ∀ c ∈ cs, c.toLower.toNat < 128 := by
  have hword {word : List Char} (h : cs.map Char.toLower = word)
      (hw : word.all (·.toNat < 128) = true) : ∀ c ∈ cs, c.toLower.toNat < 128 := fun c hc =>
    of_decide_eq_true (List.all_eq_true.mp hw _ (h ▸ List.mem_map_of_mem hc))
  cases h with
  | inf h => exact hword h (by decide)
  | infinity h => exact hword h (by decide)
  | nan h => exact hword h (by decide)

theorem map_asLatin_iff : cs.map asLatin = cs ↔ ∀ c ∈ cs, asLatin c = c := by
  simpa using List.map_inj_left (l := cs) (f := asLatin) (g := id)

/-- A word is in ASCII unless it has a letter of another alphabet. -/
theorem FloatWord.SpelledBy.all_ascii {w : FloatWord} (h : w.SpelledBy (cs.map asLatin)) :
    cs.all (·.toNat < 128) = true ↔ cs.map asLatin = cs := by
  have hascii : ∀ c ∈ cs, (c.toNat < 128 ↔ asLatin c = c) := fun c hc =>
    ascii_iff (h.ascii _ (List.mem_map_of_mem hc))
  rw [List.all_eq_true, map_asLatin_iff]
  exact forall₂_congr fun c hc => by rw [decide_eq_true_iff, hascii c hc]

theorem FloatWord.SpelledBy.map_asLatin {w : FloatWord} (h : w.SpelledBy cs) :
    cs.map asLatin = cs := by
  refine map_asLatin_iff.mpr fun c hc => asLatin_of_not ?_
  have hascii := toNat_lt_of_toLower (h.ascii c hc)
  rintro (rfl | rfl) <;> exact absurd hascii (by decide)

/-! ## Texts of doubles -/

theorem Decimal.SpelledBy.head {d : Decimal} (h : d.SpelledBy cs) :
    ∃ c ∈ cs.head?, c.isDigit = true ∨ c = '.' := by
  obtain ⟨hm, _⟩ := h
  cases hm with
  | integral hw =>
    obtain ⟨c, hc, hd⟩ := hw.head _
    exact ⟨c, hc, .inl hd⟩
  | point hw _ =>
    obtain ⟨c, hc, hd⟩ := hw.head _
    exact ⟨c, List.append_assoc .. ▸ hc, .inl hd⟩
  | fraction _ => exact ⟨'.', rfl, .inr rfl⟩

theorem Decimal.SpelledBy.unsigned {d : Decimal} (h : d.SpelledBy cs) : Unsigned cs := by
  obtain ⟨c, hc, hd⟩ := h.head
  rintro c' hc'
  cases Option.mem_unique hc hc'
  constructor
  all_goals
    rintro rfl
    exact absurd hd (by decide)

theorem FloatWord.SpelledBy.head {w : FloatWord} (h : w.SpelledBy cs) :
    ∃ c ∈ cs.head?, c.toLower = 'i' ∨ c.toLower = 'n' := by
  cases cs with
  | nil => cases h with
    | inf h | infinity h | nan h => exact absurd h (by decide)
  | cons c cs =>
    refine ⟨c, rfl, ?_⟩
    cases h with
    | inf h | infinity h => exact .inl (List.cons.inj h).1
    | nan h => exact .inr (List.cons.inj h).1

theorem FloatWord.SpelledBy.unsigned {w : FloatWord} (h : w.SpelledBy (cs.map asLatin)) :
    Unsigned cs := by
  obtain ⟨c, hc, hi⟩ := h.head
  rw [List.head?_map] at hc
  obtain ⟨c, hc', rfl⟩ := Option.map_eq_some_iff.mp hc
  rintro c' hc''
  cases Option.mem_unique hc' hc''
  constructor
  all_goals
    rintro rfl
    exact absurd hi (by decide)

theorem asLatin_of_isDigit {c : Char} (h : c.isDigit = true) : asLatin c = c := by
  refine asLatin_of_not ?_
  rintro (rfl | rfl) <;> exact absurd h (by decide)

theorem toLower_of_isDigit {c : Char} (h : c.isDigit = true) : c.toLower = c := by
  refine dif_neg fun hc => ?_
  have hupper : 'A'.toNat ≤ c.toNat := UInt32.le_iff_toNat_le.mp hc.1
  exact absurd (Nat.le_trans hupper (Char.isDigit_iff_toNat.mp h).2) (by decide)

/-- No decimal folds to a word. -/
theorem Decimal.SpelledBy.not_word {d : Decimal} (h : d.SpelledBy cs) :
    FloatWord.ofChars? cs = none := by
  refine Option.eq_none_iff_forall_ne_some.mpr fun w hw => ?_
  obtain ⟨c, hc, hd⟩ := h.head
  obtain ⟨c', hc', hi⟩ := (FloatWord.ofChars?_iff.mp hw).head
  rw [List.head?_map, Option.mem_def.mp hc] at hc'
  cases hc'
  rcases hd with hd | rfl
  · rw [asLatin_of_isDigit hd, toLower_of_isDigit hd] at hi
    rcases hi with rfl | rfl <;> exact absurd hd (by decide)
  · exact absurd hi (by decide)

theorem FloatText.ofChars?_iff {t : FloatText} : ofChars? cs = some t ↔ t.SpelledBy cs := by
  constructor
  · intro h
    obtain ⟨sign, hs, hcs⟩ := sign_splitSign cs
    simp only [ofChars?] at h
    rw [hcs]
    split at h
    next w hw =>
      have hw := FloatWord.ofChars?_iff.mp hw
      split at h
      next ha =>
        cases h
        exact .word hs (hw.all_ascii.mp ha ▸ hw)
      next ha =>
        cases h
        exact .foreignWord hs hw (mt hw.all_ascii.mpr ha)
    next =>
      obtain ⟨d, hd, rfl⟩ := Option.map_eq_some_iff.mp h
      exact .decimal hs (readDecimal?_iff.mp hd)
  · intro h
    cases h with
    | decimal hs hd =>
      simp [ofChars?, splitSign_append hs hd.unsigned, hd.not_word, readDecimal?_iff.mpr hd]
    | word hs hw =>
      have hm := hw.map_asLatin
      rw [← hm] at hw
      simp [ofChars?, splitSign_append hs hw.unsigned, FloatWord.ofChars?_iff.mpr hw,
        hw.all_ascii.mpr hm]
    | foreignWord hs hw hf =>
      simp [ofChars?, splitSign_append hs hw.unsigned, FloatWord.ofChars?_iff.mpr hw,
        mt hw.all_ascii.mp hf]

end ExScript.Number
