import ExScript.Proofs.FloatLiterals
import ExScript.Proofs.WellFormed
import ExScript.Token.Lexer

/-!
# Lexemes of a text

`Lexer.lexemes` is the lexer without positions, so that reading is a plain equation: a piece of text
that spells some lexemes puts these in front of whatever the rest is read as (`Reads`).  What the
rest may begin with is said by `Ends`: nothing that would make the last lexeme longer.
-/

namespace ExScript.Lexer

/-- The lexemes of a text after `extra` characters, if it can be read. -/
def lexemes : Nat → List Char → Option (List Lexeme)
  | _, [] => some [.ofMark .newline]
  | extra + 1, _ :: rest => lexemes extra rest
  | 0, c :: rest =>
    if c = '\n' then (lexemes 0 rest).map (.ofMark .newline :: ·)
    else match scan c rest with
      | .skip extra => lexemes extra rest
      | .found lexeme extra => (lexemes extra rest).map (lexeme :: ·)
      | .fault _ => none

theorem tokenizeFrom_of_lexemes {cs : List Char} {extra : Nat} {ls : List Lexeme}
    (h : lexemes extra cs = some ls) (line col : Nat) (found : List Token) :
    ∃ ts, tokenizeFrom line col extra cs found = .ok (found.reverse ++ ts) ∧
      ts.map Token.lexeme = ls := by
  induction cs generalizing extra ls line col found with
  | nil =>
    simp only [lexemes, Option.some.injEq] at h
    subst h
    exact ⟨[⟨.ofMark .newline, line, col⟩], by simp [tokenizeFrom], rfl⟩
  | cons c rest ih =>
    cases extra with
    | succ extra => exact ih h line (col + 1) found
    | zero =>
      have push {l : Lexeme} {e : Nat} (hl : (lexemes e rest).map (l :: ·) = some ls)
          (line' col' : Nat) : ∃ ts, tokenizeFrom line' col' e rest (⟨l, line, col⟩ :: found) =
            .ok (found.reverse ++ ts) ∧ ts.map Token.lexeme = ls := by
        obtain ⟨tail, ht, rfl⟩ := Option.map_eq_some_iff.mp hl
        obtain ⟨ts, hts, hmap⟩ := ih ht line' col' (⟨l, line, col⟩ :: found)
        exact ⟨⟨l, line, col⟩ :: ts, by simp [hts], by simp [hmap]⟩
      simp only [lexemes] at h
      simp only [tokenizeFrom]
      split at h
      · next hc => rw [if_pos hc]; exact push h _ _
      · next hc =>
        rw [if_neg hc]
        cases hs : scan c rest with
        | skip extra =>
          simp only [hs] at h
          exact ih h _ _ found
        | found l extra =>
          simp only [hs] at h
          exact push h _ _
        | fault e =>
          simp only [hs] at h
          cases h

/-! ## What the lexer produces -/

theorem proper_ofMark (m : Mark) : (Lexeme.ofMark m).Proper := trivial

theorem bits_le (d : Number.Decimal) : d.bits ≤ Number.infinityBits := by
  rw [Number.Decimal.bits_eq]
  exact Nat.min_le_left _ _

theorem proper_of_scanNumber {c : Char} {rest : List Char} {l : Lexeme} {extra : Nat}
    (h : scanNumber c rest = .found l extra) : l.Proper := by
  unfold scanNumber at h
  split at h
  · simp only [scanInt] at h
    split at h
    · cases h
    · cases h
      exact ⟨Int.natCast_nonneg _, by omega⟩
  · simp only [scanFloat] at h
    split at h
    · cases h
    · next hne =>
      cases h
      have hlt := Nat.lt_of_le_of_ne (bits_le _) hne
      exact ⟨Number.isFinite_ofMagnitude false hlt, Number.isNegative_ofMagnitude false hlt⟩

theorem proper_of_scanString {rest : List Char} {l : Lexeme} {extra : Nat}
    (h : scanString rest = .found l extra) : l.Proper := by
  simp only [scanString] at h
  split at h
  · cases h
    intro c hc
    rw [String.toList_ofList] at hc
    simpa using List.mem_takeWhile_imp hc
  · cases h

theorem proper_of_scanWord {c : Char} {rest : List Char} {l : Lexeme} {extra : Nat}
    (hc : Text.isWordChar c = true) (hd : c.isDigit = false)
    (h : scanWord c rest = .found l extra) : l.Proper := by
  simp only [scanWord, wordLexeme] at h
  split at h
  · cases h; trivial
  · next hk =>
    cases h
    refine ⟨by simp, fun d hm => ?_, by simpa using hd, hk⟩
    rw [String.toList_ofList] at hm
    rcases List.mem_cons.mp hm with rfl | hm
    · exact hc
    · exact List.mem_takeWhile_imp hm

theorem proper_of_scan {c : Char} {rest : List Char} {l : Lexeme} {extra : Nat}
    (h : scan c rest = .found l extra) : l.Proper := by
  unfold scan at h
  split at h
  · cases h
  split at h
  · cases h
  split at h
  · cases h; trivial
  · cases h; trivial
  split at h
  · exact proper_of_scanNumber h
  split at h
  · exact proper_of_scanString h
  split at h
  · next hd _ hw => exact proper_of_scanWord hw (by simpa using hd) h
  · cases h

theorem proper_of_tokenizeFrom {cs : List Char} {line col extra : Nat} {found ts : List Token}
    (hf : ∀ t ∈ found, t.lexeme.Proper) (h : tokenizeFrom line col extra cs found = .ok ts) :
    ∀ t ∈ ts, t.lexeme.Proper := by
  induction cs generalizing line col extra found with
  | nil =>
    simp only [tokenizeFrom, Except.ok.injEq] at h
    subst h
    intro t ht
    rcases List.mem_cons.mp (List.mem_reverse.mp ht) with rfl | ht
    · exact proper_ofMark .newline
    · exact hf t ht
  | cons c rest ih =>
    cases extra with
    | succ extra => exact ih hf h
    | zero =>
      simp only [tokenizeFrom] at h
      split at h
      · exact ih (List.forall_mem_cons.mpr ⟨proper_ofMark .newline, hf⟩) h
      split at h
      · exact ih hf h
      · next hs => exact ih (List.forall_mem_cons.mpr ⟨proper_of_scan hs, hf⟩) h
      · cases h

theorem proper_of_tokenize {source : String} {ts : List Token} (h : tokenize source = .ok ts) :
    ∀ t ∈ ts, t.lexeme.Proper :=
  proper_of_tokenizeFrom (fun _ ht => absurd ht List.not_mem_nil) h

/-! ## Reading pieces of text -/

/-- A piece of text puts its lexemes in front of what the rest is read as. -/
def Reads (text : List Char) (ls : List Lexeme) (rest : List Char) : Prop :=
  lexemes 0 (text ++ rest) = (lexemes 0 rest).map (ls ++ ·)

/-- The rest does not go on with a word, a number or the fraction of one. -/
def Ends (rest : List Char) : Prop :=
  (∀ c ∈ rest.head?, Text.isWordChar c = false) ∧
    ∀ more, rest = '.' :: more → ∀ c ∈ more.head?, c.isDigit = false

theorem ends_nil : Ends [] := ⟨nofun, nofun⟩

theorem reads_nil (rest : List Char) : Reads [] [] rest := by
  cases h : lexemes 0 rest <;> simp [Reads, h]

theorem Reads.append {text text' rest : List Char} {ls ls' : List Lexeme}
    (h : Reads text ls (text' ++ rest)) (h' : Reads text' ls' rest) :
    Reads (text ++ text') (ls ++ ls') rest := by
  unfold Reads at *
  rw [List.append_assoc, h, h', Option.map_map]
  congr 1
  funext x
  simp

theorem lexemes_skip (more rest : List Char) :
    lexemes more.length (more ++ rest) = lexemes 0 rest := by
  induction more with
  | nil => rfl
  | cons c more ih => exact ih

theorem reads_of_scan {c : Char} {more rest : List Char} {l : Lexeme} (hc : c ≠ '\n')
    (h : scan c (more ++ rest) = .found l more.length) : Reads (c :: more) [l] rest := by
  change lexemes 0 (c :: (more ++ rest)) = _
  simp only [lexemes, if_neg hc, h, lexemes_skip]
  rfl

theorem reads_newline (rest : List Char) : Reads ['\n'] [.ofMark .newline] rest := rfl

theorem reads_space (rest : List Char) : Reads [' '] [] rest := reads_nil rest

theorem reads_spaces (n : Nat) (rest : List Char) : Reads (List.replicate n ' ') [] rest := by
  induction n with
  | zero => exact reads_nil rest
  | succ n ih => exact (reads_space _).append ih

/-! ## Symbols -/

theorem plain_of_ofChar? {c : Char} {s : Symbol} (h : Symbol.ofChar? c = some s) :
    c ≠ '\n' ∧ isSpace c = false ∧ c ≠ '#' ∧ Text.isWordChar c = false ∧ c.isDigit = false := by
  unfold Symbol.ofChar? at h
  split at h <;> cases h <;> exact ⟨by decide, by decide, by decide, by decide, by decide⟩

theorem reads_symbol {c : Char} {s : Symbol} {rest : List Char} (h : Symbol.ofChar? c = some s)
    (hp : Symbol.ofPair? c rest.head? = none) : Reads [c] [.ofMark (.symbol s)] rest := by
  obtain ⟨hn, hs, hh, _⟩ := plain_of_ofChar? h
  refine reads_of_scan hn ?_
  simp [scan, hs, hh, hp, h]

/-- Only four symbols can be the first half of a longer one. -/
theorem reads_closed {c : Char} {s : Symbol} (rest : List Char) (h : Symbol.ofChar? c = some s)
    (hc : c ≠ '=' ∧ c ≠ '!' ∧ c ≠ '>' ∧ c ≠ '<') : Reads [c] [.ofMark (.symbol s)] rest := by
  refine reads_symbol h ?_
  unfold Symbol.ofPair?
  split <;> simp_all

theorem reads_pair {c : Char} {s : Symbol} (rest : List Char)
    (h : Symbol.ofPair? c (some '=') = some s) : Reads [c, '='] [.ofMark (.symbol s)] rest := by
  have hplain : c ≠ '\n' ∧ isSpace c = false ∧ c ≠ '#' := by
    unfold Symbol.ofPair? at h
    split at h <;> simp_all <;> decide
  refine reads_of_scan hplain.1 ?_
  simp [scan, hplain.2.1, hplain.2.2, h]

/-! ## Words -/

theorem takeWhile_run {p : Char → Bool} {run rest : List Char} (h : ∀ c ∈ run, p c = true)
    (hr : ∀ d ∈ rest.head?, p d = false) : (run ++ rest).takeWhile p = run := by
  rw [List.takeWhile_append_of_pos h]
  cases rest with
  | nil => simp
  | cons d rest => simp [hr d (by simp)]

theorem dropWhile_run {p : Char → Bool} {run rest : List Char} (h : ∀ c ∈ run, p c = true)
    (hr : ∀ d ∈ rest.head?, p d = false) : (run ++ rest).dropWhile p = rest := by
  rw [List.dropWhile_append_of_pos h]
  cases rest with
  | nil => simp
  | cons d rest => simp [hr d (by simp)]

theorem not_wordChar {c d : Char} (hc : Text.isWordChar c = true) (hd : Text.isWordChar d = false) :
    c ≠ d := by
  rintro rfl
  simp [hc] at hd

theorem scan_word {c : Char} {more rest : List Char} (hc : Text.isWordChar c = true)
    (hd : c.isDigit = false) (hm : ∀ d ∈ more, Text.isWordChar d = true)
    (hr : ∀ d ∈ rest.head?, Text.isWordChar d = false) :
    scan c (more ++ rest) = .found (wordLexeme (String.ofList (c :: more))) more.length := by
  have hspace : isSpace c = false := by
    have h1 := not_wordChar (d := ' ') hc (by decide)
    have h2 := not_wordChar (d := '\t') hc (by decide)
    have h3 := not_wordChar (d := '\r') hc (by decide)
    simp [isSpace, h1, h2, h3]
  have hhash := not_wordChar (d := '#') hc (by decide)
  have hquote := not_wordChar (d := '\x22') hc (by decide)
  have hsymbol : Symbol.ofChar? c = none := by
    cases h : Symbol.ofChar? c with
    | none => rfl
    | some s => exact absurd hc (by simp [(plain_of_ofChar? h).2.2.2.1])
  have hpair (o : Option Char) : Symbol.ofPair? c o = none := by
    have h1 := not_wordChar (d := '=') hc (by decide)
    have h2 := not_wordChar (d := '!') hc (by decide)
    have h3 := not_wordChar (d := '>') hc (by decide)
    have h4 := not_wordChar (d := '<') hc (by decide)
    unfold Symbol.ofPair?
    split <;> simp_all
  have htake := takeWhile_run hm hr
  simp [scan, hspace, hhash, hpair, hsymbol, hd, hquote, hc, scanWord, htake]

theorem reads_word {text : String} {rest : List Char} (hne : text.toList ≠ [])
    (hword : ∀ c ∈ text.toList, Text.isWordChar c = true)
    (hdigit : ∀ c ∈ text.toList.head?, c.isDigit = false) (hr : Ends rest) :
    Reads text.toList [wordLexeme text] rest := by
  cases ht : text.toList with
  | nil => exact absurd ht hne
  | cons c more =>
    rw [ht] at hword hdigit
    obtain ⟨hc, hm⟩ := List.forall_mem_cons.mp hword
    have hl : text = String.ofList (c :: more) := by rw [← ht, String.ofList_toList]
    rw [hl]
    exact reads_of_scan (not_wordChar hc (by decide)) (scan_word hc (hdigit c rfl) hm hr.1)

theorem reads_name {text : String} {rest : List Char} (h : IsName text) (hr : Ends rest) :
    Reads text.toList [.name text] rest := by
  have hl : wordLexeme text = .name text := by rw [wordLexeme, h.noKeyword]
  exact hl ▸ reads_word h.nonempty h.word h.noDigit hr

theorem reads_keyword (k : Keyword) {rest : List Char} (hr : Ends rest) :
    Reads k.text.toList [.ofMark (.keyword k)] rest := by
  have hl : wordLexeme k.text = .ofMark (.keyword k) := by cases k <;> decide
  have halpha : ∀ c ∈ k.text.toList, c.isAlphanum = true := by cases k <;> simp [Keyword.text]
  have hword (c : Char) (hc : c ∈ k.text.toList) := Text.isWordChar_of_isAlphanum (halpha c hc)
  have hdigit : ∀ c ∈ k.text.toList.head?, c.isDigit = false := by
    cases k <;> simp [Keyword.text]
  exact hl ▸ reads_word (by cases k <;> decide) hword hdigit hr

/-! ## Numbers -/

theorem isDigit_of_ends {rest : List Char} (hr : Ends rest) :
    ∀ d ∈ rest.head?, d.isDigit = false := by
  intro d hd
  by_contra h
  have hw := Text.isWordChar_of_isAlphanum (c := d) (by simp [Char.isAlphanum, h])
  simp [hr.1 d hd] at hw

theorem fractionDigits_of_ends {rest : List Char} (hr : Ends rest) : fractionDigits rest = [] := by
  unfold fractionDigits
  split
  · next more =>
    have hm := hr.2 more rfl
    cases more with
    | nil => rfl
    | cons d more => simp [hm d (by simp)]
  · rfl

theorem scan_digit {c : Char} (rest : List Char) (h : c.isDigit = true) :
    scan c rest = scanNumber c rest ∧ c ≠ '\n' := by
  have hne {d : Char} (hd : d.isDigit = false) : c ≠ d := by
    rintro rfl
    simp [h] at hd
  have hspace : isSpace c = false := by
    simp [isSpace, hne (d := ' ') (by decide), hne (d := '\t') (by decide),
      hne (d := '\r') (by decide)]
  have hsymbol : Symbol.ofChar? c = none := by
    cases hs : Symbol.ofChar? c with
    | none => rfl
    | some s => exact absurd h (by simp [(plain_of_ofChar? hs).2.2.2.2])
  have hpair (o : Option Char) : Symbol.ofPair? c o = none := by
    have h1 := hne (d := '=') (by decide)
    have h2 := hne (d := '!') (by decide)
    have h3 := hne (d := '>') (by decide)
    have h4 := hne (d := '<') (by decide)
    unfold Symbol.ofPair?
    split <;> simp_all
  exact ⟨by simp [scan, hspace, hne (d := '#') (by decide), hpair, hsymbol, h], hne (by decide)⟩

theorem scan_digits {c : Char} {more rest : List Char} (h : Number.IsDigitRun (c :: more))
    (hr : Ends rest) : scan c (more ++ rest) = scanInt (c :: more) ∧ c ≠ '\n' := by
  obtain ⟨hc, hm⟩ := List.forall_mem_cons.mp h.digits
  obtain ⟨hscan, hnl⟩ := scan_digit (more ++ rest) hc
  refine ⟨?_, hnl⟩
  simp [hscan, scanNumber, takeWhile_run hm (isDigit_of_ends hr),
    dropWhile_run hm (isDigit_of_ends hr), fractionDigits_of_ends hr]

/-- Any run of digits without a fraction behind it, leading zeros included. -/
theorem reads_digits {digits rest : List Char} (h : Number.IsDigitRun digits)
    (hv : Nat.ofDigitChars 10 digits 0 ≤ maxIntLiteral) (hr : Ends rest) :
    Reads digits [.int (Nat.ofDigitChars 10 digits 0)] rest := by
  obtain ⟨c, more, rfl⟩ := List.exists_cons_of_ne_nil h.nonempty
  obtain ⟨hscan, hnl⟩ := scan_digits h hr
  apply reads_of_scan hnl
  simp [hscan, scanInt, Nat.not_lt.mpr hv]

/-- Zeros in front change nothing about the value. -/
theorem reads_int_zeros {value : Int} {rest : List Char} (h : IsIntLiteral value) (zeros : Nat)
    (hr : Ends rest) :
    Reads (List.replicate zeros '0' ++ (toString value).toList) [.int value] rest := by
  obtain ⟨n, rfl⟩ := Int.eq_ofNat_of_zero_le h.1
  have htext : (toString (n : Int)).toList = Nat.toDigits 10 n := String.toList_ofList
  have hvalue : Nat.ofDigitChars 10 (List.replicate zeros '0' ++ Nat.toDigits 10 n) 0 = n := by
    rw [Nat.ofDigitChars_append, Nat.ofDigitChars_replicate_zero, Nat.mul_zero,
      Nat.ofDigitChars_ten_toDigits]
  have hn : n ≤ maxIntLiteral := by
    have := h.2
    omega
  have hread := reads_digits ((Number.isDigitRun_toDigits n).zeros_append zeros) (by rwa [hvalue]) hr
  rwa [hvalue, ← htext] at hread

theorem reads_int {value : Int} {rest : List Char} (h : IsIntLiteral value) (hr : Ends rest) :
    Reads (toString value).toList [.int value] rest :=
  reads_int_zeros h 0 hr

/-- A run of digits with a fraction behind it. -/
theorem scan_float {c : Char} {more fraction rest : List Char} (hw : Number.IsDigitRun (c :: more))
    (hf : Number.IsDigitRun fraction) (hr : Ends rest)
    (hb : (Number.Decimal.ofDigits (c :: more) fraction 0).bits < Number.infinityBits) :
    scan c (more ++ '.' :: fraction ++ rest) =
      .found (.float ((Number.Decimal.ofDigits (c :: more) fraction 0).toFloat false))
        (more ++ '.' :: fraction).length ∧ c ≠ '\n' := by
  obtain ⟨d, digits, rfl⟩ := List.exists_cons_of_ne_nil hf.nonempty
  obtain ⟨hc, hm⟩ := List.forall_mem_cons.mp hw.digits
  obtain ⟨hscan, hnl⟩ := scan_digit (more ++ ('.' :: d :: digits) ++ rest) hc
  have hpoint : ∀ c ∈ ('.' :: d :: (digits ++ rest)).head?, c.isDigit = false := by simp
  have hfraction : fractionDigits ('.' :: d :: (digits ++ rest)) = d :: digits :=
    takeWhile_run hf.digits (isDigit_of_ends hr)
  refine ⟨?_, hnl⟩
  simp only [List.append_assoc, List.cons_append] at *
  simp [hscan, scanNumber, takeWhile_run hm hpoint, dropWhile_run hm hpoint, hfraction,
    scanFloat, Nat.ne_of_lt hb]
  omega

theorem reads_float {whole fraction rest : List Char} (hw : Number.IsDigitRun whole)
    (hf : Number.IsDigitRun fraction) (hr : Ends rest)
    (hb : (Number.Decimal.ofDigits whole fraction 0).bits < Number.infinityBits) :
    Reads (whole ++ '.' :: fraction)
      [.float ((Number.Decimal.ofDigits whole fraction 0).toFloat false)] rest := by
  obtain ⟨c, more, rfl⟩ := List.exists_cons_of_ne_nil hw.nonempty
  obtain ⟨hscan, hnl⟩ := scan_float hw hf hr hb
  exact reads_of_scan hnl hscan

/-! ## Strings -/

theorem reads_string {text : String} (rest : List Char) (h : IsStringLiteral text) :
    Reads ("\"" ++ text ++ "\"").toList [.string text] rest := by
  have hbody : (text.toList ++ '\x22' :: rest).takeWhile (fun c => c != '\x22' && c != '\n') =
      text.toList := by
    refine takeWhile_run (fun c hc => ?_) (by simp)
    simpa using h c hc
  have htext : ("\"" ++ text ++ "\"").toList = '\x22' :: (text.toList ++ ['\x22']) := by simp
  rw [htext]
  refine reads_of_scan (by decide) ?_
  have hpair (o : Option Char) : Symbol.ofPair? '\x22' o = none := by
    unfold Symbol.ofPair?
    split <;> simp_all
  simp [scan, isSpace, hpair, Symbol.ofChar?, scanString, hbody]

end ExScript.Lexer
