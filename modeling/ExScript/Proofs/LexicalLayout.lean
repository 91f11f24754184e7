import ExScript.Proofs.SourceLines

/-!
# The layout of a line

The tokens of a line stand in spans that do not overlap.  The text of a span spells its lexeme
(`Lexeme.SpelledBy`) and could not be longer (`Munched`); between the spans there are blanks, up to a
comment (`Laid`).  A line that cannot be read is laid out up to the place of the fault
(`LexFault.StandsAt`).  The lexer keeps this invariant with every lexeme, so that it holds of all
lines of a text (`tokenize_layout`).
-/

namespace ExScript

open Text (isWordChar)

/-! ## Spelling -/

/-- The text is the exact spelling of the lexeme. -/
inductive Lexeme.SpelledBy : Lexeme → List Char → Prop
  | symbol (s : Symbol) : SpelledBy (.ofMark (.symbol s)) s.text.toList
  | keyword (k : Keyword) : SpelledBy (.ofMark (.keyword k)) k.text.toList
  | name {text : String} (h : IsName text) : SpelledBy (.name text) text.toList
  | int {digits : List Char} (h : Number.IsDigitRun digits)
    (hr : Nat.ofDigitChars 10 digits 0 ≤ Lexer.maxIntLiteral) :
    SpelledBy (.int (Nat.ofDigitChars 10 digits 0)) digits
  | float {whole fraction : List Char} (hw : Number.IsDigitRun whole)
    (hf : Number.IsDigitRun fraction)
    (hr : (Number.Decimal.ofDigits whole fraction 0).bits < Number.infinityBits) :
    SpelledBy (.float ((Number.Decimal.ofDigits whole fraction 0).toFloat false))
      (whole ++ '.' :: fraction)
  | string {text : String} (h : IsStringLiteral text) :
    SpelledBy (.string text) ('\x22' :: text.toList ++ ['\x22'])

def Lexeme.isNumber : Lexeme → Bool
  | .int _ | .float _ => true
  | _ => false

def Lexeme.isFloat : Lexeme → Bool
  | .float _ => true
  | _ => false

/-- A name or a keyword. -/
def Lexeme.isWord : Lexeme → Bool
  | .name _ | .mark (.keyword _) _ => true
  | _ => false

/-- The digits at the front are followed by a point and another digit. -/
def FractionFollows (cs : List Char) : Prop :=
  ∃ d more, cs.dropWhile Char.isDigit = '.' :: d :: more ∧ d.isDigit = true

/-- The symbols of two characters. -/
def Symbol.pairs : List Symbol := [.equal, .notEqual, .atLeast, .atMost]

/-- The lexeme is the one that reaches furthest from the beginning of its text. -/
structure Lexeme.Munched (l : Lexeme) (text after : List Char) : Prop where
  digits : l.isNumber = true → ∀ c ∈ after.head?, c.isDigit = false
  fraction : l.isNumber = true → (l.isFloat = true ↔ FractionFollows (text ++ after))
  word : l.isWord = true → ∀ c ∈ after.head?, isWordChar c = false
  keyword : l.isWord = true →
    ∀ k, l = .ofMark (.keyword k) ↔ text = (Keyword.text k).toList
  pair : ∀ s ∈ Symbol.pairs, s.text.toList <+: text ++ after → l = .ofMark (.symbol s)

/-- What is wrong with the text that begins at a fault. -/
inductive LexFault.StandsAt : LexFault → List Char → Prop
  | intRange {digits after : List Char} (h : Number.IsDigitRun digits)
    (hd : ∀ c ∈ after.head?, c.isDigit = false) (hf : ¬ FractionFollows (digits ++ after))
    (hr : Lexer.maxIntLiteral < Nat.ofDigitChars 10 digits 0) : StandsAt .intRange (digits ++ after)
  | floatRange {whole fraction after : List Char} (hw : Number.IsDigitRun whole)
    (hf : Number.IsDigitRun fraction) (hd : ∀ c ∈ after.head?, c.isDigit = false)
    (hr : (Number.Decimal.ofDigits whole fraction 0).bits = Number.infinityBits) :
    StandsAt .floatRange (whole ++ '.' :: fraction ++ after)
  | unterminatedString {after : List Char} (h : '\x22' ∉ after) :
    StandsAt .unterminatedString ('\x22' :: after)
  | unexpected {c : Char} {after : List Char} (hs : Lexer.isSpace c = false) (hc : c ≠ '#')
    (hq : c ≠ '\x22') (hd : c.isDigit = false) (hw : isWordChar c = false)
    (h : ∀ s : Symbol, ¬ s.text.toList <+: c :: after) : StandsAt (.unexpected c) (c :: after)

/-! ## Lines -/

/-- The place of a lexeme in its line: the characters from `start` up to `stop`. -/
structure Span where
  start : Nat
  stop : Nat
  lexeme : Lexeme

namespace Span

def text (s : Span) (cs : List Char) : List Char := (cs.drop s.start).take (s.stop - s.start)

def token (line : Nat) (s : Span) : Token := ⟨s.lexeme, line, (s.start + 1 : Nat)⟩

end Span

/-- The spans lay out the first characters of a line, as many as `upTo`. -/
structure Laid (cs : List Char) (upTo : Nat) (spans : List Span) : Prop where
  le : upTo ≤ cs.length
  ordered : spans.Pairwise fun s t => s.stop ≤ t.start
  within : ∀ s ∈ spans, s.start < s.stop ∧ s.stop ≤ upTo
  spelled : ∀ s ∈ spans, s.lexeme.SpelledBy (s.text cs)
  munched : ∀ s ∈ spans, s.lexeme.Munched (s.text cs) (cs.drop s.stop)
  blank : ∀ i < upTo, (∀ s ∈ spans, i < s.start ∨ s.stop ≤ i) →
    ∀ c ∈ cs[i]?, Lexer.isSpace c = true

/-- A line is laid out up to its end or a comment, and its tokens are those of the spans, in order,
and the line end behind the line. -/
structure Layout (line : Nat) (cs : List Char) (row : List Token) (spans : List Span)
    (comment : Nat) : Prop where
  laid : Laid cs comment spans
  comment : comment = cs.length ∨ cs[comment]? = some '#'
  tokens : row = spans.map (Span.token line) ++ [⟨.ofMark .newline, line, (cs.length + 1 : Nat)⟩]
  columns : row.Pairwise fun t u => t.pos.col < u.pos.col
  lineEnd : ∀ s ∈ spans, s.lexeme.kind ≠ .mark .newline

/-- A line is laid out up to the place of a fault. -/
structure Broken (line : Nat) (cs : List Char) (e : LexError) (spans : List Span) (place : Nat) :
    Prop where
  laid : Laid cs place spans
  pos : e.pos = ⟨line, (place + 1 : Nat)⟩
  fault : e.fault.StandsAt (cs.drop place)

namespace Lexer

variable {c : Char} {rest : List Char} {l : Lexeme} {extra : Nat}

/-- A lexeme begins at the character, and the next `extra` characters belong to it. -/
def Begins (c : Char) (rest : List Char) (l : Lexeme) (extra : Nat) : Prop :=
  ∃ more after, rest = more ++ after ∧ more.length = extra ∧ l.SpelledBy (c :: more) ∧
    l.Munched (c :: more) after

theorem head?_dropWhile (p : Char → Bool) (cs : List Char) :
    ∀ d ∈ (cs.dropWhile p).head?, p d = false := by
  intro d hd
  have hnot := List.head?_dropWhile_not p cs
  rw [Option.mem_def.mp hd] at hnot
  simpa using hnot

/-! ### Symbols -/

theorem pair_of_isPrefix {s : Symbol} (hs : s ∈ Symbol.pairs)
    (h : s.text.toList <+: c :: rest) : Symbol.ofPair? c rest.head? = some s := by
  obtain ⟨after, h⟩ := h
  simp only [Symbol.pairs, List.mem_cons, List.not_mem_nil, or_false] at hs
  rcases hs with rfl | rfl | rfl | rfl <;> cases h <;> rfl

theorem symbol_of_isPrefix {s : Symbol} (h : s.text.toList <+: c :: rest) :
    Symbol.ofPair? c rest.head? = some s ∨ Symbol.ofChar? c = some s := by
  obtain ⟨after, h⟩ := h
  cases s <;> cases h <;> first | exact .inl rfl | exact .inr rfl

theorem text_of_ofPair? {s : Symbol} {o : Option Char} (h : Symbol.ofPair? c o = some s) :
    o = some '=' ∧ s.text.toList = [c, '='] := by
  unfold Symbol.ofPair? at h
  split at h <;> cases h <;> exact ⟨rfl, rfl⟩

theorem text_of_ofChar? {s : Symbol} (h : Symbol.ofChar? c = some s) : s.text.toList = [c] := by
  unfold Symbol.ofChar? at h
  split at h <;> cases h <;> rfl

theorem begins_pair {s : Symbol} (h : Symbol.ofPair? c rest.head? = some s) :
    Begins c rest (.ofMark (.symbol s)) 1 := by
  obtain ⟨hhead, htext⟩ := text_of_ofPair? h
  obtain ⟨after, rfl⟩ := List.head?_eq_some_iff.mp hhead
  refine ⟨['='], after, rfl, rfl, htext ▸ .symbol s, ?_⟩
  refine ⟨nofun, nofun, nofun, nofun, fun t ht htext => ?_⟩
  have hpair : Symbol.ofPair? c ('=' :: after).head? = some t := pair_of_isPrefix ht htext
  rw [Option.some.inj (h.symm.trans hpair)]

theorem begins_symbol {s : Symbol} (hp : Symbol.ofPair? c rest.head? = none)
    (h : Symbol.ofChar? c = some s) : Begins c rest (.ofMark (.symbol s)) 0 := by
  refine ⟨[], rest, rfl, rfl, text_of_ofChar? h ▸ .symbol s, ?_⟩
  refine ⟨nofun, nofun, nofun, nofun, fun t ht htext => ?_⟩
  have hpair : Symbol.ofPair? c rest.head? = some t := pair_of_isPrefix ht htext
  rw [hp] at hpair
  cases hpair

theorem no_pair (hp : Symbol.ofPair? c rest.head? = none) :
    ∀ s ∈ Symbol.pairs, ¬ s.text.toList <+: c :: rest := by
  intro s hs htext
  rw [pair_of_isPrefix hs htext] at hp
  cases hp

/-! ### Numbers -/

theorem fractionDigits_eq_nil_iff (cs : List Char) :
    fractionDigits cs = [] ↔ ¬ ∃ d more, cs = '.' :: d :: more ∧ d.isDigit = true := by
  cases cs with
  | nil => simp [fractionDigits]
  | cons c cs =>
    by_cases hc : c = '.'
    · subst hc
      cases cs with
      | nil => simp [fractionDigits]
      | cons d more => simp [fractionDigits, List.takeWhile_cons]
    · simp [fractionDigits, hc]

/-- A number is a run of digits that ends, and maybe a point and another such run. -/
theorem scanNumber_split (hc : c.isDigit = true) (rest : List Char) :
    ∃ whole after, c :: rest = whole ++ after ∧ Number.IsDigitRun whole ∧
      (∀ d ∈ after.head?, d.isDigit = false) ∧
      ((¬ FractionFollows (c :: rest) ∧ scanNumber c rest = scanInt whole) ∨
        ∃ fraction after', after = '.' :: (fraction ++ after') ∧ Number.IsDigitRun fraction ∧
          (∀ d ∈ after'.head?, d.isDigit = false) ∧ FractionFollows (c :: rest) ∧
          scanNumber c rest = scanFloat whole fraction) := by
  have hdrop : (c :: rest).dropWhile Char.isDigit = rest.dropWhile Char.isDigit :=
    List.dropWhile_cons_of_pos hc
  have hsplit : c :: rest = c :: rest.takeWhile Char.isDigit ++ rest.dropWhile Char.isDigit := by
    rw [List.cons_append, List.takeWhile_append_dropWhile]
  have hwhole : Number.IsDigitRun (c :: rest.takeWhile Char.isDigit) :=
    ⟨List.cons_ne_nil _ _, List.forall_mem_cons.mpr ⟨hc, fun _ => List.mem_takeWhile_imp⟩⟩
  refine ⟨_, _, hsplit, hwhole, head?_dropWhile _ _, ?_⟩
  rw [FractionFollows, hdrop]
  by_cases hf : ∃ d more, rest.dropWhile Char.isDigit = '.' :: d :: more ∧ d.isDigit = true
  · obtain ⟨d, more, hpoint, hd⟩ := hf
    have hmore : (d :: more).takeWhile Char.isDigit ++ (d :: more).dropWhile Char.isDigit =
        d :: more := List.takeWhile_append_dropWhile
    have htake : (d :: more).takeWhile Char.isDigit = d :: more.takeWhile Char.isDigit :=
      List.takeWhile_cons_of_pos hd
    refine .inr ⟨_, _, hmore ▸ hpoint, ?_, head?_dropWhile _ _, ⟨d, more, hpoint, hd⟩, ?_⟩
    · rw [htake]
      exact ⟨List.cons_ne_nil _ _, List.forall_mem_cons.mpr ⟨hd, fun _ => List.mem_takeWhile_imp⟩⟩
    · rw [scanNumber, hpoint]
      simp only [fractionDigits, htake]
  · refine .inl ⟨hf, ?_⟩
    rw [scanNumber, (fractionDigits_eq_nil_iff _).mpr hf]

theorem munched_number {text after : List Char} {l : Lexeme} (hn : l.isNumber = true)
    (hd : ∀ d ∈ after.head?, d.isDigit = false)
    (hf : l.isFloat = true ↔ FractionFollows (text ++ after))
    (hp : ∀ s ∈ Symbol.pairs, ¬ s.text.toList <+: text ++ after) : l.Munched text after where
  digits _ := hd
  fraction _ := hf
  word hw := by cases l <;> cases hn <;> cases hw
  keyword hw := by cases l <;> cases hn <;> cases hw
  pair s hs h := absurd h (hp s hs)

theorem begins_number (hc : c.isDigit = true) (hp : Symbol.ofPair? c rest.head? = none)
    (h : scanNumber c rest = .found l extra) : Begins c rest l extra := by
  have hpair := no_pair hp
  obtain ⟨whole, after, hsplit, hwhole, hd, ⟨hf, hscan⟩ | ⟨fraction, after', rfl, hfraction, hd',
    hf, hscan⟩⟩ := scanNumber_split hc rest
  all_goals
    obtain ⟨d, more, rfl⟩ := List.exists_cons_of_ne_nil hwhole.nonempty
    obtain ⟨rfl, hrest⟩ := List.cons.inj hsplit
    rw [hscan] at h
    rw [hrest] at hf hpair
  · simp only [scanInt] at h
    split at h
    next => cases h
    next hr =>
      cases h
      refine ⟨more, after, hrest, rfl, .int hwhole (Nat.le_of_not_lt hr), ?_⟩
      exact munched_number rfl hd (iff_of_false Bool.false_ne_true hf) hpair
  · simp only [scanFloat] at h
    split at h
    next => cases h
    next hr =>
      cases h
      have hall : more ++ '.' :: (fraction ++ after') = more ++ '.' :: fraction ++ after' := by simp
      have hr := Nat.lt_of_le_of_ne (bits_le _) hr
      change FractionFollows (c :: (more ++ '.' :: (fraction ++ after'))) at hf
      change ∀ s ∈ Symbol.pairs, ¬ s.text.toList <+: c :: (more ++ '.' :: (fraction ++ after'))
        at hpair
      rw [hall] at hf hpair
      refine ⟨more ++ '.' :: fraction, after', hrest.trans hall, ?_, .float hwhole hfraction hr, ?_⟩
      · simp only [List.length_append, List.length_cons]
        omega
      · exact munched_number rfl hd' (iff_of_true rfl hf) hpair

theorem fault_number {fault : LexFault} (hc : c.isDigit = true)
    (h : scanNumber c rest = .fault fault) : fault.StandsAt (c :: rest) := by
  obtain ⟨whole, after, hsplit, hwhole, hd, ⟨hf, hscan⟩ | ⟨fraction, after', rfl, hfraction, hd',
    hf, hscan⟩⟩ := scanNumber_split hc rest
  · rw [hscan] at h
    simp only [scanInt] at h
    split at h
    next hr =>
      cases h
      rw [hsplit] at hf ⊢
      exact .intRange hwhole hd hf hr
    next => cases h
  · rw [hscan] at h
    simp only [scanFloat] at h
    split at h
    next hr =>
      cases h
      have hall : c :: rest = whole ++ '.' :: fraction ++ after' := by simp [hsplit]
      rw [hall]
      exact .floatRange hwhole hfraction hd' hr
    next => cases h

/-! ### Strings and words -/

theorem munched_string {text after : List Char} {payload : String}
    (hp : ∀ s ∈ Symbol.pairs, ¬ s.text.toList <+: text ++ after) :
    (Lexeme.string payload).Munched text after :=
  ⟨nofun, nofun, nofun, nofun, fun s hs h => absurd h (hp s hs)⟩

theorem begins_string (hp : Symbol.ofPair? '\x22' rest.head? = none)
    (h : scanString rest = .found l extra) : Begins '\x22' rest l extra := by
  simp only [scanString, drop_takeWhile] at h
  split at h
  next after hafter =>
    cases h
    have hpair := no_pair hp
    have hsplit := List.takeWhile_append_dropWhile (p := fun c => c != '\x22' && c != '\n')
      (l := rest)
    rw [hafter] at hsplit
    generalize hbody : rest.takeWhile (fun c => c != '\x22' && c != '\n') = body at hsplit
    have hliteral : IsStringLiteral (String.ofList body) := by
      intro c hc
      rw [String.toList_ofList, ← hbody] at hc
      simpa using List.mem_takeWhile_imp hc
    have hspelled := Lexeme.SpelledBy.string hliteral
    have hrest : rest = body ++ ['\x22'] ++ after := by simp [← hsplit]
    rw [String.toList_ofList] at hspelled
    rw [hrest] at hpair
    exact ⟨body ++ ['\x22'], after, hrest, by simp, hspelled, munched_string hpair⟩
  next => cases h

theorem fault_string {fault : LexFault} (hn : '\n' ∉ rest)
    (h : scanString rest = .fault fault) : fault.StandsAt ('\x22' :: rest) := by
  simp only [scanString, drop_takeWhile] at h
  split at h
  next => cases h
  next hafter =>
    cases h
    refine .unterminatedString fun hmem => ?_
    have hsplit := List.takeWhile_append_dropWhile (p := fun c => c != '\x22' && c != '\n')
      (l := rest)
    have hhead := head?_dropWhile (fun c => c != '\x22' && c != '\n') rest
    cases hdrop : rest.dropWhile (fun c => c != '\x22' && c != '\n') with
    | nil =>
      rw [hdrop, List.append_nil] at hsplit
      rw [← hsplit] at hmem
      simpa using List.mem_takeWhile_imp hmem
    | cons c after =>
      rw [hdrop] at hsplit hhead
      have hc : c ≠ '\n' := by
        rintro rfl
        exact hn (hsplit ▸ List.mem_append_right _ List.mem_cons_self)
      have hquote : c = '\x22' := by simpa [hc] using hhead c rfl
      exact hafter after (hquote ▸ hdrop)

theorem ofText?_eq_some {word : List Char} {k : Keyword} :
    Keyword.ofText? (String.ofList word) = some k ↔ word = k.text.toList := by
  constructor
  · intro h
    have hk : decide (k.text = String.ofList word) = true :=
      List.find?_some (p := fun k : Keyword => decide (k.text = String.ofList word)) h
    rw [of_decide_eq_true hk, String.toList_ofList]
  · rintro rfl
    rw [String.ofList_toList]
    cases k <;> decide

theorem munched_word {text after : List Char} {l : Lexeme} (hn : l.isNumber = false)
    (hw : ∀ d ∈ after.head?, isWordChar d = false)
    (hk : ∀ k, l = .ofMark (.keyword k) ↔ text = (Keyword.text k).toList)
    (hp : ∀ s ∈ Symbol.pairs, ¬ s.text.toList <+: text ++ after) : l.Munched text after where
  digits h := absurd (hn.symm.trans h) Bool.false_ne_true
  fraction h := absurd (hn.symm.trans h) Bool.false_ne_true
  word _ := hw
  keyword _ := hk
  pair s hs h := absurd h (hp s hs)

theorem begins_word (hc : isWordChar c = true) (hd : c.isDigit = false)
    (hp : Symbol.ofPair? c rest.head? = none) (h : scanWord c rest = .found l extra) :
    Begins c rest l extra := by
  have hproper := proper_of_scanWord hc hd h
  have hpair := no_pair hp
  have hsplit := List.takeWhile_append_dropWhile (p := isWordChar) (l := rest)
  have hword := head?_dropWhile isWordChar rest
  cases h
  generalize rest.takeWhile isWordChar = more at *
  generalize rest.dropWhile isWordChar = after at *
  subst hsplit
  refine ⟨more, after, rfl, rfl, ?_⟩
  rw [wordLexeme] at hproper ⊢
  cases hk : Keyword.ofText? (String.ofList (c :: more)) with
  | some k =>
    have hspelled := Lexeme.SpelledBy.keyword k
    rw [← ofText?_eq_some.mp hk] at hspelled
    refine ⟨hspelled, munched_word rfl hword (fun k' => ?_) hpair⟩
    rw [← ofText?_eq_some, hk]
    exact ⟨fun h => by cases h; rfl, fun h => by cases h; rfl⟩
  | none =>
    rw [hk] at hproper
    have hspelled := Lexeme.SpelledBy.name hproper
    rw [String.toList_ofList] at hspelled
    refine ⟨hspelled, munched_word rfl hword (fun k' => ?_) hpair⟩
    rw [← ofText?_eq_some, hk]
    exact iff_of_false (fun h => by cases h) (fun h => by cases h)

/-! ### All rules -/

theorem begins_of_scan (h : scan c rest = .found l extra) : Begins c rest l extra := by
  unfold scan at h
  split at h
  · cases h
  split at h
  · simp [scanComment] at h
  split at h
  · next hpair =>
    cases h
    exact begins_pair hpair
  · next hp hs =>
    cases h
    exact begins_symbol hp hs
  next hp hs =>
  split at h
  · next hc => exact begins_number hc hp h
  split at h
  · next hq =>
    subst hq
    exact begins_string hp h
  split at h
  · next hd _ hw => exact begins_word hw (by simpa using hd) hp h
  · cases h

theorem fault_of_scan {fault : LexFault} (hn : '\n' ∉ rest) (h : scan c rest = .fault fault) :
    fault.StandsAt (c :: rest) := by
  unfold scan at h
  split at h
  · cases h
  next hspace =>
  split at h
  · simp [scanComment] at h
  next hhash =>
  split at h
  · cases h
  · cases h
  next hp hs =>
  split at h
  · next hc => exact fault_number hc h
  split at h
  · next hq =>
    subst hq
    exact fault_string hn h
  split at h
  · simp [scanWord] at h
  · next hd hq hw =>
    cases h
    refine .unexpected (by simpa using hspace) hhash hq (by simpa using hd) (by simpa using hw) ?_
    intro s htext
    rcases symbol_of_isPrefix htext with hpair | hchar
    · rw [hp] at hpair
      cases hpair
    · rw [hs] at hchar
      cases hchar

/-! ### The walk over a line -/

variable {cs : List Char} {spans : List Span} {line k : Nat}

theorem laid_nil (cs : List Char) : Laid cs 0 [] :=
  ⟨Nat.zero_le _, .nil, nofun, nofun, nofun, nofun⟩

theorem lt_of_drop (hc : cs.drop k = c :: rest) : k < cs.length ∧ cs[k]? = some c ∧
    cs.length = k + 1 + rest.length := by
  have hlen := congrArg List.length hc
  rw [List.length_drop, List.length_cons] at hlen
  have hget := congrArg (·[0]?) hc
  simp only [List.getElem?_drop, Nat.add_zero, List.getElem?_cons_zero] at hget
  exact ⟨by omega, hget, by omega⟩

theorem laid_blank (h : Laid cs k spans) (hc : cs.drop k = c :: rest) (hs : isSpace c = true) :
    Laid cs (k + 1) spans := by
  obtain ⟨hlt, hget, -⟩ := lt_of_drop hc
  refine ⟨hlt, h.ordered, fun s hs => ?_, h.spelled, h.munched, fun i hi hout d hd => ?_⟩
  · exact ⟨(h.within s hs).1, (h.within s hs).2.trans (Nat.le_succ k)⟩
  · rcases Nat.lt_succ_iff_lt_or_eq.mp hi with hi | rfl
    · exact h.blank i hi hout d hd
    · rw [hget] at hd
      cases hd
      exact hs

theorem laid_lexeme (h : Laid cs k spans) (hc : cs.drop k = c :: rest)
    (hb : Begins c rest l extra) : Laid cs (k + 1 + extra) (spans ++ [⟨k, k + 1 + extra, l⟩]) := by
  obtain ⟨more, after, rfl, rfl, hspelled, hmunched⟩ := hb
  obtain ⟨-, -, hlen⟩ := lt_of_drop hc
  have htext : Span.text ⟨k, k + 1 + more.length, l⟩ cs = c :: more := by
    have hcount : k + 1 + more.length - k = (c :: more).length := by
      rw [List.length_cons]
      omega
    rw [Span.text, hc, hcount]
    exact List.take_left
  have hafter : cs.drop (k + 1 + more.length) = after := by
    have hdrop : cs.drop (k + 1 + more.length) = (cs.drop k).drop (c :: more).length := by
      rw [List.drop_drop, List.length_cons]
      congr 1
      omega
    rw [hdrop, hc]
    exact List.drop_left
  have hmem {P : Span → Prop} (hP : ∀ s ∈ spans, P s) (hl : P ⟨k, k + 1 + more.length, l⟩) :
      ∀ s ∈ spans ++ [⟨k, k + 1 + more.length, l⟩], P s := by
    intro s hs
    rcases List.mem_append.mp hs with hs | hs
    · exact hP s hs
    · rw [List.mem_singleton.mp hs]
      exact hl
  refine ⟨?_, ?_, hmem (fun s hs => ?_) ?_, hmem h.spelled ?_, hmem h.munched ?_, ?_⟩
  · rw [List.length_append] at hlen
    omega
  · refine List.pairwise_append.mpr ⟨h.ordered, List.pairwise_singleton _ _, fun s hs t ht => ?_⟩
    rw [List.mem_singleton.mp ht]
    exact (h.within s hs).2
  · have hs := h.within s hs
    exact ⟨hs.1, by omega⟩
  · exact ⟨by simp only; omega, Nat.le_refl _⟩
  · rw [htext]
    exact hspelled
  · rw [htext, hafter]
    exact hmunched
  · intro i hi hout
    have hlast := hout _ (List.mem_append_right _ List.mem_cons_self)
    exact h.blank i (by simp only at hlast; omega) fun s hs => hout s (List.mem_append_left _ hs)

theorem scanLine_skip (line : Nat) {col : Nat} {cs : List Char} (he : extra ≤ cs.length) :
    scanLine line col extra cs = scanLine line (col + extra) 0 (cs.drop extra) := by
  induction cs generalizing col extra with
  | nil =>
    obtain rfl := Nat.le_zero.mp he
    rfl
  | cons c rest ih =>
    cases extra with
    | zero => rfl
    | succ extra =>
      have hcol : col + (extra + 1) = col + 1 + extra := by omega
      rw [hcol]
      exact ih (Nat.le_of_succ_le_succ he)

/-- The rest of a line that belongs to its last lexeme. -/
theorem scanLine_rest (line col : Nat) (cs : List Char) :
    scanLine line col cs.length cs = .ok [⟨.ofMark .newline, line, (col + cs.length : Nat)⟩] := by
  rw [scanLine_skip line (Nat.le_refl _), List.drop_length, scanLine]

theorem takeWhile_noBreak (hn : '\n' ∉ rest) : rest.takeWhile (· != '\n') = rest :=
  List.takeWhile_eq_self_iff.mpr fun c hc => by
    have hne : c ≠ '\n' := fun heq => hn (heq ▸ hc)
    simpa using hne

/-- Only blanks and comments are passed over. -/
theorem scan_skip (h : scan c rest = .skip extra) :
    (isSpace c = true ∧ extra = 0) ∨ (c = '#' ∧ scanComment rest = .skip extra) := by
  unfold scan at h
  split at h
  · next hs =>
    cases h
    exact .inl ⟨hs, rfl⟩
  split at h
  · next hc => exact .inr ⟨hc, h⟩
  split at h
  · cases h
  · cases h
  split at h
  · simp only [scanNumber, scanInt, scanFloat] at h
    split at h <;> split at h <;> cases h
  split at h
  · simp only [scanString] at h
    split at h <;> cases h
  split at h <;> cases h

/-- How a walk ends that goes on from some spans: with the tokens of further spans, or at a fault. -/
def WalkEnds (line : Nat) (cs : List Char) (spans : List Span) : Except LexError (List Token) → Prop
  | .ok row => ∃ more comment, Laid cs comment (spans ++ more) ∧
      (comment = cs.length ∨ cs[comment]? = some '#') ∧
      row = more.map (Span.token line) ++ [⟨.ofMark .newline, line, (cs.length + 1 : Nat)⟩]
  | .error e => ∃ more place, Broken line cs e (spans ++ more) place

theorem WalkEnds.token {s : Span} {r : Except LexError (List Token)}
    (h : WalkEnds line cs (spans ++ [s]) r) :
    WalkEnds line cs spans (r.map (s.token line :: ·)) := by
  cases r with
  | ok row =>
    obtain ⟨more, comment, hlaid, hcomment, rfl⟩ := h
    rw [List.append_assoc] at hlaid
    exact ⟨_, comment, hlaid, hcomment, rfl⟩
  | error e =>
    obtain ⟨more, place, hbroken⟩ := h
    rw [List.append_assoc] at hbroken
    exact ⟨_, place, hbroken⟩

/-- The walk goes on from what is laid out so far. -/
theorem scanLine_laid (hn : '\n' ∉ cs) (line : Nat) (h : Laid cs k spans) :
    WalkEnds line cs spans (scanLine line (k + 1) 0 (cs.drop k)) := by
  induction hm : cs.length - k using Nat.strong_induction_on generalizing k spans with
  | _ m ih =>
  cases hc : cs.drop k with
  | nil =>
    have hk : k = cs.length := Nat.le_antisymm h.le (List.drop_eq_nil_iff.mp hc)
    subst hk
    exact ⟨[], _, by rwa [List.append_nil], .inl rfl, rfl⟩
  | cons c rest =>
    obtain ⟨hlt, hget, hlen⟩ := lt_of_drop hc
    have hrest : cs.drop (k + 1) = rest := by
      rw [← List.drop_drop, hc]
      rfl
    have hnrest : '\n' ∉ rest := fun hmem =>
      hn (List.mem_of_mem_drop (hc ▸ List.mem_cons_of_mem c hmem))
    have hfurther := scan_further c rest
    simp only [scanLine]
    cases hs : scan c rest with
    | skip extra =>
      rcases scan_skip hs with ⟨hspace, rfl⟩ | ⟨rfl, hcomment⟩
      · have hnext := ih (cs.length - (k + 1)) (by omega) (laid_blank h hc hspace) rfl
        rwa [hrest] at hnext
      · rw [scanComment, takeWhile_noBreak hnrest] at hcomment
        cases hcomment
        have hcol : k + 1 + 1 + rest.length = cs.length + 1 := by omega
        simp only
        rw [scanLine_skip line (Nat.le_refl _), List.drop_length, hcol]
        exact ⟨[], k, by rwa [List.append_nil], .inr hget, rfl⟩
    | found l extra =>
      have hextra : extra ≤ rest.length := by rwa [hs] at hfurther
      have hdrop : rest.drop extra = cs.drop (k + 1 + extra) := by
        rw [← List.drop_drop, hrest]
      have hcol : k + 1 + 1 + extra = k + 1 + extra + 1 := by omega
      have hnext := ih (cs.length - (k + 1 + extra)) (by omega)
        (laid_lexeme h hc (begins_of_scan hs)) rfl
      rw [← hdrop, ← hcol, ← scanLine_skip line hextra] at hnext
      exact hnext.token
    | fault fault =>
      exact ⟨[], k, by rwa [List.append_nil], rfl, hc ▸ fault_of_scan hnrest hs⟩

theorem not_newline_of_spelledBy {text : List Char} (h : l.SpelledBy text) :
    l.kind ≠ .mark .newline := by
  cases h <;> exact nofun

theorem layout_of_scanLine (hn : '\n' ∉ cs) {row : List Token}
    (h : scanLine line 1 0 cs = .ok row) : ∃ spans comment, Layout line cs row spans comment := by
  have hlaid := scanLine_laid hn line (laid_nil cs)
  rw [List.drop_zero, h] at hlaid
  obtain ⟨spans, comment, hlaid, hcomment, htokens⟩ := hlaid
  rw [List.nil_append] at hlaid
  have hstart (s : Span) (hs : s ∈ spans) : s.start < s.stop ∧ s.stop ≤ cs.length :=
    ⟨(hlaid.within s hs).1, (hlaid.within s hs).2.trans hlaid.le⟩
  refine ⟨spans, comment, hlaid, hcomment, htokens, ?_, fun s hs => ?_⟩
  · rw [htokens]
    refine List.pairwise_append.mpr ⟨?_, List.pairwise_singleton _ _, fun t ht u hu => ?_⟩
    · refine List.pairwise_map.mpr (hlaid.ordered.imp_of_mem fun {s t} hs _ hst => ?_)
      have hs := hstart s hs
      simp only [Span.token]
      omega
    · obtain ⟨s, hs, rfl⟩ := List.mem_map.mp ht
      have hs := hstart s hs
      rw [List.mem_singleton.mp hu]
      simp only [Span.token]
      omega
  · exact not_newline_of_spelledBy (hlaid.spelled s hs)

theorem broken_of_scanLine (hn : '\n' ∉ cs) {e : LexError} (h : scanLine line 1 0 cs = .error e) :
    ∃ spans place, Broken line cs e spans place := by
  have hbroken := scanLine_laid hn line (laid_nil cs)
  rw [List.drop_zero, h] at hbroken
  exact hbroken

/-! ### All lines -/

/-- The rows of tokens of successive lines, the first of which has the given number. -/
def Rows (line : Nat) (lines : List (List Char)) (rows : List (List Token)) : Prop :=
  List.Forall₂ (fun l row => ∃ spans comment, Layout l.2 l.1 row spans comment)
    (lines.zipIdx line) rows

theorem rows_of_scanLines {xs : List (List Char)} {ts : List Token} (hn : ∀ cs ∈ xs, '\n' ∉ cs)
    (h : scanLines line xs = .ok ts) : ∃ rows, Rows line xs rows ∧ ts = rows.flatten := by
  induction xs generalizing line ts with
  | nil =>
    cases h
    exact ⟨[], .nil, rfl⟩
  | cons cs xs ih =>
    obtain ⟨hcs, hxs⟩ := List.forall_mem_cons.mp hn
    obtain ⟨row, more, hrow, hmore, rfl⟩ := scanLines_cons_ok.mp h
    obtain ⟨rows, hrows, rfl⟩ := ih hxs hmore
    exact ⟨row :: rows, .cons (layout_of_scanLine hcs hrow) hrows, rfl⟩

theorem broken_of_scanLines {xs : List (List Char)} {e : LexError} (hn : ∀ cs ∈ xs, '\n' ∉ cs)
    (h : scanLines line xs = .error e) :
    ∃ before cs after rows, xs = before ++ cs :: after ∧ Rows line before rows ∧
      ∃ spans place, Broken (line + before.length) cs e spans place := by
  induction xs generalizing line with
  | nil => cases h
  | cons cs xs ih =>
    obtain ⟨hcs, hxs⟩ := List.forall_mem_cons.mp hn
    rcases scanLines_cons_error.mp h with hrow | ⟨row, hrow, hmore⟩
    · exact ⟨[], cs, xs, [], rfl, .nil, broken_of_scanLine hcs hrow⟩
    · obtain ⟨before, cs', after, rows, rfl, hrows, hbroken⟩ := ih hxs hmore
      refine ⟨cs :: before, cs', after, row :: rows, rfl,
        .cons (layout_of_scanLine hcs hrow) hrows, ?_⟩
      rwa [List.length_cons, Nat.add_comm before.length, ← Nat.add_assoc]

end Lexer

open Lexer (Rows)

/-- The tokens of a text that is read are those of its lines, each of which is laid out in spans that
are as long as possible, up to its end or to a comment.  A text that is not read has a first line
that cannot be laid out, and the error is at the place of the fault. -/
theorem tokenize_layout (source : String) :
    (∀ ts, tokenize source = .ok ts →
      ∃ rows, Rows 1 (sourceLines source) rows ∧ ts = rows.flatten) ∧
    ∀ e, tokenize source = .error e →
      ∃ before cs after rows, sourceLines source = before ++ cs :: after ∧ Rows 1 before rows ∧
        ∃ spans place, Broken (1 + before.length) cs e spans place := by
  rw [Lexer.tokenize_eq_scanLines]
  exact ⟨fun _ => Lexer.rows_of_scanLines fun _ => sourceLines_noBreak,
    fun _ => Lexer.broken_of_scanLines fun _ => sourceLines_noBreak⟩

/-- A line with lexemes side by side and a comment, and a second line that cannot be read. -/
theorem tokenize_layout_adjacent :
    (∃ ts rows, tokenize "if1>=1.5.x#=" = .ok ts ∧ Rows 1 (sourceLines "if1>=1.5.x#=") rows ∧
      ts = rows.flatten) ∧
    ∃ e before cs after rows, tokenize "a\n =!b" = .error e ∧
      sourceLines "a\n =!b" = before ++ cs :: after ∧ Rows 1 before rows ∧
      ∃ spans place, Broken (1 + before.length) cs e spans place := by
  constructor
  · have hok : (tokenize "if1>=1.5.x#=").toOption.isSome = true := by decide +kernel
    cases h : tokenize "if1>=1.5.x#=" with
    | error e =>
      rw [h] at hok
      cases hok
    | ok ts =>
      obtain ⟨rows, hrows, hts⟩ := (tokenize_layout "if1>=1.5.x#=").1 ts h
      exact ⟨ts, rows, rfl, hrows, hts⟩
  · have h : tokenize "a\n =!b" = .error ⟨.unexpected '!', 2, 3⟩ := by decide +kernel
    obtain ⟨before, cs, after, rows, hlines, hrows, hbroken⟩ := (tokenize_layout "a\n =!b").2 _ h
    exact ⟨_, before, cs, after, rows, h, hlines, hrows, hbroken⟩

end ExScript
