import ExScript.Proofs.Lexemes
import ExScript.Proofs.MovedPositions

/-!
# A source text line by line

No lexeme reaches over the end of a line, so that a text is read one line at a time: `scanLine` reads
a line by itself, and the tokens of a text are those of its lines (`tokenize_eq_scanLines`).  Hence
the tokens of two texts with a line end between them are those of the first text and, some lines
further down, those of the second one (`tokenize_append`).
-/

namespace ExScript

/-- The lines of a text.  What follows the last line end is a line as well. -/
def sourceLines (source : String) : List (List Char) := source.toList.splitOn '\n'

/-- No line holds a line end. -/
theorem sourceLines_noBreak {source : String} {cs : List Char} (h : cs ∈ sourceLines source) :
    '\n' ∉ cs := by
  rw [sourceLines] at h
  generalize source.toList = text at h
  induction text generalizing cs with
  | nil =>
    rw [List.splitOn_nil, List.mem_singleton] at h
    subst h
    exact List.not_mem_nil
  | cons c rest ih =>
    rw [List.splitOn_cons_eq_if_modifyHead] at h
    split at h
    · rcases List.mem_cons.mp h with rfl | h
      · exact List.not_mem_nil
      · exact ih h
    · next hc =>
      obtain ⟨first, more, hsplit⟩ := List.exists_cons_of_ne_nil (List.splitOn_ne_nil '\n' rest)
      rw [hsplit] at h ih
      rcases List.mem_cons.mp h with rfl | h
      · intro hmem
        rcases List.mem_cons.mp hmem with heq | hmem
        · exact hc (by simp [← heq])
        · exact ih List.mem_cons_self hmem
      · exact ih (List.mem_cons_of_mem _ h)

theorem splitOn_line {cs : List Char} (h : '\n' ∉ cs) (more : List Char) :
    (cs ++ '\n' :: more).splitOn '\n' = cs :: more.splitOn '\n' := by
  rw [List.splitOn_append_cons_self, List.splitOn_eq_singleton h, List.singleton_append]

namespace Lexer

/-- The tokens of a line, read on from a column with `extra` characters still to pass over. -/
def scanLine (line col extra : Nat) : List Char → Except LexError (List Token)
  | [] => .ok [⟨.ofMark .newline, line, col⟩]
  | c :: rest =>
    match extra with
    | extra + 1 => scanLine line (col + 1) extra rest
    | 0 =>
      match scan c rest with
      | .skip extra => scanLine line (col + 1) extra rest
      | .found lexeme extra =>
        (scanLine line (col + 1) extra rest).map (⟨lexeme, line, col⟩ :: ·)
      | .fault fault => .error ⟨fault, line, col⟩

/-- The tokens of successive lines, the first of which has the given number. -/
def scanLines (line : Nat) : List (List Char) → Except LexError (List Token)
  | [] => .ok []
  | cs :: more => do
    let tokens ← scanLine line 1 0 cs
    return tokens ++ (← scanLines (line + 1) more)

variable {line col extra : Nat} {c : Char} {cs rest more : List Char}

theorem scanLines_cons_ok {xs : List (List Char)} {ts : List Token} :
    scanLines line (cs :: xs) = .ok ts ↔ ∃ row tokens, scanLine line 1 0 cs = .ok row ∧
      scanLines (line + 1) xs = .ok tokens ∧ ts = row ++ tokens := by
  rw [scanLines]
  cases scanLine line 1 0 cs with
  | error e => simp [bind, Except.bind]
  | ok row =>
    cases scanLines (line + 1) xs with
    | error e => simp [bind, Except.bind]
    | ok tokens => simp [bind, Except.bind, pure, Except.pure, eq_comm]

theorem scanLines_cons_error {xs : List (List Char)} {e : LexError} :
    scanLines line (cs :: xs) = .error e ↔ scanLine line 1 0 cs = .error e ∨
      ∃ row, scanLine line 1 0 cs = .ok row ∧ scanLines (line + 1) xs = .error e := by
  rw [scanLines]
  cases scanLine line 1 0 cs with
  | error e' => simp [bind, Except.bind]
  | ok row => cases scanLines (line + 1) xs <;> simp [bind, Except.bind, pure, Except.pure]

theorem scanLines_singleton (line : Nat) (cs : List Char) :
    scanLines line [cs] = scanLine line 1 0 cs := by
  rw [scanLines, scanLines]
  cases scanLine line 1 0 cs <;> simp [bind, Except.bind, pure, Except.pure]

/-! ## Lexemes end with the line -/

variable {d : Char}

/-- No number, no word and no symbol of two characters goes on with the character. -/
structure Stops (d : Char) : Prop where
  digit : d.isDigit = false
  point : d ≠ '.'
  equality : d ≠ '='
  word : Text.isWordChar d = false

theorem stops_lineFeed : Stops '\n' := ⟨rfl, by decide, by decide, by decide⟩

theorem takeWhile_stop {p : Char → Bool} (hp : p d = false) (cs more : List Char) :
    (cs ++ d :: more).takeWhile p = cs.takeWhile p := by
  induction cs with
  | nil => simp [hp]
  | cons c cs ih => by_cases hc : p c = true <;> simp [hc, ih]

theorem dropWhile_stop {p : Char → Bool} (hp : p d = false) (cs more : List Char) :
    (cs ++ d :: more).dropWhile p = cs.dropWhile p ++ d :: more := by
  induction cs with
  | nil => simp [hp]
  | cons c cs ih => by_cases hc : p c = true <;> simp [hc, ih]

theorem fractionDigits_stop (hd : Stops d) (cs more : List Char) :
    fractionDigits (cs ++ d :: more) = fractionDigits cs := by
  cases cs with
  | nil => simp [fractionDigits, hd.point]
  | cons c cs =>
    by_cases hc : c = '.'
    · subst hc
      exact takeWhile_stop hd.digit cs more
    · simp [fractionDigits, hc]

theorem drop_takeWhile (p : Char → Bool) (cs : List Char) :
    cs.drop (cs.takeWhile p).length = cs.dropWhile p := by
  induction cs with
  | nil => rfl
  | cons c cs ih => by_cases hc : p c = true <;> simp [hc, ih]

theorem scanString_line (cs more : List Char) :
    scanString (cs ++ '\n' :: more) = scanString cs := by
  simp only [scanString, drop_takeWhile]
  rw [takeWhile_stop (by decide), dropWhile_stop (by decide)]
  cases cs.dropWhile fun c => c != '\x22' && c != '\n' with
  | nil => rfl
  | cons c rest => by_cases hc : c = '\x22' <;> simp [hc]

theorem scanNumber_stop (hd : Stops d) (c : Char) (cs more : List Char) :
    scanNumber c (cs ++ d :: more) = scanNumber c cs := by
  simp only [scanNumber]
  rw [takeWhile_stop hd.digit, dropWhile_stop hd.digit, fractionDigits_stop hd]

theorem ofPair?_none (c : Char) : Symbol.ofPair? c none = none := by
  simp [Symbol.ofPair?]

theorem ofPair?_stop (hd : Stops d) (c : Char) (cs more : List Char) :
    Symbol.ofPair? c (cs ++ d :: more).head? = Symbol.ofPair? c cs.head? := by
  cases cs with
  | nil => simp [Symbol.ofPair?, hd.equality]
  | cons e cs => rfl

/-- Comments and strings apart, a lexeme is the same with more characters behind it. -/
theorem scan_stop (hd : Stops d) (hc : c ≠ '#')
    (hs : scanString (cs ++ d :: more) = scanString cs) :
    scan c (cs ++ d :: more) = scan c cs := by
  have hword : scanWord c (cs ++ d :: more) = scanWord c cs := by
    simp only [scanWord]
    rw [takeWhile_stop hd.word]
  simp only [scan, if_neg hc, ofPair?_stop hd, hword, scanNumber_stop hd, hs]

theorem scan_line (c : Char) (cs more : List Char) : scan c (cs ++ '\n' :: more) = scan c cs := by
  by_cases hc : c = '#'
  · subst hc
    exact congrArg (fun run : List Char => Scan.skip run.length) (takeWhile_stop (by decide) cs more)
  · exact scan_stop stops_lineFeed hc (scanString_line cs more)

/-- The characters that are passed over after the first one. -/
def Scan.further : Scan → Nat
  | .skip extra | .found _ extra => extra
  | .fault _ => 0

/-- The point comes on top of the digits. -/
theorem fractionDigits_shorter {cs : List Char} (h : fractionDigits cs ≠ []) :
    (fractionDigits cs).length < cs.length := by
  cases cs with
  | nil => exact absurd rfl h
  | cons c cs =>
    by_cases hc : c = '.'
    · subst hc
      exact Nat.lt_succ_of_le (List.takeWhile_prefix _).length_le
    · exact absurd (by simp [fractionDigits, hc]) h

theorem scanNumber_further (c : Char) (rest : List Char) :
    (scanNumber c rest).further ≤ rest.length := by
  have hsplit := congrArg List.length
    (List.takeWhile_append_dropWhile (p := Char.isDigit) (l := rest))
  rw [List.length_append] at hsplit
  unfold scanNumber
  split
  · simp only [scanInt]
    split
    · exact Nat.zero_le _
    · simp only [Scan.further, List.length_cons]
      omega
  · next hne =>
    have hshort := fractionDigits_shorter hne
    simp only [scanFloat]
    split
    · exact Nat.zero_le _
    · simp only [Scan.further, List.length_cons]
      omega

theorem scanString_further (rest : List Char) : (scanString rest).further ≤ rest.length := by
  simp only [scanString]
  split
  · next more hdrop =>
    have hlen := congrArg List.length hdrop
    rw [List.length_drop, List.length_cons] at hlen
    simp only [Scan.further]
    omega
  · exact Nat.zero_le _

theorem scan_further (c : Char) (rest : List Char) : (scan c rest).further ≤ rest.length := by
  unfold scan
  split
  · exact Nat.zero_le _
  split
  · exact (List.takeWhile_prefix _).length_le
  split
  · next hpair =>
    cases rest with
    | nil =>
      rw [List.head?_nil, ofPair?_none] at hpair
      cases hpair
    | cons => exact Nat.succ_le_succ (Nat.zero_le _)
  · exact Nat.zero_le _
  split
  · exact scanNumber_further c rest
  split
  · exact scanString_further rest
  split
  · exact (List.takeWhile_prefix _).length_le
  · exact Nat.zero_le _

/-! ## The end of a line -/

/-- A lexeme of a line is neither a line end nor the end of the input. -/
theorem kind_of_scan {l : Lexeme} (h : scan c rest = .found l extra) :
    l.kind ≠ .mark .newline ∧ l.kind ≠ .mark .endOfInput := by
  unfold scan at h
  split at h
  · cases h
  split at h
  · simp [scanComment] at h
  split at h
  · cases h
    constructor <;> (intro hk; cases hk)
  · cases h
    constructor <;> (intro hk; cases hk)
  split at h
  · unfold scanNumber at h
    split at h
    · simp only [scanInt] at h
      split at h <;> cases h
      constructor <;> (intro hk; cases hk)
    · simp only [scanFloat] at h
      split at h <;> cases h
      constructor <;> (intro hk; cases hk)
  split at h
  · simp only [scanString] at h
    split at h <;> cases h
    constructor <;> (intro hk; cases hk)
  split at h
  · simp only [scanWord, wordLexeme] at h
    split at h <;> cases h <;> constructor <;> (intro hk; cases hk)
  · cases h

/-- The only line end among the tokens of a line comes last, one column behind the line. -/
theorem scanLine_ends {ts : List Token} (h : scanLine line col extra cs = .ok ts) :
    ∃ before, ts = before ++ [⟨.ofMark .newline, line, (col + cs.length : Nat)⟩] ∧
      ∀ t ∈ before, t.kind ≠ .mark .newline ∧ t.kind ≠ .mark .endOfInput := by
  induction cs generalizing col extra ts with
  | nil =>
    cases h
    exact ⟨[], rfl, nofun⟩
  | cons c rest ih =>
    have hcol : col + (c :: rest).length = col + 1 + rest.length := by
      rw [List.length_cons]
      omega
    rw [hcol]
    cases extra with
    | succ extra => exact ih h
    | zero =>
      simp only [scanLine] at h
      cases hs : scan c rest with
      | skip extra =>
        rw [hs] at h
        exact ih h
      | fault f =>
        rw [hs] at h
        cases h
      | found l extra =>
        simp only [hs] at h
        cases hr : scanLine line (col + 1) extra rest with
        | error e =>
          rw [hr] at h
          cases h
        | ok tail =>
          rw [hr] at h
          cases h
          obtain ⟨before, rfl, hbefore⟩ := ih hr
          exact ⟨_ :: before, rfl, List.forall_mem_cons.mpr ⟨kind_of_scan hs, hbefore⟩⟩

/-! ## Texts are read line by line -/

theorem tokenizeFrom_last (hcs : '\n' ∉ cs) (line col extra : Nat) (found : List Token) :
    tokenizeFrom line col extra cs found =
      (scanLine line col extra cs).map (found.reverse ++ ·) := by
  induction cs generalizing col extra found with
  | nil => simp [tokenizeFrom, scanLine, Except.map]
  | cons c rest ih =>
    obtain ⟨hc, hrest⟩ : '\n' ≠ c ∧ '\n' ∉ rest := by simpa using hcs
    cases extra with
    | succ extra => exact ih hrest _ _ _
    | zero =>
      simp only [tokenizeFrom, scanLine, if_neg (Ne.symm hc)]
      cases scan c rest with
      | skip extra => exact ih hrest _ _ _
      | fault f => rfl
      | found l extra =>
        simp only [ih hrest]
        cases scanLine line (col + 1) extra rest <;> simp [Except.map]

theorem tokenizeFrom_line (hcs : '\n' ∉ cs) (more : List Char) (line col : Nat)
    (he : extra ≤ cs.length) (found : List Token) :
    tokenizeFrom line col extra (cs ++ '\n' :: more) found = (do
      let tokens ← scanLine line col extra cs
      tokenizeFrom (line + 1) 1 0 more (tokens.reverse ++ found)) := by
  induction cs generalizing col extra found with
  | nil =>
    obtain rfl := Nat.le_zero.mp he
    rfl
  | cons c rest ih =>
    obtain ⟨hc, hrest⟩ : '\n' ≠ c ∧ '\n' ∉ rest := by simpa using hcs
    cases extra with
    | succ extra => exact ih hrest _ (Nat.le_of_succ_le_succ he) _
    | zero =>
      have hextra := scan_further c rest
      simp only [List.cons_append, tokenizeFrom, scanLine, if_neg (Ne.symm hc), scan_line]
      cases hs : scan c rest with
      | skip extra => exact ih hrest _ (by rwa [hs] at hextra) _
      | fault f => rfl
      | found l extra =>
        rw [hs] at hextra
        have hrest := ih hrest (col + 1) hextra (⟨l, line, col⟩ :: found)
        simp only [Scan.further] at hrest ⊢
        rw [hrest]
        cases scanLine line (col + 1) extra rest <;> simp [Except.map, bind, Except.bind]

theorem tokenizeFrom_eq_scanLines (cs : List Char) (line : Nat) (found : List Token) :
    tokenizeFrom line 1 0 cs found =
      (scanLines line (cs.splitOn '\n')).map (found.reverse ++ ·) := by
  induction hn : cs.length using Nat.strong_induction_on generalizing cs line found with
  | _ n ih =>
    by_cases hmem : '\n' ∈ cs
    · obtain ⟨first, more, rfl, hfirst⟩ := List.eq_append_cons_of_mem hmem
      have hshort : more.length < n := by
        rw [← hn, List.length_append, List.length_cons]
        omega
      rw [tokenizeFrom_line hfirst more line 1 (Nat.zero_le _), splitOn_line hfirst, scanLines]
      cases scanLine line 1 0 first with
      | error e => rfl
      | ok tokens =>
        change tokenizeFrom (line + 1) 1 0 more _ = _
        rw [ih _ hshort more (line + 1) _ rfl]
        cases scanLines (line + 1) (more.splitOn '\n') <;>
          simp [Except.map, bind, Except.bind, pure, Except.pure]
    · rw [tokenizeFrom_last hmem, List.splitOn_eq_singleton hmem, scanLines_singleton]

theorem tokenize_eq_scanLines (source : String) :
    tokenize source = scanLines 1 (sourceLines source) := by
  rw [tokenize, tokenizeFrom_eq_scanLines, ← sourceLines]
  cases scanLines 1 (sourceLines source) <;> rfl

theorem tokenize_line (h : '\n' ∉ cs) : tokenize (String.ofList cs) = scanLine 1 1 0 cs := by
  rw [tokenize_eq_scanLines, sourceLines, String.toList_ofList, List.splitOn_eq_singleton h,
    scanLines_singleton]

/-! ## Two texts, one after the other -/

theorem scanLines_append (xs ys : List (List Char)) (line : Nat) :
    scanLines line (xs ++ ys) = (do
      let tokens ← scanLines line xs
      return tokens ++ (← scanLines (line + xs.length) ys)) := by
  induction xs generalizing line with
  | nil =>
    simp only [List.nil_append, scanLines, List.length_nil, Nat.add_zero]
    cases scanLines line ys <;> rfl
  | cons cs xs ih =>
    have hline : line + (cs :: xs).length = line + 1 + xs.length := by
      rw [List.length_cons]
      omega
    simp only [List.cons_append, scanLines, ih, hline]
    cases scanLine line 1 0 cs with
    | error e => rfl
    | ok first =>
      simp only [bind, Except.bind]
      cases scanLines (line + 1) xs with
      | error e => rfl
      | ok second =>
        simp only
        cases scanLines (line + 1 + xs.length) ys with
        | error e => rfl
        | ok third => simp [pure, Except.pure]

/-- Some lines further down, a line has the same tokens. -/
theorem scanLine_down (lines : Nat) {ts : List Token} (h : scanLine line col extra cs = .ok ts) :
    scanLine (line + lines) col extra cs = .ok (ts.map (Token.mapPos (Pos.down lines))) := by
  have hpos (l : Lexeme) (col : Nat) : Token.mapPos (Pos.down lines) ⟨l, line, col⟩ =
      ⟨l, (line + lines : Nat), col⟩ := by
    simp [Token.mapPos, Pos.down]
  induction cs generalizing col extra ts with
  | nil =>
    cases h
    simp [scanLine, hpos]
  | cons c rest ih =>
    cases extra with
    | succ extra => exact ih h
    | zero =>
      simp only [scanLine] at h ⊢
      cases hs : scan c rest with
      | skip extra =>
        rw [hs] at h
        exact ih h
      | fault f =>
        rw [hs] at h
        cases h
      | found l extra =>
        simp only [hs] at h ⊢
        cases hr : scanLine line (col + 1) extra rest with
        | error e =>
          rw [hr] at h
          cases h
        | ok tail =>
          rw [hr] at h
          cases h
          rw [ih hr]
          simp [Except.map, hpos]

theorem scanLines_down (lines : Nat) {xs : List (List Char)} {ts : List Token}
    (h : scanLines line xs = .ok ts) :
    scanLines (line + lines) xs = .ok (ts.map (Token.mapPos (Pos.down lines))) := by
  induction xs generalizing line ts with
  | nil =>
    cases h
    rfl
  | cons cs xs ih =>
    obtain ⟨first, second, hfirst, hsecond, rfl⟩ := scanLines_cons_ok.mp h
    have hnext := ih hsecond
    rw [Nat.add_right_comm] at hnext
    exact scanLines_cons_ok.mpr ⟨_, _, scanLine_down lines hfirst, hnext, List.map_append⟩

theorem sourceLines_append (s t : String) :
    sourceLines (s ++ "\n" ++ t) = sourceLines s ++ sourceLines t := by
  rw [sourceLines, sourceLines, sourceLines, ← List.splitOn_append_cons_self]
  simp

theorem tokenize_append {s t : String} {ts us : List Token} (hs : tokenize s = .ok ts)
    (ht : tokenize t = .ok us) :
    tokenize (s ++ "\n" ++ t) =
      .ok (ts ++ us.map (Token.mapPos (Pos.down (sourceLines s).length))) := by
  rw [tokenize_eq_scanLines] at hs ht ⊢
  rw [sourceLines_append, scanLines_append, hs, scanLines_down _ ht]
  rfl

end Lexer

end ExScript
