import ExScript.Proofs.LexicalLayout

/-!
# Lines that were written down

Lexemes are written down one after the other, with blanks between them and possibly a comment behind
them.  Nothing of the layout comes back: the text is read as the lexemes of its lines, each line
with its end (`tokenize_lines`).  Blanks, comments and line ends are not the only things that may
follow a lexeme, but behind them no lexeme can be read for longer than it was written (`Breaks`).
-/

namespace ExScript

/-! ## Written lexemes -/

/-- The spellings of a lexeme: an integer may have zeros in front, everything else has only one. -/
inductive Lexeme.WrittenAs : Lexeme → List Char → Prop
  | symbol (s : Symbol) : WrittenAs (.ofMark (.symbol s)) s.text.toList
  | keyword (k : Keyword) : WrittenAs (.ofMark (.keyword k)) k.text.toList
  | name {text : String} (h : IsName text) : WrittenAs (.name text) text.toList
  | int {value : Int} (h : IsIntLiteral value) (zeros : Nat) :
    WrittenAs (.int value) (List.replicate zeros '0' ++ (toString value).toList)
  | float {value : Float} {text : String} (h : IsFloatLiteral value)
    (ht : Number.literalText? value = some text) : WrittenAs (.float value) text.toList
  | string {text : String} (h : IsStringLiteral text) :
    WrittenAs (.string text) ('\x22' :: text.toList ++ ['\x22'])

def Blanks (cs : List Char) : Prop := ∀ c ∈ cs, Lexer.isSpace c = true

/-- Lexemes with at least one blank between them. -/
inductive SpacedOut : List Lexeme → List Char → Prop
  | nil : SpacedOut [] []
  | one {l : Lexeme} {text : List Char} (h : l.WrittenAs text) : SpacedOut [l] text
  | cons {l next : Lexeme} {more : List Lexeme} {text gap rest : List Char} (h : l.WrittenAs text)
    (hb : Blanks gap) (hne : gap ≠ []) (hr : SpacedOut (next :: more) rest) :
    SpacedOut (l :: next :: more) (text ++ gap ++ rest)

/-- Nothing, or a comment. -/
inductive IsComment : List Char → Prop
  | none : IsComment []
  | some {text : List Char} (h : '\n' ∉ text) : IsComment ('#' :: text)

/-- The text of a line with the given lexemes. -/
inductive LineWrittenAs : List Lexeme → List Char → Prop
  | intro {ls : List Lexeme} {front text back comment : List Char} (hf : Blanks front)
    (hs : SpacedOut ls text) (hb : Blanks back) (hc : IsComment comment) :
    LineWrittenAs ls (front ++ text ++ back ++ comment)

/-! ## Reading them -/

namespace Lexer

variable {text gap rest comment : List Char} {l : Lexeme} {ls : List Lexeme}

/-- The rest begins with a blank, a comment or the end of the line. -/
def Breaks (rest : List Char) : Prop :=
  ∀ c ∈ rest.head?, isSpace c = true ∨ c = '#' ∨ c = '\n'

/-- A character of a break is none of a word, a number or a symbol. -/
theorem break_cases {c : Char} (h : isSpace c = true ∨ c = '#' ∨ c = '\n') :
    c = ' ' ∨ c = '\t' ∨ c = '\r' ∨ c = '#' ∨ c = '\n' := by
  simp only [isSpace, Bool.or_eq_true, decide_eq_true_eq] at h
  tauto

theorem Breaks.ends (h : Breaks rest) : Ends rest := by
  constructor
  · intro c hc
    rcases break_cases (h c hc) with rfl | rfl | rfl | rfl | rfl <;> decide
  · rintro more rfl
    have hdot := h '.' rfl
    simp [isSpace] at hdot

theorem Breaks.single (h : Breaks rest) (c : Char) : Symbol.ofPair? c rest.head? = none := by
  have heq : rest.head? ≠ some '=' := by
    intro he
    have hc := h '=' he
    simp [isSpace] at hc
  unfold Symbol.ofPair?
  split <;> simp_all

theorem breaks_append (hb : Blanks gap) (hr : Breaks rest) : Breaks (gap ++ rest) := by
  cases gap with
  | nil => exact hr
  | cons c gap =>
    intro d hd
    cases hd
    exact .inl (hb c List.mem_cons_self)

theorem breaks_gap (hb : Blanks gap) (hne : gap ≠ []) (rest : List Char) :
    Breaks (gap ++ rest) := by
  cases gap with
  | nil => exact absurd rfl hne
  | cons c gap =>
    intro d hd
    cases hd
    exact .inl (hb c List.mem_cons_self)

theorem IsComment.breaks (h : IsComment comment) (hr : Breaks rest) : Breaks (comment ++ rest) := by
  cases h with
  | none => exact hr
  | some h => simp [Breaks]

theorem reads_blank {c : Char} (h : isSpace c = true) (rest : List Char) : Reads [c] [] rest := by
  have hc : c ≠ '\n' := by
    rintro rfl
    cases h
  have hl : lexemes 0 (c :: rest) = lexemes 0 rest := by simp [lexemes, hc, scan, h]
  show lexemes 0 (c :: rest) = _
  rw [hl]
  exact reads_nil rest

theorem reads_blanks (h : Blanks gap) (rest : List Char) : Reads gap [] rest := by
  induction gap with
  | nil => exact reads_nil rest
  | cons c gap ih =>
    have hfirst := reads_blank (h c List.mem_cons_self) (gap ++ rest)
    exact hfirst.append (ih fun d hd => h d (List.mem_cons_of_mem _ hd))

/-- A comment reaches to the end of its line. -/
theorem reads_comment (h : IsComment comment) (hr : ∀ c ∈ rest.head?, c = '\n') :
    Reads comment [] rest := by
  cases h with
  | none => exact reads_nil rest
  | @some text h =>
    have htake : (text ++ rest).takeWhile (· != '\n') = text := by
      apply takeWhile_run
      · intro c hc
        have hne : c ≠ '\n' := fun he => h (he ▸ hc)
        simp [hne]
      · intro c hc
        simp [hr c hc]
    have hl : lexemes 0 ('#' :: (text ++ rest)) = lexemes 0 rest := by
      simp [lexemes, scan, isSpace, scanComment, htake, lexemes_skip]
    show lexemes 0 ('#' :: (text ++ rest)) = _
    rw [hl]
    exact reads_nil rest

theorem reads_symbol_text (s : Symbol) (hr : Breaks rest) :
    Reads s.text.toList [.ofMark (.symbol s)] rest := by
  cases s with
  | equal => exact reads_pair rest (c := '=') rfl
  | notEqual => exact reads_pair rest (c := '!') rfl
  | atLeast => exact reads_pair rest (c := '>') rfl
  | atMost => exact reads_pair rest (c := '<') rfl
  | greater => exact reads_symbol (c := '>') rfl (hr.single _)
  | less => exact reads_symbol (c := '<') rfl (hr.single _)
  | plus => exact reads_symbol (c := '+') rfl (hr.single _)
  | minus => exact reads_symbol (c := '-') rfl (hr.single _)
  | star => exact reads_symbol (c := '*') rfl (hr.single _)
  | slash => exact reads_symbol (c := '/') rfl (hr.single _)
  | assign => exact reads_symbol (c := '=') rfl (hr.single _)
  | dot => exact reads_symbol (c := '.') rfl (hr.single _)
  | comma => exact reads_symbol (c := ',') rfl (hr.single _)
  | openParen => exact reads_symbol (c := '(') rfl (hr.single _)
  | closeParen => exact reads_symbol (c := ')') rfl (hr.single _)
  | openBrace => exact reads_symbol (c := '\x7b') rfl (hr.single _)
  | closeBrace => exact reads_symbol (c := '\x7d') rfl (hr.single _)
  | openBracket => exact reads_symbol (c := '[') rfl (hr.single _)
  | closeBracket => exact reads_symbol (c := ']') rfl (hr.single _)

/-- Before a break a written lexeme is read as itself. -/
theorem reads_written (h : l.WrittenAs text) (hr : Breaks rest) : Reads text [l] rest := by
  cases h with
  | symbol s => exact reads_symbol_text s hr
  | keyword k => exact reads_keyword k hr.ends
  | name h => exact reads_name h hr.ends
  | int h zeros => exact reads_int_zeros h zeros hr.ends
  | @float value literal h ht =>
    obtain ⟨text, whole, fraction, ht', hsplit, hw, hf, hb, hv⟩ :=
      Number.literalText?_split h.1 h.2
    have heq : text = literal := Option.some.inj (ht'.symm.trans ht)
    rw [← heq, hsplit, ← hv]
    exact reads_float hw hf hr.ends hb
  | @string body h =>
    have hread := reads_string rest h
    have htext : ("\"" ++ body ++ "\"").toList = '\x22' :: body.toList ++ ['\x22'] := by simp
    rwa [htext] at hread

theorem reads_spacedOut (h : SpacedOut ls text) (hr : Breaks rest) : Reads text ls rest := by
  induction h with
  | nil => exact reads_nil rest
  | one h => exact reads_written h hr
  | @cons l next more text gap text' h hb hne _ ih =>
    have hgap := reads_blanks hb (text' ++ rest)
    have hfirst : Reads text [l] (gap ++ (text' ++ rest)) :=
      reads_written h (breaks_gap hb hne _)
    have hfront : Reads (text ++ gap) [l] (text' ++ rest) := hfirst.append hgap
    exact hfront.append ih

/-- A line is read as its lexemes if the text ends behind it or goes on with another line. -/
theorem reads_line (h : LineWrittenAs ls text) (hr : ∀ c ∈ rest.head?, c = '\n') :
    Reads text ls rest := by
  cases h with
  | @intro front text back comment hf hs hb hc =>
    have hrest : Breaks rest := fun c hc => .inr (.inr (hr c hc))
    have hcomment := reads_comment hc hr
    have hback : Reads (back ++ comment) [] rest := (reads_blanks hb _).append hcomment
    have hbreak : Breaks (back ++ comment ++ rest) := by
      rw [List.append_assoc]
      exact breaks_append hb (IsComment.breaks hc hrest)
    have htext : Reads (text ++ (back ++ comment)) (ls ++ []) rest :=
      (reads_spacedOut hs hbreak).append hback
    have hall := (reads_blanks hf _).append htext
    simpa using hall

/-- Every line is read as its lexemes and the line end. -/
theorem lexemes_lines {line : List Lexeme} {lines : List (List Lexeme)} {first : List Char}
    {texts : List (List Char)} (hfirst : LineWrittenAs line first)
    (h : List.Forall₂ LineWrittenAs lines texts) :
    lexemes 0 (['\n'].intercalate (first :: texts))
      = some ((line :: lines).flatMap (· ++ [.ofMark .newline])) := by
  induction h generalizing line first with
  | nil =>
    have hread : Reads first line [] := reads_line hfirst (by simp)
    simpa [Reads, lexemes] using hread
  | @cons next text lines texts hnext _ ih =>
    have hread : Reads first line ('\n' :: ['\n'].intercalate (text :: texts)) :=
      reads_line hfirst (by simp)
    have htail : lexemes 0 ('\n' :: ['\n'].intercalate (text :: texts))
        = some (.ofMark .newline :: (next :: lines).flatMap (· ++ [.ofMark .newline])) := by
      simp [lexemes, ih hnext]
    rw [List.intercalate_cons_cons, List.append_assoc]
    show lexemes 0 (first ++ '\n' :: ['\n'].intercalate (text :: texts)) = _
    rw [hread, htail]
    simp

end Lexer

/-- Whatever the blanks, the comments and the zeros in front of integers, lines that were written
down are read, and what is read are their lexemes with a line end behind each of the lines. -/
theorem tokenize_lines {lines : List (List Lexeme)} {texts : List (List Char)} (hne : lines ≠ [])
    (h : List.Forall₂ LineWrittenAs lines texts) :
    ∃ ts, tokenize (String.ofList (['\n'].intercalate texts)) = .ok ts ∧
      ts.map Token.lexeme = lines.flatMap (· ++ [.ofMark .newline]) := by
  cases h with
  | nil => exact absurd rfl hne
  | cons hfirst hrest =>
    have hlexemes := Lexer.lexemes_lines hfirst hrest
    obtain ⟨ts, hts, hmap⟩ := Lexer.tokenizeFrom_of_lexemes hlexemes 1 1 []
    refine ⟨ts, ?_, hmap⟩
    rw [tokenize, String.toList_ofList]
    simpa using hts

/-- A line with zeros, a tab and a comment, and an empty line. -/
theorem tokenize_lines_comment :
    ∃ ts, tokenize (String.ofList (['\n'].intercalate ["\tx 007#=\"".toList, []])) = .ok ts ∧
      ts.map Token.lexeme
        = [[.name "x", .int 7], []].flatMap (· ++ [.ofMark .newline]) := by
  have hword : Text.isWordChar 'x' = true := by decide
  have hname : IsName "x" := ⟨by simp, by simp [hword], by simp, by decide⟩
  have hx : Lexeme.WrittenAs (.name "x") ['x'] := .name hname
  have hseven : Lexeme.WrittenAs (.int 7) ['0', '0', '7'] := .int ⟨by decide, by decide⟩ 2
  have hspaced : SpacedOut [.name "x", .int 7] (['x'] ++ [' '] ++ ['0', '0', '7']) :=
    .cons hx (by simp [Blanks, Lexer.isSpace]) (by simp) (.one hseven)
  have hline : LineWrittenAs [.name "x", .int 7]
      (['\t'] ++ (['x'] ++ [' '] ++ ['0', '0', '7']) ++ [] ++ ['#', '=', '\x22']) :=
    .intro (by simp [Blanks, Lexer.isSpace]) hspaced (by simp [Blanks]) (.some (by simp))
  have hempty : LineWrittenAs [] ([] ++ [] ++ [] ++ []) :=
    .intro (by simp [Blanks]) .nil (by simp [Blanks]) .none
  exact tokenize_lines (by simp) (.cons hline (.cons hempty .nil))

end ExScript
