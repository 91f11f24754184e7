import ExScript.Proofs.IntegerRange
import ExScript.Proofs.LexicalLayout
import ExScript.Proofs.TextConversions

/-!
# Integers in source texts

A text of ASCII digits means its value to everyone who reads it, however many digits there are and
however many of them are zeros in front (`DigitsMean`).  The lexer makes a token of it up to the
magnitude of the least integer.  A run ends with the value alone or behind a plus up to the largest
integer, and behind a minus up to the least one.  So the display text of any integer in range is a
program that ends with this integer, and it is converted to this integer (`integer_texts_agree`).
-/

namespace ExScript

open Eval Number

variable {digits cs : List Char} {line col : Nat}

/-! ## Tokens -/

namespace Lexer

theorem scanLine_digits (h : IsDigitRun digits)
    (hv : Nat.ofDigitChars 10 digits 0 ≤ maxIntLiteral) (line col : Nat) :
    scanLine line col 0 digits = .ok [⟨.int (Nat.ofDigitChars 10 digits 0), line, col⟩,
      ⟨.ofMark .newline, line, (col + digits.length : Nat)⟩] := by
  obtain ⟨c, more, rfl⟩ := List.exists_cons_of_ne_nil h.nonempty
  have hscan := (scan_digits h ends_nil).1
  rw [List.append_nil] at hscan
  simp only [scanLine, hscan, scanInt, if_neg (Nat.not_lt.mpr hv), List.length_cons,
    Nat.add_sub_cancel, scanLine_rest, Nat.add_right_comm col 1 more.length]
  rfl

theorem scanLine_digits_error (h : IsDigitRun digits)
    (hv : maxIntLiteral < Nat.ofDigitChars 10 digits 0) (line col : Nat) :
    scanLine line col 0 digits = .error ⟨.intRange, line, col⟩ := by
  obtain ⟨c, more, rfl⟩ := List.exists_cons_of_ne_nil h.nonempty
  have hscan := (scan_digits h ends_nil).1
  rw [List.append_nil] at hscan
  simp only [scanLine, hscan, scanInt, if_pos hv]

/-- The character is this symbol wherever it stands. -/
def Alone (c : Char) (s : Symbol) : Prop :=
  ∀ line col cs, scanLine line col 0 (c :: cs) =
    (scanLine line (col + 1) 0 cs).map (⟨.ofMark (.symbol s), line, col⟩ :: ·)

theorem alone_plus : Alone '+' .plus := fun _ _ _ => rfl

theorem alone_minus : Alone '-' .minus := fun _ _ _ => rfl

end Lexer

theorem Number.IsDigitRun.noBreak_cons (h : IsDigitRun digits) {c : Char} (hc : '\n' ≠ c) :
    '\n' ∉ c :: digits :=
  List.not_mem_cons_of_ne_of_not_mem hc h.noBreak

/-! ## Programs of a single literal -/

theorem parse_of_scanLine {ts : List Token} {p : Program} (hcs : '\n' ∉ cs)
    (hts : Lexer.scanLine 1 1 0 cs = .ok ts) (hp : parseTokens ts = .ok p) :
    parse (String.ofList cs) = .ok p :=
  parse_ok.mpr ⟨ts, (Lexer.tokenize_line hcs).trans hts, hp⟩

theorem parse_digits (h : IsDigitRun digits)
    (hv : Nat.ofDigitChars 10 digits 0 ≤ Lexer.maxIntLiteral) :
    parse (String.ofList digits) =
      .ok ⟨⟨1, 1⟩, [.int ⟨1, 1⟩ (Nat.ofDigitChars 10 digits 0)]⟩ :=
  parse_of_scanLine h.noBreak (Lexer.scanLine_digits h hv 1 1) rfl

theorem parse_signed_digits {c : Char} {s : Symbol} {op : UnaryOp} (h : IsDigitRun digits)
    (hv : Nat.ofDigitChars 10 digits 0 ≤ Lexer.maxIntLiteral) (hc : '\n' ≠ c)
    (ha : Lexer.Alone c s) (hs : Parser.sign? (Parser.symbolKind s) = some op) :
    parse (String.ofList (c :: digits)) =
      .ok ⟨⟨1, 1⟩, [.unary ⟨1, 1⟩ op (.int ⟨1, 2⟩ (Nat.ofDigitChars 10 digits 0))]⟩ := by
  have hts := congrArg (Except.map (⟨.ofMark (.symbol s), 1, 1⟩ :: ·))
    (Lexer.scanLine_digits h hv 1 2)
  refine parse_of_scanLine (h.noBreak_cons hc) ((ha 1 1 digits).trans hts) ?_
  cases s <;> cases hs <;> rfl

/-! ## Running them -/

/-- However it is run, the program ends like this and neither reads nor writes. -/
def RunsTo (source : String) (result : Except RunFailure (Option Value)) : Prop :=
  ∀ (env : Env) (streams : Streams), Session.Hosted env.maxDepth →
    runSource env streams source = (result, streams)

/-- What becomes of an integer that a program puts on the channel at a position. -/
def checkedResult (n : Int) (pos : Pos) : Except RunFailure (Option Value) :=
  if inIntRange n then .ok (some (.int n)) else .error (.abort (.failed ⟨.overflow, some pos⟩))

/-- A plus does nothing but want an operand, which is there. -/
theorem exec_plus_int (env : Env) (frames : Nat) (pos pos' : Pos) (n : Int) :
    exec env (frames + 2) (.unary pos .plus (.int pos' n)) = pushInt n pos' := by
  funext m
  change EStateM.bind (pushInt n pos') _ m = _
  rw [EStateM.bind, pushInt_apply]
  by_cases hn : inIntRange n = true
  · rw [if_pos hn]
    rfl
  · rw [if_neg hn]

theorem runsTo_of_pushInt {source : String} {pos pos' : Pos} {node : Node} {n : Int}
    (hp : parse source = .ok ⟨pos, [node]⟩)
    (h : ∀ env frames, exec env (frames + 2) node = pushInt n pos') :
    RunsTo source (checkedResult n pos') := by
  intro env streams hhost
  obtain ⟨frames, hframes⟩ := Session.frameLimit_eq_add env.maxDepth 4 (by decide)
  have hexec := (exec_single env (frames + 2) pos node).trans (h env frames)
  simp only [runSource, Session.runSource, hp, Session.run,
    Session.runMachine_of_hosted hhost, Session.runHosted, Session.create, hframes, Program.toNode,
    hexec, pushInt_apply, checkedResult]
  by_cases hn : inIntRange n = true
  · simp only [if_pos hn]
    rfl
  · simp only [if_neg hn]
    rfl

theorem runsTo_digits (h : IsDigitRun digits)
    (hv : Nat.ofDigitChars 10 digits 0 ≤ Lexer.maxIntLiteral) :
    RunsTo (String.ofList digits) (checkedResult (Nat.ofDigitChars 10 digits 0) ⟨1, 1⟩) :=
  runsTo_of_pushInt (parse_digits h hv) fun _ _ => rfl

theorem runsTo_plus_digits (h : IsDigitRun digits)
    (hv : Nat.ofDigitChars 10 digits 0 ≤ Lexer.maxIntLiteral) :
    RunsTo (String.ofList ('+' :: digits)) (checkedResult (Nat.ofDigitChars 10 digits 0) ⟨1, 2⟩) :=
  runsTo_of_pushInt (parse_signed_digits h hv (by decide) Lexer.alone_plus rfl)
    fun env frames => exec_plus_int env frames _ _ _

theorem runsTo_minus_digits (h : IsDigitRun digits)
    (hv : Nat.ofDigitChars 10 digits 0 ≤ Lexer.maxIntLiteral) :
    RunsTo (String.ofList ('-' :: digits)) (checkedResult (-Nat.ofDigitChars 10 digits 0) ⟨1, 1⟩) :=
  runsTo_of_pushInt (parse_signed_digits h hv (by decide) Lexer.alone_minus rfl) fun _ _ => rfl

theorem checkedResult_of_inRange {n : Int} (h : InRange n) (pos : Pos) :
    checkedResult n pos = .ok (some (.int n)) :=
  if_pos (inIntRange_iff.mpr h)

theorem checkedResult_of_not_inRange {n : Int} (h : ¬ InRange n) (pos : Pos) :
    checkedResult n pos = .error (.abort (.failed ⟨.overflow, some pos⟩)) :=
  if_neg (mt inIntRange_iff.mp h)

/-! ## Refusals -/

/-- The lexer and every run refuse the text as an integer that is too large. -/
def TooLarge (source : String) : Prop :=
  ∃ e : LexError, e.fault.message = "integer literal out of range" ∧
    tokenize source = .error e ∧ ∀ (env : Env) (streams : Streams),
      runSource env streams source = (.error (.source (.lex e)), streams)

/-- Every run fails for an integer that is not in range. -/
def Overflows (source : String) : Prop :=
  ∃ e : RunError, e.cause.message = "integer overflow" ∧
    RunsTo source (.error (.abort (.failed e)))

theorem tooLarge_of_scanLine {pos : Pos} (hcs : '\n' ∉ cs)
    (h : Lexer.scanLine 1 1 0 cs = .error ⟨.intRange, pos⟩) : TooLarge (String.ofList cs) := by
  have htokens := (Lexer.tokenize_line hcs).trans h
  refine ⟨⟨.intRange, pos⟩, rfl, htokens, fun env streams => ?_⟩
  have hparse : parse (String.ofList cs) = .error (.lex ⟨.intRange, pos⟩) := by
    rw [parse, htokens]
    rfl
  rw [runSource, Session.runSource, hparse]
  rfl

theorem tooLarge_digits (h : IsDigitRun digits)
    (hv : Lexer.maxIntLiteral < Nat.ofDigitChars 10 digits 0) :
    TooLarge (String.ofList digits) ∧ TooLarge (String.ofList ('+' :: digits)) ∧
      TooLarge (String.ofList ('-' :: digits)) := by
  have herror := Lexer.scanLine_digits_error h hv 1
  have hsigned {c : Char} {s : Symbol} (hc : '\n' ≠ c) (ha : Lexer.Alone c s) :
      TooLarge (String.ofList (c :: digits)) :=
    tooLarge_of_scanLine (h.noBreak_cons hc)
      ((ha 1 1 digits).trans (congrArg (Except.map _) (herror 2)))
  exact ⟨tooLarge_of_scanLine h.noBreak (herror 1), hsigned (by decide) Lexer.alone_plus,
    hsigned (by decide) Lexer.alone_minus⟩

theorem overflows_of_runsTo {source : String} {n : Int} {pos : Pos} (hn : ¬ InRange n)
    (h : RunsTo source (checkedResult n pos)) : Overflows source :=
  ⟨_, rfl, checkedResult_of_not_inRange hn pos ▸ h⟩

/-! ## What digits mean -/

/-- The value of some digits to the lexer, and to runs without a sign and behind one. -/
structure DigitsMean (digits : List Char) (value : Nat) : Prop where
  token : value ≤ 2 ^ 63 → tokenize (String.ofList digits) =
    .ok [⟨.int value, ⟨1, 1⟩⟩, ⟨.ofMark .newline, ⟨1, 1 + digits.length⟩⟩]
  unsigned : value ≤ 2 ^ 63 - 1 → RunsTo (String.ofList digits) (.ok (some (.int value)))
  plus : value ≤ 2 ^ 63 - 1 → RunsTo (String.ofList ('+' :: digits)) (.ok (some (.int value)))
  minus : value ≤ 2 ^ 63 → RunsTo (String.ofList ('-' :: digits)) (.ok (some (.int (-value))))
  overflow : value = 2 ^ 63 →
    Overflows (String.ofList digits) ∧ Overflows (String.ofList ('+' :: digits))
  tooLarge : 2 ^ 63 < value → TooLarge (String.ofList digits) ∧
    TooLarge (String.ofList ('+' :: digits)) ∧ TooLarge (String.ofList ('-' :: digits))

theorem digitsMean (h : IsDigitRun digits) :
    DigitsMean digits (Nat.ofDigitChars 10 digits 0) := by
  have hmax : Lexer.maxIntLiteral = 2 ^ 63 := rfl
  have hlow {n : Nat} (hn : n ≤ 2 ^ 63) : InRange (-n) := by
    simp only [InRange, minInt, maxInt]
    omega
  have hhigh {n : Nat} : InRange n ↔ n ≤ 2 ^ 63 - 1 := by
    simp only [InRange, minInt, maxInt]
    omega
  constructor
  case token =>
    intro hv
    have htokens := (Lexer.tokenize_line h.noBreak).trans (Lexer.scanLine_digits h hv 1 1)
    rwa [Nat.cast_add] at htokens
  case unsigned =>
    intro hv
    have hrun := runsTo_digits h (by omega)
    rwa [checkedResult_of_inRange (hhigh.mpr hv)] at hrun
  case plus =>
    intro hv
    have hrun := runsTo_plus_digits h (by omega)
    rwa [checkedResult_of_inRange (hhigh.mpr hv)] at hrun
  case minus =>
    intro hv
    have hrun := runsTo_minus_digits h hv
    rwa [checkedResult_of_inRange (hlow hv)] at hrun
  case overflow =>
    intro hv
    have hout : ¬ InRange (Nat.ofDigitChars 10 digits 0) := by
      rw [hhigh]
      omega
    exact ⟨overflows_of_runsTo hout (runsTo_digits h (by omega)),
      overflows_of_runsTo hout (runsTo_plus_digits h (by omega))⟩
  case tooLarge => exact tooLarge_digits h

/-! ## Display texts -/

theorem runsTo_toString {n : Int} (h : InRange n) : RunsTo (toString n) (.ok (some (.int n))) := by
  have hmean := digitsMean (isDigitRun_toDigits n.natAbs)
  rw [Nat.ofDigitChars_ten_toDigits] at hmean
  have htext : toString n = String.ofList (signText (n < 0) ++ Nat.toDigits 10 n.natAbs) := by
    rw [← toList_toString_int, String.ofList_toList]
  simp only [InRange, minInt, maxInt] at h
  rw [htext]
  by_cases hneg : n < 0
  · have hrun := hmean.minus (by omega)
    rw [signText, if_pos (decide_eq_true hneg)]
    rwa [show -(n.natAbs : Int) = n by omega] at hrun
  · have hrun := hmean.unsigned (by omega)
    rw [signText, if_neg (mt of_decide_eq_true hneg)]
    rwa [show (n.natAbs : Int) = n by omega] at hrun

theorem stringToInt_toString {n : Int} (h : InRange n) :
    Library.stringToInt (.string (toString n)) [] = .ok (some (.int n)) := by
  have hspelled := IntText.spelledBy_ofInt n
  have hvalue := IntText.value_ofInt n
  have hspells : Library.SpellsInt (toString n) (.int (IntText.ofInt n).value) :=
    .intro hspelled (by rw [hvalue]; exact inIntRange_iff.mpr h)
  have hshort : ¬ Library.Overlong (toString n) := by
    rintro ⟨t, ht, hlong, hbound⟩
    have heq := Option.some.inj ((IntText.ofChars?_iff.mpr ht).symm.trans
      (IntText.ofChars?_iff.mpr hspelled))
    rw [heq] at hlong hbound
    rw [hvalue] at hbound
    have hlen := (Nat.length_toDigits_le_iff (by decide) (by decide)).mpr hbound
    have hdigits : (IntText.ofInt n).digits.length ≤ Library.maxSignificant := hlen
    exact absurd (Nat.lt_of_lt_of_le hlong hdigits) (by decide)
  rw [Library.stringToInt_apply, Library.readInt_ok hshort hspells, hvalue]

/-- Digits mean their value to the lexer and to every run, as far as the value is in range there, and
the display text of an integer in range is read as this integer by a run and by the conversion. -/
theorem integer_texts_agree :
    (∀ digits, IsDigitRun digits → DigitsMean digits (Nat.ofDigitChars 10 digits 0)) ∧
    ∀ n, InRange n → RunsTo (Value.int n).display (.ok (some (.int n))) ∧
      Library.stringToInt (.string (Value.int n).display) [] = .ok (some (.int n)) :=
  ⟨fun _ h => digitsMean h, fun _ h => ⟨runsTo_toString h, stringToInt_toString h⟩⟩

/-- The magnitude of the least integer with zeros in front, and the least integer itself. -/
theorem integer_texts_agree_least :
    let digits := "009223372036854775808".toList
    DigitsMean digits 9223372036854775808 ∧
      RunsTo "-9223372036854775808" (.ok (some (.int minInt))) ∧
        Library.stringToInt (.string "-9223372036854775808") [] = .ok (some (.int minInt)) := by
  intro digits
  have hrun : IsDigitRun digits := isDigits_iff.mp (by decide)
  have hleast := integer_texts_agree.2 minInt ⟨by decide, by decide⟩
  exact ⟨integer_texts_agree.1 digits hrun, hleast.1, hleast.2⟩

end ExScript
