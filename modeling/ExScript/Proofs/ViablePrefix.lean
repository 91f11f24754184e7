import ExScript.Proofs.GrammarComplete
import ExScript.Proofs.GrammarWords

/-!
# The parser does not go wrong before it stops

What a rule of the parser has taken when it stops, for whatever reason, is the beginning of a word of
its rule of the grammar, and what it has taken when it returns is a whole word (`Traces`).  So the
tokens in front of the one that is reported can be completed to a program (`viable_prefix`).
-/

open scoped Computability

namespace ExScript.Parser

open Grammar

variable {α β : Type} {ts rest : List Token} {A B : Language Token}

/-- The tokens that a parser takes are a word of the language if it returns, and the beginning of
one if it stops. -/
structure Traces (p : Parser α) (ts : List Token) (A : Language Token) : Prop where
  ok : ∀ {a rest}, p ts = .ok (a, rest) → ∃ w ∈ A, ts = w ++ rest
  error : ∀ {s}, p ts = .error s → ∃ w more, w ++ more ∈ A ∧ Plain more ∧ ts = w ++ s.rest

/-! ## Steps -/

theorem Traces.mono {p : Parser α} (h : Traces p ts A) (hle : A ≤ B) : Traces p ts B where
  ok ha := by
    obtain ⟨w, hw, hts⟩ := h.ok ha
    exact ⟨w, hle hw, hts⟩
  error he := by
    obtain ⟨w, more, hw, hmore, hts⟩ := h.error he
    exact ⟨w, more, hle hw, hmore, hts⟩

/-- A step that stops anywhere can be completed by what comes after it. -/
theorem Traces.bind {p : Parser α} {f : α → Parser β} (h : Traces p ts A) (hB : Inhabited B)
    (hf : ∀ a mid, p ts = .ok (a, mid) → Traces (f a) mid B) : Traces (p >>= f) ts (A * B) := by
  constructor
  · intro b rest hb
    obtain ⟨a, mid, ha, hfa⟩ := bind_ok.mp hb
    obtain ⟨v, hv, rfl⟩ := h.ok ha
    obtain ⟨w, hw, rfl⟩ := (hf a mid ha).ok hfa
    exact ⟨v ++ w, Language.append_mem_mul hv hw, by simp⟩
  · intro s he
    cases hp : p ts with
    | error s' =>
      rw [bind_of_error hp] at he
      cases he
      obtain ⟨v, more, hv, hmore, hts⟩ := h.error hp
      obtain ⟨w, hw, hplain⟩ := hB
      refine ⟨v, more ++ w, ?_, hmore.append hplain, hts⟩
      rw [← List.append_assoc]
      exact Language.append_mem_mul hv hw
    | ok x =>
      obtain ⟨a, mid⟩ := x
      rw [bind_of_ok hp] at he
      obtain ⟨v, hv, rfl⟩ := h.ok hp
      obtain ⟨w, more, hw, hmore, rfl⟩ := (hf a mid hp).error he
      refine ⟨v ++ w, more, ?_, hmore, by simp⟩
      rw [List.append_assoc]
      exact Language.append_mem_mul hv hw

/-- A step that takes nothing. -/
theorem Traces.after {p : Parser α} {f : α → Parser β} {a : α} (hp : p ts = .ok (a, ts))
    (h : Traces (f a) ts A) : Traces (p >>= f) ts A where
  ok hb := h.ok ((bind_of_ok hp f).symm.trans hb)
  error he := h.error ((bind_of_ok hp f).symm.trans he)

theorem Traces.map {p : Parser α} (h : Traces p ts A) (g : α → β) :
    Traces (p >>= fun a => pure (g a)) ts A := by
  constructor
  · intro b rest hb
    obtain ⟨a, mid, ha, ⟨⟩⟩ := bind_ok.mp hb
    exact h.ok ha
  · intro s he
    cases hp : p ts with
    | error s' =>
      rw [bind_of_error hp] at he
      cases he
      exact h.error hp
    | ok x =>
      rw [bind_of_ok hp] at he
      cases he

theorem traces_pure (a : α) : Traces (pure a) ts 1 where
  ok ha := by
    cases ha
    exact ⟨[], Language.nil_mem_one, rfl⟩
  error he := by cases he

theorem traces_stop (expected : Expected) (hA : Inhabited A) :
    Traces (stop expected : Parser α) ts A where
  ok ha := by cases ha
  error he := by
    cases he
    obtain ⟨w, hw, hp⟩ := hA
    exact ⟨[], w, hw, hp, rfl⟩

theorem traces_tooDeep (hA : Inhabited A) : Traces (tooDeep : Parser α) ts A where
  ok ha := by cases ha
  error he := by
    cases he
    obtain ⟨w, hw, hp⟩ := hA
    exact ⟨[], w, hw, hp, rfl⟩

/-- The next token is taken. -/
theorem traces_tail {p : Parser α} {a : α} {t : Token} (hp : p (t :: ts) = .ok (a, ts))
    (h : [t] ∈ A) : Traces p (t :: ts) A where
  ok ha := by
    rw [hp] at ha
    cases ha
    exact ⟨[t], h, rfl⟩
  error he := by
    rw [hp] at he
    cases he

theorem Traces.of_eq {p q : Parser α} (h : p ts = q ts) (hq : Traces q ts A) : Traces p ts A where
  ok ha := hq.ok (h.symm.trans ha)
  error he := hq.error (h.symm.trans he)

theorem traces_expect {kind : Kind} (hkind : kind ≠ .mark .endOfInput)
    (hA : Inhabited (one (·.kind = kind))) : Traces (expect kind) ts (one (·.kind = kind)) := by
  by_cases hk : kindOf ts = kind
  · cases ts with
    | nil => exact absurd hk.symm hkind
    | cons t ts => exact traces_tail ((expect_ok hkind).mpr ⟨hk, rfl⟩) ⟨t, hk, rfl⟩
  · apply Traces.of_eq _ (traces_stop (.kind kind) hA)
    rw [expect_apply hkind, if_neg hk]
    rfl

theorem traces_expectSymbol (s : Symbol) : Traces (expectSymbol s) ts (symbol s) :=
  traces_expect nofun (inhabited_symbol s)

theorem traces_expectKeyword (k : Keyword) : Traces (expectKeyword k) ts (word k) :=
  traces_expect nofun (inhabited_word k)

theorem traces_expectName (expected : Expected) : Traces (expectName expected) ts aName := by
  rcases ts with _ | ⟨⟨lexeme, pos⟩, ts⟩
  · exact .of_eq (q := stop expected) rfl (traces_stop expected inhabited_aName)
  · cases lexeme with
    | name name => exact traces_tail (expectName_ok.mpr ⟨pos, rfl⟩) ⟨name, pos, rfl⟩
    | _ => exact .of_eq (q := stop expected) rfl (traces_stop expected inhabited_aName)

/-- A token that was looked at is taken. -/
theorem traces_advance {P : Token → Prop} {kind : Kind} (hk : kindOf ts = kind)
    (hkind : kind ≠ .mark .endOfInput) (hP : ∀ t, t.kind = kind → P t) :
    Traces advance ts (one P) := by
  cases ts with
  | nil => exact absurd hk.symm hkind
  | cons t ts => exact traces_tail (advance_apply (kindOf_ne_end hk hkind)) ⟨t, hP t hk, rfl⟩

theorem traces_advance_symbol {s : Symbol} (hk : kindOf ts = symbolKind s) :
    Traces advance ts (symbol s) := traces_advance hk nofun fun _ => id

theorem traces_advance_keyword {k : Keyword} (hk : kindOf ts = keywordKind k) :
    Traces advance ts (word k) := traces_advance hk nofun fun _ => id

theorem traces_skipNewlines : Traces skipNewlines ts lines := by
  constructor
  · intro _ rest h
    cases h
    refine ⟨ts.takeWhile isNewline, ?_, (List.takeWhile_append_dropWhile ..).symm⟩
    refine ⟨(ts.takeWhile isNewline).map ([·]), by simp [← List.flatMap_def], ?_⟩
    intro w hw
    obtain ⟨t, ht, rfl⟩ := List.mem_map.mp hw
    have hline : isNewline t = true := List.mem_takeWhile_imp ht
    exact ⟨t, (of_decide_eq_true hline : t.kind = .mark .newline), rfl⟩
  · intro _ h
    cases h

/-! ## Repetitions -/

theorem commaSeparated_traces {item : Parser α} (hi : ∀ ts, Traces item ts A) (hA : Inhabited A)
    (fuel : Nat) : ∀ items ts, Traces (commaSeparated item fuel items) ts (symbol .comma * A)∗ := by
  have hcomma := inhabited_symbol .comma
  induction fuel with
  | zero => exact fun items ts => (traces_pure _).mono one_le_kstar
  | succ fuel ih =>
    intro items ts
    apply Traces.after (nextKind_apply ..)
    split
    case isTrue hk =>
      have hrest := inhabited_kstar (symbol .comma * A)
      have h : Traces (do advance; commaSeparated item fuel ((← item) :: items)) ts
          (symbol .comma * (A * (symbol .comma * A)∗)) := by
        apply (traces_advance_symbol hk).bind (hA.mul hrest)
        intro _ mid _
        apply (hi mid).bind hrest
        exact fun a after _ => ih (a :: items) after
      apply h.mono
      rw [← mul_assoc]
      exact mul_kstar_le_kstar
    case isFalse => exact (traces_pure _).mono one_le_kstar

theorem listOf_traces {item : Parser α} (hi : ∀ ts, Traces item ts A) (hA : Inhabited A)
    (hone : 1 ≤ B) (hB : A * (symbol .comma * A)∗ ≤ B) (rounds : Nat) :
    Traces (listOf rounds item) ts B := by
  apply Traces.after (nextKind_apply ..)
  split
  · exact (traces_pure _).mono hone
  · apply Traces.mono _ hB
    apply (hi ts).bind (inhabited_kstar _)
    exact fun a mid _ => commaSeparated_traces hi hA rounds [a] mid

theorem operatorsOf_traces {operand : Parser Node} {tier : Tier}
    (ho : ∀ ts, Traces operand ts (words (Operand tier))) (fuel : Nat) :
    ∀ left ts, Traces (operatorsOf tier.operator? operand fuel left) ts
      (operator tier * words (Operand tier))∗ := by
  induction fuel with
  | zero => exact fun left ts => (traces_pure _).mono one_le_kstar
  | succ fuel ih =>
    intro left ts
    apply Traces.after (nextKind_apply ..)
    split
    next op hop =>
      obtain ⟨s, hs, hk⟩ := operators_of_operator? hop
      have hrest := inhabited_kstar (operator tier * words (Operand tier))
      have h : Traces (do advance
                          let right ← operand
                          operatorsOf tier.operator? operand fuel (.binary left.pos op left right))
          ts (operator tier * (words (Operand tier) *
            (operator tier * words (Operand tier))∗)) := by
        apply Traces.bind (traces_advance hk nofun fun t ht => ⟨s, op, hs, ht⟩)
          ((inhabited_operand tier).mul hrest)
        intro _ mid _
        apply (ho mid).bind hrest
        exact fun right after _ => ih _ after
      apply h.mono
      rw [← mul_assoc]
      exact mul_kstar_le_kstar
    next => exact (traces_pure _).mono one_le_kstar

theorem methodsOf_traces {args : Parser (List Node)} (ha : ∀ ts, Traces args ts (words Arguments))
    (fuel : Nat) : ∀ bare n ts, Traces (methodsOf args fuel bare n) ts methodCall∗ := by
  induction fuel with
  | zero => exact fun bare n ts => (traces_pure _).mono one_le_kstar
  | succ fuel ih =>
    intro bare n ts
    apply Traces.after (nextKind_apply ..)
    split
    case isTrue hk =>
      have hrest := inhabited_kstar methodCall
      have hclose := (inhabited_symbol .closeParen).mul hrest
      have hargs := inhabited_arguments.mul hclose
      have hopen := (inhabited_symbol .openParen).mul hargs
      have h : Traces (do advance
                          let method ← expectName .methodName
                          expectSymbol .openParen
                          let given ← args
                          expectSymbol .closeParen
                          methodsOf args fuel false (methodOn bare n method given)) ts
          (symbol .dot * (aName * (symbol .openParen * (words Arguments *
            (symbol .closeParen * methodCall∗))))) := by
        apply (traces_advance_symbol hk).bind (inhabited_aName.mul hopen)
        intro _ _ _
        apply (traces_expectName _).bind hopen
        intro method _ _
        apply (traces_expectSymbol _).bind hargs
        intro _ mid _
        apply (ha mid).bind hclose
        intro given _ _
        apply (traces_expectSymbol _).bind hrest
        exact fun _ after _ => ih false _ after
      apply h.mono
      calc _ = methodCall * methodCall∗ := by simp only [methodCall, mul_assoc]
        _ ≤ methodCall∗ := mul_kstar_le_kstar
    case isFalse => exact (traces_pure _).mono one_le_kstar

theorem statementsOf_traces {item : Parser Node} (hi : ∀ ts, Traces item ts (words Statement))
    (fuel : Nat) : ∀ items ts, Traces (statementsOf item fuel items) ts
      ((words Statement * lines)∗ * symbol .closeBrace) := by
  have hclose := inhabited_symbol .closeBrace
  have hstop := (inhabited_kstar (words Statement * lines)).mul hclose
  have hend : symbol .closeBrace ≤ (words Statement * lines)∗ * symbol .closeBrace :=
    le_mul_of_one_le_left' one_le_kstar
  induction fuel with
  | zero => exact fun items ts => traces_stop _ hstop
  | succ fuel ih =>
    intro items ts
    apply Traces.after (nextKind_apply ..)
    split
    next hk => exact ((traces_advance_symbol hk).map fun _ => items.reverse).mono hend
    next => exact traces_stop _ hstop
    next =>
      have h : Traces (do let n ← item; skipNewlines; statementsOf item fuel (n :: items)) ts
          (words Statement * (lines * ((words Statement * lines)∗ * symbol .closeBrace))) := by
        apply (hi ts).bind ((inhabited_kstar _).mul hstop)
        intro n mid _
        apply traces_skipNewlines.bind hstop
        exact fun _ after _ => ih (n :: items) after
      apply h.mono
      calc _ = words Statement * lines * (words Statement * lines)∗ * symbol .closeBrace := by
            simp only [mul_assoc]
        _ ≤ (words Statement * lines)∗ * symbol .closeBrace :=
            mul_le_mul_left mul_kstar_le_kstar _

theorem programFrom_traces {item : Parser Node} (hi : ∀ ts, Traces item ts (words Statement))
    (fuel : Nat) : ∀ items ts, Traces (programFrom item fuel items) ts
      (lines * (words Statement * lines)∗) := by
  have hstatements := inhabited_kstar (words Statement * lines)
  have hprogram := (inhabited_kstar (one IsNewline)).mul hstatements
  have hone : 1 ≤ (words Statement * lines)∗ := one_le_kstar
  induction fuel with
  | zero => exact fun items ts => (traces_pure _).mono (one_le_mul one_le_kstar hone)
  | succ fuel ih =>
    intro items ts
    apply traces_skipNewlines.bind hstatements
    intro _ mid _
    apply Traces.after (nextKind_apply ..)
    split
    · exact (traces_pure _).mono hone
    · have h : Traces (do programFrom item fuel ((← item) :: items)) mid
          (words Statement * (lines * (words Statement * lines)∗)) := by
        apply (hi mid).bind hprogram
        exact fun n after _ => ih (n :: items) after
      apply h.mono
      rw [← mul_assoc]
      exact mul_kstar_le_kstar

/-! ## Rules -/

/-- The languages of the rules at a budget. -/
structure TracesRules (rounds d : Nat) : Prop where
  statement : ∀ ts, Traces (statement rounds d) ts (words Statement)
  assignment : ∀ ts, Traces (assignment rounds d) ts (words Statement)
  fnDecl : ∀ ts, Traces (fnDecl rounds d) ts (words Statement)
  whileLoop : ∀ ts, Traces (whileLoop rounds d) ts (words Statement)
  forLoop : ∀ ts, Traces (forLoop rounds d) ts (words Statement)
  cond : ∀ ts, Traces (cond rounds d) ts (words If)
  ret : ∀ ts, Traces (ret rounds d) ts (words Statement)
  block : ∀ ts, Traces (block rounds d) ts (words Block)
  expression : ∀ ts, Traces (expression rounds d) ts (words Expression)
  tiered : ∀ tier ts, Traces (tiered rounds d tier) ts (words (Tiered tier))
  unary : ∀ ts, Traces (unary rounds d) ts (words Unary)
  postfixed : ∀ ts, Traces (postfixed rounds d) ts (words Postfixed)
  arguments : ∀ ts, Traces (arguments rounds d) ts (words Arguments)
  argument : ∀ ts, Traces (argument rounds d) ts (words Expression)
  primary : ∀ ts, Traces (primary rounds d) ts (words Primary)

variable {rounds d : Nat}

theorem statement_traces (ih : TracesRules rounds d) (ts : List Token) :
    Traces (statement rounds (d + 1)) ts (words Statement) := by
  apply Traces.after (nextKind_apply ..)
  apply Traces.after (secondKind_apply ..)
  split
  · exact ih.assignment ts
  · exact ih.fnDecl ts
  · exact ih.whileLoop ts
  · exact ih.forLoop ts
  · exact (ih.cond ts).mono words_cond
  · exact ih.ret ts
  · exact traces_stop _ inhabited_statement
  · exact (ih.expression ts).mono words_expression

theorem assignment_traces (ih : TracesRules rounds d) (ts : List Token) :
    Traces (assignment rounds (d + 1)) ts (words Statement) := by
  apply Traces.mono _ words_assign
  have hvalue := (inhabited_symbol .assign).mul inhabited_statement
  apply Traces.after (nextPos_apply ..)
  apply (traces_expectName _).bind hvalue
  intro name _ _
  apply (traces_expectSymbol _).bind inhabited_statement
  exact fun _ mid _ => (ih.statement mid).map _

theorem fnDecl_traces (ih : TracesRules rounds d) (ts : List Token) :
    Traces (fnDecl rounds (d + 1)) ts (words Statement) := by
  apply Traces.mono _ words_fnDecl
  have hbody := (inhabited_symbol .closeParen).mul inhabited_block
  have hparams := inhabited_parameters.mul hbody
  have hopen := (inhabited_symbol .openParen).mul hparams
  apply Traces.after (nextPos_apply ..)
  apply (traces_expectKeyword _).bind (inhabited_aName.mul hopen)
  intro _ _ _
  apply (traces_expectName _).bind hopen
  intro name _ _
  apply (traces_expectSymbol _).bind hparams
  intro _ mid _
  have hlist : Traces (listOf rounds (expectName .parameterName)) mid (words Parameters) :=
    listOf_traces (fun _ => traces_expectName _) inhabited_aName words_noParameters
      words_parameters rounds
  apply hlist.bind hbody
  intro params _ _
  apply (traces_expectSymbol _).bind inhabited_block
  exact fun _ after _ => (ih.block after).map _

theorem whileLoop_traces (ih : TracesRules rounds d) (ts : List Token) :
    Traces (whileLoop rounds (d + 1)) ts (words Statement) := by
  apply Traces.mono _ words_whileLoop
  apply Traces.after (nextPos_apply ..)
  apply (traces_expectKeyword _).bind (inhabited_expression.mul inhabited_block)
  intro _ mid _
  apply (ih.expression mid).bind inhabited_block
  exact fun test after _ => (ih.block after).map _

theorem forLoop_traces (ih : TracesRules rounds d) (ts : List Token) :
    Traces (forLoop rounds (d + 1)) ts (words Statement) := by
  apply Traces.mono _ words_forLoop
  have hbody := (inhabited_symbol .closeBracket).mul inhabited_block
  have hhigh := inhabited_expression.mul hbody
  have hcomma := (inhabited_symbol .comma).mul hhigh
  have hlow := inhabited_expression.mul hcomma
  have hopen := (inhabited_symbol .openBracket).mul hlow
  have hin := (inhabited_word .inWord).mul hopen
  apply Traces.after (nextPos_apply ..)
  apply (traces_expectKeyword _).bind (inhabited_aName.mul hin)
  intro _ _ _
  apply (traces_expectName _).bind hin
  intro name _ _
  apply (traces_expectKeyword _).bind hopen
  intro _ _ _
  apply (traces_expectSymbol _).bind hlow
  intro _ inner _
  apply (ih.expression inner).bind hcomma
  intro low _ _
  apply (traces_expectSymbol _).bind hhigh
  intro _ mid _
  apply (ih.expression mid).bind hbody
  intro high _ _
  apply (traces_expectSymbol _).bind inhabited_block
  exact fun _ after _ => (ih.block after).map _

/-- The part of an `if` behind its first block. -/
def otherwise : Language Token := 1 + lines * (word .elseWord * (words If + words Block))

theorem words_otherwise :
    word .ifWord * (words Expression * (words Block * otherwise)) ≤ words If := by
  have hsum : word .ifWord * (words Expression * (words Block * otherwise)) =
      word .ifWord * (words Expression * words Block) + word .ifWord * (words Expression *
        (words Block * (lines * (word .elseWord * (words If + words Block))))) := by
    simp only [otherwise, mul_add, mul_one]
  rw [hsum]
  exact add_le words_if words_else

theorem otherwise_traces (ih : TracesRules rounds d) (pos : Pos) (test : Node)
    (thenBody : List Node) (ts : List Token) :
    Traces (do
      if elseFollows (← get) then
        skipNewlines
        advance
        if (← nextKind) = keywordKind .ifWord then
          return Node.cond pos test thenBody (some [← cond rounds d])
        else return Node.cond pos test thenBody (some (← block rounds d))
      else return Node.cond pos test thenBody none) ts otherwise := by
  apply Traces.after get_apply
  split
  next helse =>
    have hother : Inhabited (words If + words Block) :=
      inhabited_if.mono (le_add_of_nonneg_right bot_le)
    apply Traces.mono _ (le_add_of_nonneg_left bot_le)
    apply traces_skipNewlines.bind ((inhabited_word .elseWord).mul hother)
    rintro _ _ ⟨⟩
    apply (traces_advance_keyword (of_decide_eq_true helse)).bind hother
    intro _ mid _
    apply Traces.after (nextKind_apply ..)
    split
    · exact ((ih.cond mid).map _).mono (le_add_of_nonneg_right bot_le)
    · exact ((ih.block mid).map _).mono (le_add_of_nonneg_left bot_le)
  next => exact (traces_pure _).mono (le_add_of_nonneg_right bot_le)

theorem cond_traces (ih : TracesRules rounds d) (ts : List Token) :
    Traces (cond rounds (d + 1)) ts (words If) := by
  apply Traces.mono _ words_otherwise
  have hother : Inhabited otherwise := inhabited_of_one_le (le_add_of_nonneg_right bot_le)
  have hblock := inhabited_block.mul hother
  apply Traces.after (nextPos_apply ..)
  apply (traces_expectKeyword _).bind (inhabited_expression.mul hblock)
  intro _ mid _
  apply (ih.expression mid).bind hblock
  intro test after _
  apply (ih.block after).bind hother
  exact fun thenBody rest _ => otherwise_traces ih _ test thenBody rest

theorem ret_traces (ih : TracesRules rounds d) (ts : List Token) :
    Traces (ret rounds (d + 1)) ts (words Statement) := by
  apply Traces.mono _ words_ret
  apply Traces.after (nextPos_apply ..)
  apply (traces_expectKeyword _).bind inhabited_expression
  exact fun _ mid _ => (ih.expression mid).map _

theorem block_traces (ih : TracesRules rounds d) (ts : List Token) :
    Traces (block rounds (d + 1)) ts (words Block) := by
  apply Traces.mono _ words_block
  have hbody := (inhabited_kstar (words Statement * lines)).mul (inhabited_symbol .closeBrace)
  apply (traces_expectSymbol _).bind ((inhabited_kstar _).mul hbody)
  intro _ _ _
  apply traces_skipNewlines.bind hbody
  exact fun _ mid _ => statementsOf_traces ih.statement rounds [] mid

theorem operand_traces (ih : TracesRules rounds d) (tier : Tier) (ts : List Token) :
    Traces (ruleAt rounds d (tier.level + 1)) ts (words (Operand tier)) := by
  cases tier with
  | equality => exact (ih.tiered .comparison ts).mono words_comparison
  | comparison => exact (ih.tiered .sum ts).mono words_sum
  | sum => exact (ih.tiered .product ts).mono words_product
  | product => exact (ih.unary ts).mono words_unaryOperand

theorem tiered_traces (ih : TracesRules rounds d) (tier : Tier) (ts : List Token) :
    Traces (tiered rounds (d + 1) tier) ts (words (Tiered tier)) := by
  rw [tiered_succ]
  apply Traces.mono _ words_tiered
  apply (operand_traces ih tier ts).bind (inhabited_kstar _)
  exact fun first mid _ => operatorsOf_traces (operand_traces ih tier) rounds first mid

theorem unary_traces (ih : TracesRules rounds d) (ts : List Token) :
    Traces (unary rounds (d + 1)) ts (words Unary) := by
  apply Traces.after (nextKind_apply ..)
  split
  next op hop =>
    obtain ⟨s, hs, hk⟩ := signs_of_sign? hop
    apply Traces.after (nextPos_apply ..)
    apply Traces.mono _ words_unary
    apply Traces.bind (traces_advance hk nofun fun t ht => ⟨s, op, hs, ht⟩) inhabited_unary
    exact fun _ mid _ => (ih.unary mid).map _
  next => exact (ih.postfixed ts).mono words_plain

theorem postfixed_traces (ih : TracesRules rounds d) (ts : List Token) :
    Traces (postfixed rounds (d + 1)) ts (words Postfixed) := by
  apply Traces.mono _ words_postfixed
  apply Traces.after (nextKind_apply ..)
  apply Traces.after (secondKind_apply ..)
  apply (ih.primary ts).bind (inhabited_kstar _)
  exact fun receiver mid _ => methodsOf_traces ih.arguments rounds _ receiver mid

theorem argument_traces (ih : TracesRules rounds d) (ts : List Token) :
    Traces (argument rounds (d + 1)) ts (words Expression) := by
  apply Traces.after (nextKind_apply ..)
  split
  · exact traces_stop _ inhabited_expression
  · exact ih.expression ts

/-- A name is a variable, or a call if a parenthesis follows. -/
theorem name_traces (ih : TracesRules rounds d) (name : String) (pos : Pos) (rest : List Token) :
    Traces (do
      set rest
      if kindOf rest = symbolKind .openParen then
        advance
        let args ← arguments rounds d
        expectSymbol .closeParen
        return Node.call pos name args
      else return Node.var pos name) (⟨.name name, pos⟩ :: rest) (words Primary) := by
  have hname : Traces (set rest : Parser PUnit) (⟨.name name, pos⟩ :: rest) aName :=
    traces_tail rfl ⟨name, pos, rfl⟩
  by_cases hk : kindOf rest = symbolKind .openParen
  · simp only [if_pos hk]
    apply Traces.mono _ words_call
    have hclose := inhabited_symbol .closeParen
    have hargs := inhabited_arguments.mul hclose
    apply hname.bind ((inhabited_symbol .openParen).mul hargs)
    rintro _ _ ⟨⟩
    apply (traces_advance_symbol hk).bind hargs
    intro _ mid _
    apply (ih.arguments mid).bind hclose
    exact fun args _ _ => (traces_expectSymbol _).map _
  · simp only [if_neg hk]
    exact (hname.map _).mono words_var

theorem parens_traces (ih : TracesRules rounds d) (text : String) (pos : Pos) (rest : List Token) :
    Traces (do
      set rest
      let inner ← expression rounds d
      expectSymbol .closeParen
      return inner) (⟨.mark (.symbol .openParen) text, pos⟩ :: rest) (words Primary) := by
  have hopen : Traces (set rest : Parser PUnit) (⟨.mark (.symbol .openParen) text, pos⟩ :: rest)
      (symbol .openParen) :=
    traces_tail rfl ⟨⟨.mark (.symbol .openParen) text, pos⟩, rfl, rfl⟩
  apply Traces.mono _ words_parens
  apply hopen.bind (inhabited_expression.mul (inhabited_symbol .closeParen))
  intro _ mid _
  apply (ih.expression mid).bind (inhabited_symbol .closeParen)
  exact fun _ _ _ => (traces_expectSymbol _).map _

theorem primary_traces (ih : TracesRules rounds d) (ts : List Token) :
    Traces (primary rounds (d + 1)) ts (words Primary) := by
  apply Traces.after get_apply
  split
  case h_1 => exact traces_tail rfl fun _ => ⟨_, .int⟩
  case h_2 => exact traces_tail rfl fun _ => ⟨_, .float⟩
  case h_3 => exact traces_tail rfl fun _ => ⟨_, .string⟩
  case h_4 => exact traces_tail rfl fun _ => ⟨_, .trueWord rfl⟩
  case h_5 => exact traces_tail rfl fun _ => ⟨_, .falseWord rfl⟩
  case h_6 name pos rest => exact name_traces ih name pos rest
  case h_7 text pos rest => exact parens_traces ih text pos rest
  case h_8 => exact traces_stop _ inhabited_primary

theorem tracesRules (rounds d : Nat) : TracesRules rounds d := by
  induction d with
  | zero =>
    constructor
    case cond => exact fun _ => traces_tooDeep inhabited_if
    case block => exact fun _ => traces_tooDeep inhabited_block
    case expression | argument => exact fun _ => traces_tooDeep inhabited_expression
    case tiered => exact fun tier _ => traces_tooDeep (inhabited_tiered tier)
    case unary => exact fun _ => traces_tooDeep inhabited_unary
    case postfixed => exact fun _ => traces_tooDeep inhabited_postfixed
    case arguments => exact fun _ => traces_tooDeep inhabited_arguments
    case primary => exact fun _ => traces_tooDeep inhabited_primary
    all_goals exact fun _ => traces_tooDeep inhabited_statement
  | succ d ih =>
    constructor
    case statement => exact statement_traces ih
    case assignment => exact assignment_traces ih
    case fnDecl => exact fnDecl_traces ih
    case whileLoop => exact whileLoop_traces ih
    case forLoop => exact forLoop_traces ih
    case cond => exact cond_traces ih
    case ret => exact ret_traces ih
    case block => exact block_traces ih
    case expression => exact ih.tiered .equality
    case tiered => exact tiered_traces ih
    case unary => exact unary_traces ih
    case postfixed => exact postfixed_traces ih
    case arguments =>
      exact fun ts => listOf_traces ih.argument inhabited_expression words_noArguments
        words_arguments rounds
    case argument => exact argument_traces ih
    case primary => exact primary_traces ih

theorem program_error {limit : Nat} {s : Stop} :
    program limit ts = .error s ↔
      programFrom (statement (ts.length + 1) limit) (ts.length + 1) [] ts = .error s := by
  rw [program, StateT.run']
  cases programFrom (statement (ts.length + 1) limit) (ts.length + 1) [] ts with
  | error s' => constructor <;> rintro ⟨⟩ <;> rfl
  | ok result => constructor <;> rintro ⟨⟩

theorem program_traces (limit : Nat) (ts : List Token) :
    Traces (programFrom (statement (ts.length + 1) limit) (ts.length + 1) []) ts
      (lines * (words Statement * lines)∗) :=
  programFrom_traces (tracesRules _ limit).statement _ [] ts

/-- The tokens in front of the one that is reported begin a program. -/
theorem viable_prefix {limit : Nat} {s : Stop} (h : program limit ts = .error s) :
    ∃ pre more, ts = pre ++ s.rest ∧ Plain more ∧ ∃ body, Grammar.Program (pre ++ more) body := by
  obtain ⟨pre, more, hword, hmore, hts⟩ := (program_traces limit ts).error (program_error.mp h)
  exact ⟨pre, more, hts, hmore, program_of_words hword⟩

end ExScript.Parser
