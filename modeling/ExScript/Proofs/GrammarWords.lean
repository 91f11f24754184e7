import ExScript.Proofs.Joining
import Mathlib

/-!
# The words of the grammar

A rule of the grammar derives some tokens whatever comes behind them: these are its words
(`words`).  The productions are inclusions between languages, with concatenation and repetition for
what stands next to each other in a rule.  Every rule has a word, so that whatever begins a
production can be completed (`Inhabited`).
-/

open scoped Computability

namespace ExScript.Grammar

open ExScript.Parser (Tier)

/-- None of the tokens ends the input. -/
def Plain (ts : List Token) : Prop := ∀ t ∈ ts, t.kind ≠ .mark .endOfInput

theorem Plain.append {ts us : List Token} (ht : Plain ts) (hu : Plain us) : Plain (ts ++ us) := by
  intro t h
  rcases List.mem_append.mp h with h | h
  · exact ht t h
  · exact hu t h

/-- A language with a word of which no token ends the input. -/
def Inhabited (A : Language Token) : Prop := ∃ w ∈ A, Plain w

/-- The tokens that a rule derives wherever they stand. -/
def words {β : Type} (R : List Token → β → List Token → Prop) : Language Token :=
  {w | ∀ after, ∃ n, R (w ++ after) n after}

/-! ## Terminals -/

def one (P : Token → Prop) : Language Token := {w | ∃ t, P t ∧ w = [t]}

def symbol (s : Symbol) : Language Token := one (Is s)

def word (k : Keyword) : Language Token := one (IsWord k)

def aName : Language Token := {w | ∃ name pos, w = [⟨.name name, pos⟩]}

def lines : Language Token := (one IsNewline)∗

def operator (tier : Tier) : Language Token :=
  one fun t => ∃ s op, (s, op) ∈ operators tier ∧ Is s t

def sign : Language Token := one fun t => ∃ s op, (s, op) ∈ signs ∧ Is s t

/-! ## Languages with a word -/

variable {A B : Language Token}

theorem inhabited_one {P : Token → Prop} {t : Token} (ht : P t) (hk : t.kind ≠ .mark .endOfInput) :
    Inhabited (one P) :=
  ⟨[t], ⟨t, ht, rfl⟩, fun _ hu => List.mem_singleton.mp hu ▸ hk⟩

theorem inhabited_symbol (s : Symbol) : Inhabited (symbol s) :=
  inhabited_one (t := ⟨.mark (.symbol s) s.text, default⟩) rfl (by simp [Token.kind, Lexeme.kind])

theorem inhabited_word (k : Keyword) : Inhabited (word k) :=
  inhabited_one (t := ⟨.mark (.keyword k) k.text, default⟩) rfl (by simp [Token.kind, Lexeme.kind])

theorem inhabited_aName : Inhabited aName := by
  refine ⟨[⟨.name "x", default⟩], ⟨"x", default, rfl⟩, ?_⟩
  simp [Plain, Token.kind, Lexeme.kind]

theorem inhabited_of_one_le (h : 1 ≤ A) : Inhabited A :=
  ⟨[], h (Language.nil_mem_one), by simp [Plain]⟩

theorem inhabited_kstar (A : Language Token) : Inhabited A∗ := inhabited_of_one_le one_le_kstar

theorem Inhabited.mul (hA : Inhabited A) (hB : Inhabited B) : Inhabited (A * B) := by
  obtain ⟨v, hv, hpv⟩ := hA
  obtain ⟨w, hw, hpw⟩ := hB
  exact ⟨v ++ w, Language.append_mem_mul hv hw, hpv.append hpw⟩

theorem Inhabited.mono (h : Inhabited A) (hle : A ≤ B) : Inhabited B := by
  obtain ⟨w, hw, hp⟩ := h
  exact ⟨w, hle hw, hp⟩

/-! ## Expressions -/

theorem words_operand {tier : Tier} : words (Operand tier) ≤ words (Tiered tier) := by
  intro w h after
  obtain ⟨n, hn⟩ := h after
  exact ⟨n, .operand hn⟩

theorem words_comparison : words (Tiered .comparison) ≤ words (Operand .equality) := by
  intro w h after
  obtain ⟨n, hn⟩ := h after
  exact ⟨n, .comparison hn⟩

theorem words_sum : words (Tiered .sum) ≤ words (Operand .comparison) := by
  intro w h after
  obtain ⟨n, hn⟩ := h after
  exact ⟨n, .sum hn⟩

theorem words_product : words (Tiered .product) ≤ words (Operand .sum) := by
  intro w h after
  obtain ⟨n, hn⟩ := h after
  exact ⟨n, .product hn⟩

theorem words_unaryOperand : words Unary ≤ words (Operand .product) := by
  intro w h after
  obtain ⟨n, hn⟩ := h after
  exact ⟨n, .unary hn⟩

/-- Operators with their operands go on with an expression of their tier. -/
theorem words_tiered {tier : Tier} :
    words (Operand tier) * (operator tier * words (Operand tier))∗ ≤ words (Tiered tier) := by
  apply mul_kstar_le words_operand
  rintro _ ⟨v, hv, _, ⟨_, ⟨t, ⟨s, op, ho, ht⟩, rfl⟩, w, hw, rfl⟩, rfl⟩ after
  obtain ⟨b, hb⟩ := hw after
  obtain ⟨a, ha⟩ := hv (t :: (w ++ after))
  exact ⟨_, by simpa using Tiered.binary ha ho ht hb⟩

theorem words_unary : sign * words Unary ≤ words Unary := by
  rintro _ ⟨_, ⟨t, ⟨s, op, ho, ht⟩, rfl⟩, w, hw, rfl⟩ after
  obtain ⟨n, hn⟩ := hw after
  exact ⟨_, .sign ho ht hn⟩

theorem words_plain : words Postfixed ≤ words Unary := by
  intro w h after
  obtain ⟨n, hn⟩ := h after
  exact ⟨n, .plain hn⟩

/-- A method call on what stands in front of it. -/
def methodCall : Language Token :=
  symbol .dot * (aName * (symbol .openParen * (words Arguments * symbol .closeParen)))

theorem words_primary : words Primary ≤ words Postfixed := by
  intro w h after
  obtain ⟨n, hn⟩ := h after
  exact ⟨n, .primary hn⟩

theorem words_postfixed : words Primary * methodCall∗ ≤ words Postfixed := by
  apply mul_kstar_le words_primary
  rintro _ ⟨v, hv, _, ⟨_, ⟨d, hd, rfl⟩, _, ⟨_, ⟨m, q, rfl⟩, _, ⟨_, ⟨o, ho, rfl⟩, _,
    ⟨w, hw, _, ⟨c, hc, rfl⟩, rfl⟩, rfl⟩, rfl⟩, rfl⟩, rfl⟩ after
  obtain ⟨args, ha⟩ := hw (c :: after)
  obtain ⟨r, hr⟩ := hv (d :: ⟨.name m, q⟩ :: o :: (w ++ c :: after))
  have hall : v ++ ([d] ++ ([⟨.name m, q⟩] ++ ([o] ++ (w ++ [c])))) ++ after
      = v ++ d :: ⟨.name m, q⟩ :: o :: (w ++ c :: after) := by simp
  rw [hall]
  by_cases hb : BareName (v ++ d :: ⟨.name m, q⟩ :: o :: (w ++ c :: after))
      (d :: ⟨.name m, q⟩ :: o :: (w ++ c :: after))
  · obtain ⟨x, p, hx⟩ := hb
    rw [hx]
    exact ⟨_, .variableMethod hd ho ha hc⟩
  · exact ⟨_, .method hr hb hd ho ha hc⟩

theorem words_var : aName ≤ words Primary := by
  rintro _ ⟨name, pos, rfl⟩ after
  exact ⟨_, .var⟩

theorem words_call :
    aName * (symbol .openParen * (words Arguments * symbol .closeParen)) ≤ words Primary := by
  rintro _ ⟨_, ⟨name, pos, rfl⟩, _, ⟨_, ⟨o, ho, rfl⟩, _, ⟨w, hw, _, ⟨c, hc, rfl⟩, rfl⟩, rfl⟩,
    rfl⟩ after
  obtain ⟨args, ha⟩ := hw (c :: after)
  exact ⟨_, by simpa using Primary.call ho ha hc⟩

theorem words_parens :
    symbol .openParen * (words Expression * symbol .closeParen) ≤ words Primary := by
  rintro _ ⟨_, ⟨o, ho, rfl⟩, _, ⟨w, hw, _, ⟨c, hc, rfl⟩, rfl⟩, rfl⟩ after
  obtain ⟨n, hn⟩ := hw (c :: after)
  exact ⟨n, by simpa using Primary.parens ho hn hc⟩

theorem words_noArguments : 1 ≤ words Arguments := by
  rintro w hw after
  rw [(Language.mem_one w).mp hw]
  exact ⟨[], .none⟩

theorem words_moreArguments : (symbol .comma * words Expression)∗ ≤ words MoreArguments := by
  apply kstar_le_of_mul_le_right
  · rintro w hw after
    rw [(Language.mem_one w).mp hw]
    exact ⟨[], .nil⟩
  · rintro _ ⟨_, ⟨_, ⟨t, ht, rfl⟩, w, hw, rfl⟩, v, hv, rfl⟩ after
    obtain ⟨ns, hns⟩ := hv after
    obtain ⟨n, hn⟩ := hw (v ++ after)
    exact ⟨_, by simpa using MoreArguments.cons ht hn hns⟩

theorem words_arguments :
    words Expression * (symbol .comma * words Expression)∗ ≤ words Arguments := by
  rintro _ ⟨w, hw, v, hv, rfl⟩ after
  obtain ⟨ns, hns⟩ := words_moreArguments hv after
  obtain ⟨n, hn⟩ := hw (v ++ after)
  exact ⟨_, by simpa using Arguments.some hn hns⟩

/-! ## Statements -/

theorem words_assign : aName * (symbol .assign * words Statement) ≤ words Statement := by
  rintro _ ⟨_, ⟨x, p, rfl⟩, _, ⟨_, ⟨t, ht, rfl⟩, w, hw, rfl⟩, rfl⟩ after
  obtain ⟨n, hn⟩ := hw after
  exact ⟨_, .assign ht hn⟩

theorem words_noParameters : 1 ≤ words Parameters := by
  rintro w hw after
  rw [(Language.mem_one w).mp hw]
  exact ⟨[], .none⟩

theorem words_moreParameters : (symbol .comma * aName)∗ ≤ words MoreParameters := by
  apply kstar_le_of_mul_le_right
  · rintro w hw after
    rw [(Language.mem_one w).mp hw]
    exact ⟨[], .nil⟩
  · rintro _ ⟨_, ⟨_, ⟨t, ht, rfl⟩, _, ⟨name, pos, rfl⟩, rfl⟩, v, hv, rfl⟩ after
    obtain ⟨names, hnames⟩ := hv after
    exact ⟨_, .cons ht hnames⟩

theorem words_parameters : aName * (symbol .comma * aName)∗ ≤ words Parameters := by
  rintro _ ⟨_, ⟨name, pos, rfl⟩, v, hv, rfl⟩ after
  obtain ⟨names, hnames⟩ := words_moreParameters hv after
  exact ⟨_, .some hnames⟩

theorem words_fnDecl :
    word .fnWord * (aName * (symbol .openParen *
      (words Parameters * (symbol .closeParen * words Block)))) ≤ words Statement := by
  rintro _ ⟨_, ⟨t, ht, rfl⟩, _, ⟨_, ⟨name, p, rfl⟩, _, ⟨_, ⟨o, ho, rfl⟩, _,
    ⟨w, hw, _, ⟨_, ⟨c, hc, rfl⟩, b, hb, rfl⟩, rfl⟩, rfl⟩, rfl⟩, rfl⟩ after
  obtain ⟨body, hbody⟩ := hb after
  obtain ⟨params, hparams⟩ := hw (c :: (b ++ after))
  exact ⟨_, by simpa using Statement.fnDecl ht ho hparams hc hbody⟩

theorem words_whileLoop :
    word .whileWord * (words Expression * words Block) ≤ words Statement := by
  rintro _ ⟨_, ⟨t, ht, rfl⟩, _, ⟨w, hw, b, hb, rfl⟩, rfl⟩ after
  obtain ⟨body, hbody⟩ := hb after
  obtain ⟨test, htest⟩ := hw (b ++ after)
  exact ⟨_, by simpa using Statement.whileLoop ht htest hbody⟩

theorem words_forLoop :
    word .forWord * (aName * (word .inWord * (symbol .openBracket * (words Expression *
      (symbol .comma * (words Expression * (symbol .closeBracket * words Block)))))))
        ≤ words Statement := by
  rintro _ ⟨_, ⟨t, ht, rfl⟩, _, ⟨_, ⟨x, p, rfl⟩, _, ⟨_, ⟨i, hi, rfl⟩, _, ⟨_, ⟨o, ho, rfl⟩, _,
    ⟨w, hw, _, ⟨_, ⟨m, hm, rfl⟩, _, ⟨v, hv, _, ⟨_, ⟨c, hc, rfl⟩, b, hb, rfl⟩, rfl⟩, rfl⟩, rfl⟩,
    rfl⟩, rfl⟩, rfl⟩, rfl⟩ after
  obtain ⟨body, hbody⟩ := hb after
  obtain ⟨high, hhigh⟩ := hv (c :: (b ++ after))
  obtain ⟨low, hlow⟩ := hw (m :: (v ++ c :: (b ++ after)))
  exact ⟨_, by simpa using Statement.forLoop ht hi ho hlow hm hhigh hc hbody⟩

theorem words_ret : word .returnWord * words Expression ≤ words Statement := by
  rintro _ ⟨_, ⟨t, ht, rfl⟩, w, hw, rfl⟩ after
  obtain ⟨n, hn⟩ := hw after
  exact ⟨_, .ret ht hn⟩

theorem words_cond : words If ≤ words Statement := by
  intro w h after
  obtain ⟨n, hn⟩ := h after
  exact ⟨n, .cond hn⟩

theorem words_expression : words Expression ≤ words Statement := by
  intro w h after
  obtain ⟨n, hn⟩ := h after
  exact ⟨n, .expression hn⟩

/-- Line ends may stand wherever a rule allows any number of them. -/
theorem newlines_of_lines {w : List Token} (h : w ∈ lines) (after : List Token) :
    Newlines (w ++ after) after := by
  have hle : lines ≤ {w | ∀ after, Newlines (w ++ after) after} := by
    apply kstar_le_of_mul_le_right
    · rintro w hw after
      rw [(Language.mem_one w).mp hw]
      exact .nil
    · rintro _ ⟨_, ⟨t, ht, rfl⟩, v, hv, rfl⟩ after
      exact .cons ht (hv after)
  exact hle h after

theorem words_if : word .ifWord * (words Expression * words Block) ≤ words If := by
  rintro _ ⟨_, ⟨t, ht, rfl⟩, _, ⟨w, hw, b, hb, rfl⟩, rfl⟩ after
  obtain ⟨body, hbody⟩ := hb after
  obtain ⟨test, htest⟩ := hw (b ++ after)
  exact ⟨_, by simpa using If.plain ht htest hbody⟩

theorem words_else :
    word .ifWord * (words Expression * (words Block *
      (lines * (word .elseWord * (words If + words Block))))) ≤ words If := by
  rintro _ ⟨_, ⟨t, ht, rfl⟩, _, ⟨w, hw, _, ⟨b, hb, _, ⟨l, hl, _, ⟨_, ⟨u, hu, rfl⟩, v, hv, rfl⟩,
    rfl⟩, rfl⟩, rfl⟩, rfl⟩ after
  have hn : Newlines (l ++ u :: (v ++ after)) (u :: (v ++ after)) := newlines_of_lines hl _
  obtain ⟨body, hbody⟩ := hb (l ++ u :: (v ++ after))
  obtain ⟨test, htest⟩ := hw (b ++ (l ++ u :: (v ++ after)))
  rcases hv with hv | hv
  · obtain ⟨n, ho⟩ := hv after
    exact ⟨_, by simpa using If.elseIf ht htest hbody hn hu ho⟩
  · obtain ⟨other, ho⟩ := hv after
    exact ⟨_, by simpa using If.elseBlock ht htest hbody hn hu ho⟩

theorem words_statements : (words Statement * lines)∗ ≤ words Statements := by
  apply kstar_le_of_mul_le_right
  · rintro w hw after
    rw [(Language.mem_one w).mp hw]
    exact ⟨[], .nil⟩
  · rintro _ ⟨_, ⟨w, hw, l, hl, rfl⟩, v, hv, rfl⟩ after
    obtain ⟨ns, hns⟩ := hv after
    obtain ⟨n, hn⟩ := hw (l ++ (v ++ after))
    exact ⟨_, by simpa using Statements.cons hn (newlines_of_lines hl _) hns⟩

theorem words_block :
    symbol .openBrace * (lines * ((words Statement * lines)∗ * symbol .closeBrace))
      ≤ words Block := by
  rintro _ ⟨_, ⟨o, ho, rfl⟩, _, ⟨l, hl, _, ⟨w, hw, _, ⟨c, hc, rfl⟩, rfl⟩, rfl⟩, rfl⟩ after
  have hn : Newlines (l ++ (w ++ c :: after)) (w ++ c :: after) := newlines_of_lines hl _
  obtain ⟨ns, hns⟩ := words_statements hw (c :: after)
  exact ⟨_, by simpa using Block.braces ho hn hns hc⟩

/-- The words of the rule for programs are programs. -/
theorem program_of_words {w : List Token} (h : w ∈ lines * (words Statement * lines)∗) :
    ∃ body, Program w body := by
  obtain ⟨l, hl, v, hv, rfl⟩ := h
  obtain ⟨ns, hns⟩ := words_statements hv []
  rw [List.append_nil] at hns
  exact ⟨ns, v, newlines_of_lines hl v, hns⟩

/-! ## Every rule has a word -/

theorem inhabited_primary : Inhabited (words Primary) := inhabited_aName.mono words_var

theorem inhabited_postfixed : Inhabited (words Postfixed) := inhabited_primary.mono words_primary

theorem inhabited_unary : Inhabited (words Unary) := inhabited_postfixed.mono words_plain

theorem inhabited_operand (tier : Tier) : Inhabited (words (Operand tier)) := by
  apply inhabited_unary.mono
  intro w h after
  obtain ⟨n, hn⟩ := h after
  exact ⟨n, hn.operand tier⟩

theorem inhabited_tiered (tier : Tier) : Inhabited (words (Tiered tier)) :=
  (inhabited_operand tier).mono words_operand

theorem inhabited_expression : Inhabited (words Expression) := inhabited_tiered .equality

theorem inhabited_arguments : Inhabited (words Arguments) := inhabited_of_one_le words_noArguments

theorem inhabited_parameters : Inhabited (words Parameters) :=
  inhabited_of_one_le words_noParameters

theorem inhabited_statement : Inhabited (words Statement) :=
  inhabited_expression.mono words_expression

theorem inhabited_block : Inhabited (words Block) := by
  have hbody := (inhabited_kstar (words Statement * lines)).mul (inhabited_symbol .closeBrace)
  exact ((inhabited_symbol .openBrace).mul ((inhabited_kstar _).mul hbody)).mono words_block

theorem inhabited_if : Inhabited (words If) :=
  ((inhabited_word .ifWord).mul (inhabited_expression.mul inhabited_block)).mono words_if

end ExScript.Grammar
