import ExScript.Proofs.Lookahead
import ExScript.Proofs.Termination

/-!
# The end of the input

A token of kind `endOfInput` ends the input wherever it stands.  No phrase of the grammar contains
one (`PlainTo`), so that no rule goes past it, whether the rule returns or stops (`Barred`), and the
tokens behind it do not matter to the parser.
-/

open scoped Computability

namespace ExScript.Grammar

open ExScript.Parser (Tier kindOf behindNext)

/-! ## No phrase contains the end of the input -/

/-- None of the tokens in front of the rest ends the input. -/
def PlainTo (ts rest : List Token) : Prop := ∃ taken, ts = taken ++ rest ∧ Plain taken

variable {ts mid rest : List Token}

theorem plainTo_refl (ts : List Token) : PlainTo ts ts := ⟨[], rfl, by simp [Plain]⟩

theorem PlainTo.trans (h : PlainTo ts mid) (h' : PlainTo mid rest) : PlainTo ts rest := by
  obtain ⟨v, rfl, hv⟩ := h
  obtain ⟨w, rfl, hw⟩ := h'
  exact ⟨v ++ w, (List.append_assoc ..).symm, hv.append hw⟩

theorem plainTo_tail {t : Token} (ht : t.kind ≠ .mark .endOfInput) : PlainTo (t :: ts) ts :=
  ⟨[t], rfl, by simpa [Plain] using ht⟩

theorem plainTo_behindNext (ts : List Token) : PlainTo ts (behindNext ts) := by
  rw [behindNext]
  split
  case isTrue => exact plainTo_refl ts
  case isFalse hk =>
    cases ts with
    | nil => exact plainTo_refl []
    | cons t ts => exact plainTo_tail hk

theorem plainTo_name {name : String} {pos : Pos} : PlainTo (⟨.name name, pos⟩ :: ts) ts :=
  plainTo_tail nofun

theorem Is.plainTo {s : Symbol} {t : Token} (h : Is s t) : PlainTo (t :: ts) ts :=
  plainTo_tail (by rw [h]; exact nofun)

theorem IsWord.plainTo {k : Keyword} {t : Token} (h : IsWord k t) : PlainTo (t :: ts) ts :=
  plainTo_tail (by rw [h]; exact nofun)

theorem Newlines.plainTo (h : Newlines ts rest) : PlainTo ts rest := by
  induction h with
  | nil => exact plainTo_refl _
  | cons ht _ ih => exact (plainTo_tail (by rw [ht]; exact nofun)).trans ih

mutual

theorem Tiered.plainTo : ∀ {tier ts n rest}, Tiered tier ts n rest → PlainTo ts rest
  | _, _, _, _, .operand h => h.plainTo
  | _, _, _, _, .binary ha _ ht hb => (ha.plainTo.trans ht.plainTo).trans hb.plainTo

theorem Operand.plainTo : ∀ {tier ts n rest}, Operand tier ts n rest → PlainTo ts rest
  | _, _, _, _, .comparison h => h.plainTo
  | _, _, _, _, .sum h => h.plainTo
  | _, _, _, _, .product h => h.plainTo
  | _, _, _, _, .unary h => h.plainTo

theorem Unary.plainTo : ∀ {ts n rest}, Unary ts n rest → PlainTo ts rest
  | _, _, _, .sign _ ht h => ht.plainTo.trans h.plainTo
  | _, _, _, .plain h => h.plainTo

theorem Postfixed.plainTo : ∀ {ts n rest}, Postfixed ts n rest → PlainTo ts rest
  | _, _, _, .primary h => h.plainTo
  | _, _, _, .variableMethod hd ho ha hc =>
    plainTo_name.trans (hd.plainTo.trans (plainTo_name.trans (ho.plainTo.trans
      (ha.plainTo.trans hc.plainTo))))
  | _, _, _, .method hr _ hd ho ha hc =>
    hr.plainTo.trans (hd.plainTo.trans (plainTo_name.trans (ho.plainTo.trans
      (ha.plainTo.trans hc.plainTo))))

theorem Primary.plainTo : ∀ {ts n rest}, Primary ts n rest → PlainTo ts rest
  | _, _, _, .int | _, _, _, .float | _, _, _, .string => plainTo_tail nofun
  | _, _, _, .trueWord ht | _, _, _, .falseWord ht => ht.plainTo
  | _, _, _, .call ho ha hc =>
    plainTo_name.trans (ho.plainTo.trans (ha.plainTo.trans hc.plainTo))
  | _, _, _, .var => plainTo_name
  | _, _, _, .parens ho h hc => ho.plainTo.trans (h.plainTo.trans hc.plainTo)

theorem Arguments.plainTo : ∀ {ts ns rest}, Arguments ts ns rest → PlainTo ts rest
  | _, _, _, .none => plainTo_refl _
  | _, _, _, .some h hs => h.plainTo.trans hs.plainTo

theorem MoreArguments.plainTo : ∀ {ts ns rest}, MoreArguments ts ns rest → PlainTo ts rest
  | _, _, _, .nil => plainTo_refl _
  | _, _, _, .cons ht h hs => ht.plainTo.trans (h.plainTo.trans hs.plainTo)

end

theorem MoreParameters.plainTo {names : List String} (h : MoreParameters ts names rest) :
    PlainTo ts rest := by
  induction h with
  | nil => exact plainTo_refl _
  | cons ht _ ih => exact ht.plainTo.trans (plainTo_name.trans ih)

theorem Parameters.plainTo {names : List String} (h : Parameters ts names rest) :
    PlainTo ts rest := by
  cases h with
  | none => exact plainTo_refl _
  | some h => exact plainTo_name.trans h.plainTo

mutual

theorem Statement.plainTo : ∀ {ts n rest}, Statement ts n rest → PlainTo ts rest
  | _, _, _, .assign ht h => plainTo_name.trans (ht.plainTo.trans h.plainTo)
  | _, _, _, .fnDecl hf ho hp hc hb =>
    hf.plainTo.trans (plainTo_name.trans (ho.plainTo.trans (hp.plainTo.trans
      (hc.plainTo.trans hb.plainTo))))
  | _, _, _, .whileLoop ht he hb => ht.plainTo.trans (he.plainTo.trans hb.plainTo)
  | _, _, _, .forLoop ht hi ho hl hw hh hc hb =>
    ht.plainTo.trans (plainTo_name.trans (hi.plainTo.trans (ho.plainTo.trans (hl.plainTo.trans
      (hw.plainTo.trans (hh.plainTo.trans (hc.plainTo.trans hb.plainTo)))))))
  | _, _, _, .cond h => h.plainTo
  | _, _, _, .ret ht h => ht.plainTo.trans h.plainTo
  | _, _, _, .expression h => h.plainTo

theorem If.plainTo : ∀ {ts n rest}, If ts n rest → PlainTo ts rest
  | _, _, _, .plain ht he hb => ht.plainTo.trans (he.plainTo.trans hb.plainTo)
  | _, _, _, .elseBlock ht he hb hn hu ho =>
    ht.plainTo.trans (he.plainTo.trans (hb.plainTo.trans (hn.plainTo.trans
      (hu.plainTo.trans ho.plainTo))))
  | _, _, _, .elseIf ht he hb hn hu ho =>
    ht.plainTo.trans (he.plainTo.trans (hb.plainTo.trans (hn.plainTo.trans
      (hu.plainTo.trans ho.plainTo))))

theorem Block.plainTo : ∀ {ts body rest}, Block ts body rest → PlainTo ts rest
  | _, _, _, .braces ho hn hs hc =>
    ho.plainTo.trans (hn.plainTo.trans (hs.plainTo.trans hc.plainTo))

theorem Statements.plainTo : ∀ {ts body rest}, Statements ts body rest → PlainTo ts rest
  | _, _, _, .nil => plainTo_refl _
  | _, _, _, .cons h hn hs => h.plainTo.trans (hn.plainTo.trans hs.plainTo)

end

theorem plain_of_plainTo {w : List Token} (h : PlainTo w []) : Plain w := by
  obtain ⟨taken, hw, htaken⟩ := h
  rw [List.append_nil] at hw
  exact hw ▸ htaken

/-- The words of a rule do not contain the end of the input if its phrases do not. -/
theorem plain_of_words {β : Type} {R : List Token → β → List Token → Prop}
    (hR : ∀ {ts n rest}, R ts n rest → PlainTo ts rest) {w : List Token} (hw : w ∈ words R) :
    Plain w := by
  obtain ⟨n, hn⟩ := hw []
  rw [List.append_nil] at hn
  exact plain_of_plainTo (hR hn)

theorem plain_of_lines {w : List Token} (hw : w ∈ lines) : Plain w := by
  have h := newlines_of_lines hw []
  rw [List.append_nil] at h
  exact plain_of_plainTo h.plainTo

theorem plain_of_program {w : List Token} (hw : w ∈ lines * (words Statement * lines)∗) :
    Plain w := by
  obtain ⟨body, mid, hn, hs⟩ := program_of_words hw
  exact plain_of_plainTo (hn.plainTo.trans hs.plainTo)

end ExScript.Grammar

namespace ExScript.Parser

open Grammar

variable {α : Type} {p q : Parser α} {ts rest : List Token}

/-! ## Where the rules end -/

/-- The parser ends in front of every token that ends the input, or at it. -/
def Barred (p : Parser α) (ts : List Token) : Prop :=
  ∀ ⦃x : Ending α⦄ ⦃rest⦄, p ts = x.before rest →
    ∀ ⦃pre e tail⦄, ts = pre ++ e :: tail → e.kind = .mark .endOfInput →
      ∃ mid, mid <:+ pre ∧ rest = mid ++ e :: tail

theorem not_past_end {pre tail : List Token} {e : Token} (h : PlainTo (pre ++ e :: tail) rest)
    (he : e.kind = .mark .endOfInput) : ∃ mid, mid <:+ pre ∧ rest = mid ++ e :: tail := by
  obtain ⟨taken, htaken, hplain⟩ := h
  rcases List.append_eq_append_iff.mp htaken with ⟨more, rfl, hmore⟩ | ⟨mid, rfl, hrest⟩
  · cases more with
    | nil => exact ⟨[], List.nil_suffix, hmore.symm⟩
    | cons t more =>
      obtain ⟨rfl, _⟩ := List.cons.inj hmore
      exact absurd he (hplain e (by simp))
  · exact ⟨mid, List.suffix_append taken mid, hrest⟩

theorem barred_of_plainTo (h : ∀ {x : Ending α} {rest}, p ts = x.before rest → PlainTo ts rest) :
    Barred p ts := by
  rintro x rest hx pre e tail rfl he
  exact not_past_end (h hx) he

/-- What is taken of a word without an end of the input has none either. -/
theorem Traces.barred {A : Language Token} (h : Traces p ts A) (hA : ∀ w ∈ A, Plain w) :
    Barred p ts := by
  refine barred_of_plainTo fun {x rest} hx => ?_
  cases x with
  | returns a =>
    obtain ⟨w, hw, htaken⟩ := h.ok hx
    exact ⟨w, htaken, hA w hw⟩
  | stops expected =>
    obtain ⟨w, more, hw, _, htaken⟩ := h.error hx
    exact ⟨w, htaken, fun t ht => hA _ hw t (List.mem_append_left more ht)⟩

theorem barred_advance : Barred advance ts := by
  refine barred_of_plainTo fun {x rest} hx => ?_
  cases x with
  | returns a =>
    cases hx
    exact plainTo_behindNext ts
  | stops expected => cases hx

/-- Also when the end of the input is what is expected. -/
theorem barred_expect (kind : Kind) : Barred (expect kind) ts := by
  by_cases hk : kindOf ts = kind
  · have hexpect : expect kind ts = advance ts := congrFun (if_pos hk) ts
    exact fun x rest hx => barred_advance (hexpect.symm.trans hx)
  · have hexpect : expect kind ts = .error ⟨.unexpected (.kind kind), ts⟩ := congrFun (if_neg hk) ts
    refine barred_of_plainTo fun {x rest} hx => ?_
    rw [hexpect] at hx
    cases x with
    | returns a => cases hx
    | stops expected =>
      cases hx
      exact plainTo_refl ts

theorem Rule.barred (rule : Rule) (rounds d : Nat) (ts : List Token) :
    Barred (rule.parser rounds d) ts := by
  have h := tracesRules rounds d
  cases rule with
  | statement => exact (h.statement ts).barred fun _ => plain_of_words Statement.plainTo
  | assignment => exact (h.assignment ts).barred fun _ => plain_of_words Statement.plainTo
  | fnDecl => exact (h.fnDecl ts).barred fun _ => plain_of_words Statement.plainTo
  | whileLoop => exact (h.whileLoop ts).barred fun _ => plain_of_words Statement.plainTo
  | forLoop => exact (h.forLoop ts).barred fun _ => plain_of_words Statement.plainTo
  | cond => exact (h.cond ts).barred fun _ => plain_of_words If.plainTo
  | ret => exact (h.ret ts).barred fun _ => plain_of_words Statement.plainTo
  | expression => exact (h.expression ts).barred fun _ => plain_of_words Tiered.plainTo
  | tiered tier => exact (h.tiered tier ts).barred fun _ => plain_of_words Tiered.plainTo
  | unary => exact (h.unary ts).barred fun _ => plain_of_words Unary.plainTo
  | postfixed => exact (h.postfixed ts).barred fun _ => plain_of_words Postfixed.plainTo
  | argument => exact (h.argument ts).barred fun _ => plain_of_words Tiered.plainTo
  | primary => exact (h.primary ts).barred fun _ => plain_of_words Primary.plainTo

/-- No part of the parser goes past a token that ends the input. -/
structure BarredRules (rounds d : Nat) (ts : List Token) : Prop where
  rule : ∀ rule : Rule, Barred (rule.parser rounds d) ts
  block : Barred (block rounds d) ts
  arguments : Barred (arguments rounds d) ts
  parameters : Barred (listOf rounds (expectName .parameterName)) ts
  program : Barred (programFrom (statement rounds d) rounds []) ts
  advance : Barred advance ts
  expect : ∀ kind, Barred (expect kind) ts
  expectName : ∀ expected, Barred (expectName expected) ts
  skipNewlines : Barred skipNewlines ts

theorem barredRules (rounds d : Nat) (ts : List Token) : BarredRules rounds d ts := by
  have h := tracesRules rounds d
  constructor
  case rule => exact fun rule => rule.barred rounds d ts
  case block => exact (h.block ts).barred fun _ => plain_of_words Block.plainTo
  case arguments => exact (h.arguments ts).barred fun _ => plain_of_words Arguments.plainTo
  case parameters =>
    have hlist : Traces (listOf rounds (expectName .parameterName)) ts (words Parameters) :=
      listOf_traces (fun _ => traces_expectName _) inhabited_aName words_noParameters
        words_parameters rounds
    exact hlist.barred fun _ => plain_of_words Parameters.plainTo
  case program =>
    exact (programFrom_traces h.statement rounds [] ts).barred fun _ => plain_of_program
  case advance => exact barred_advance
  case expect => exact barred_expect
  case expectName =>
    refine fun expected => (traces_expectName expected).barred ?_
    rintro _ ⟨name, pos, rfl⟩
    exact plain_of_plainTo plainTo_name
  case skipNewlines => exact traces_skipNewlines.barred fun _ => plain_of_lines

/-! ## What comes behind the end of the input -/

/-- A parser that ends in front of the end of the input ends there whatever comes behind it. -/
theorem Unaffected.ending {c : Change} {N : Nat} {pre : List Token} (h : Unaffected c N p q)
    (hp : Barred p (c.source pre)) (hpre : pre.length < N)
    (he : c.token.kind = .mark .endOfInput) : ∃ (x : Ending α) (mid : List Token),
      p (c.source pre) = x.before (c.source mid) ∧ q (c.target pre) = x.before (c.target mid) := by
  obtain ⟨x, rest, hx⟩ := exists_ending (p (c.source pre))
  obtain ⟨mid, _, rfl⟩ := hp hx rfl he
  exact ⟨x, mid, hx, h.same hpre (Ending.settledAt_end he) hx⟩

theorem program_of_run {limit : Nat} {r : Except Stop (List Node × List Token)}
    (h : programFrom (statement (ts.length + 1) limit) (ts.length + 1) [] ts = r) :
    program limit ts = Prod.fst <$> r := by
  rw [← h]
  rfl

end ExScript.Parser

open ExScript.Parser

namespace ExScript

/-- The tokens behind the end of the input do not matter. -/
theorem parseTokens_behind_end (ts : List Token) {e : Token} (he : e.kind = .mark .endOfInput)
    (tail other : List Token) : parseTokens (ts ++ e :: tail) = parseTokens (ts ++ e :: other) := by
  obtain ⟨x, mid, hx, hx'⟩ := (unaffected_program ⟨e, tail, other⟩ nestingLimit ts).ending
    (barredRules _ _ _).program (Nat.lt_succ_self _) he
  have hprogram : program nestingLimit (ts ++ e :: tail) =
      Prod.fst <$> x.before (mid ++ e :: tail) := program_of_run hx
  have hprogram' : program nestingLimit (ts ++ e :: other) =
      Prod.fst <$> x.before (mid ++ e :: other) := program_of_run hx'
  rw [parseTokens, parseTokens, hprogram, hprogram']
  cases x with
  | returns body => cases ts <;> rfl
  | stops reason => cases reason <;> cases mid <;> rfl

/-- The parser ends, and not behind the end of the input.  A rule that returns has taken a token;
every repetition is left like a loop without a limit, and under all limits that are large enough the
result is the same.  No part of the parser goes past an end of the input, and what stands behind it
does not matter. -/
theorem parser_ends_at_end_of_input (ts : List Token) :
    (∀ rounds d,
      (∀ (rule : Rule) n rest, rule.parser rounds d ts = .ok (n, rest) → Grammar.Past ts rest) ∧
      (∀ body rest, block rounds d ts = .ok (body, rest) → Grammar.Past ts rest) ∧
      (ts.length < rounds → LoopsEnd rounds d ts) ∧ BarredRules rounds d ts) ∧
    EndsOn ts ∧
    ∀ e tail other, e.kind = .mark .endOfInput →
      parseTokens (ts ++ e :: tail) = parseTokens (ts ++ e :: other) := by
  refine ⟨fun rounds d => ⟨?_, ?_, fun hr => loopsEnd hr d, barredRules rounds d ts⟩, endsOn ts, ?_⟩
  · exact fun rule n rest h => rule.past rounds d ts h
  · exact fun body rest h => ((sound rounds d).block ts h).past
  · exact fun e tail other he => parseTokens_behind_end ts he tail other

/-- The tokens of `if true` with an empty block, where the end of the input keeps an `else` off. -/
theorem parser_ends_at_end_of_input_else :
    let ts : List Token := [⟨.mark (.keyword .ifWord) "if", ⟨1, 1⟩⟩,
      ⟨.mark (.keyword .trueWord) "true", ⟨1, 4⟩⟩, ⟨.mark (.symbol .openBrace) "\x7b", ⟨1, 9⟩⟩,
      ⟨.mark (.symbol .closeBrace) "\x7d", ⟨1, 10⟩⟩, ⟨.mark .newline "\n", ⟨1, 11⟩⟩]
    let e : Token := ⟨.mark .endOfInput "", ⟨2, 1⟩⟩
    let other : List Token := [⟨.mark (.keyword .elseWord) "else", ⟨2, 1⟩⟩,
      ⟨.mark (.symbol .openBrace) "\x7b", ⟨2, 6⟩⟩, ⟨.mark (.symbol .closeBrace) "\x7d", ⟨2, 7⟩⟩]
    let n (elseBody : Option (List Node)) : Node :=
      .cond ⟨1, 1⟩ (.bool ⟨1, 4⟩ true) [] elseBody
    (Rule.cond.parser 6 20 ts = .ok (n none, ts.drop 4) ∧ Grammar.Past ts (ts.drop 4)) ∧
    (block 6 20 (ts.drop 2) = .ok ([], ts.drop 4) ∧ Grammar.Past (ts.drop 2) (ts.drop 4)) ∧
    (ts.length < 6 ∧ LoopsEnd 6 20 ts) ∧
    (e.kind = .mark .endOfInput ∧ parseTokens (ts ++ e :: other) = parseTokens (ts ++ [e])) ∧
    parseTokens (ts ++ [e]) = .ok ⟨⟨1, 1⟩, [n none]⟩ ∧
    parseTokens (ts ++ other) = .ok ⟨⟨1, 1⟩, [n (some [])]⟩ := by
  intro ts e other n
  have hcond : Rule.cond.parser 6 20 ts = .ok (n none, ts.drop 4) := by rfl
  have hblock : block 6 20 (ts.drop 2) = .ok ([], ts.drop 4) := by rfl
  have hlen : ts.length < 6 := by decide
  have he : e.kind = .mark .endOfInput := rfl
  obtain ⟨hrules, _, hbehind⟩ := parser_ends_at_end_of_input ts
  refine ⟨⟨hcond, (hrules 6 20).1 .cond _ _ hcond⟩, ⟨hblock, ?_⟩,
    ⟨hlen, (hrules 6 20).2.2.1 hlen⟩, ⟨he, hbehind e other [] he⟩, by rfl, by rfl⟩
  exact ((parser_ends_at_end_of_input (ts.drop 2)).1 6 20).2.1 _ _ hblock

end ExScript
