import ExScript.Proofs.TokensBehind

/-!
# How far the rules look ahead

No rule looks behind the token that it ends in front of (`unaffectedRules`), so that what is
reported at a token is reported there whatever comes behind it (`program_unaffected`).

The second token in front of a rule decides only behind a name, whether the name is assigned to or
called; all rules for what begins with a name take it (`TakesName`).
-/

namespace ExScript.Parser

open Grammar

variable {α β : Type} {p : Parser α} {f : α → Parser β} {ts : List Token} {c : Change} {M N : Nat}

/-! ## Rules that take a name -/

/-- In front of a name, the parser only ends behind it, if its budget is not used up. -/
def TakesName (p : Parser α) : Prop :=
  ∀ ⦃name pos ts⦄ ⦃x : Ending α⦄ ⦃rest⦄, x.SettledAt ⟨.name name, pos⟩ →
    p (⟨.name name, pos⟩ :: ts) = x.before rest → rest <:+ ts

theorem TakesName.bind (h : TakesName p) (hf : ∀ a, Within (f a)) : TakesName (p >>= f) := by
  intro name pos ts x rest hs hx
  rcases bind_before hx with ⟨a, mid, ha, hfa⟩ | ⟨e, rfl, he⟩
  · exact (hf a hfa).trans (h (x := .returns a) trivial ha)
  · exact h (x := .stops e) hs.stops he

theorem takesName_tooDeep : TakesName (tooDeep : Parser α) := by
  intro name pos ts x rest hs hx
  cases x with
  | returns a => cases hx
  | stops e =>
    cases hx
    cases hs

/-- What the first token leads to in the rule for primary expressions. -/
def behindPrimary (rounds d : Nat) : Token → Option (Parser Node)
  | ⟨.int value, pos⟩ => some (return .int pos value)
  | ⟨.float value, pos⟩ => some (return .float pos value)
  | ⟨.string text, pos⟩ => some (return .string pos text)
  | ⟨.mark (.keyword .trueWord) _, pos⟩ => some (return .bool pos true)
  | ⟨.mark (.keyword .falseWord) _, pos⟩ => some (return .bool pos false)
  | ⟨.name name, pos⟩ => some do
    if (← nextKind) = symbolKind .openParen then
      advance
      let args ← arguments rounds d
      expectSymbol .closeParen
      return .call pos name args
    else return .var pos name
  | ⟨.mark (.symbol .openParen) _, _⟩ => some do
    let inner ← expression rounds d
    expectSymbol .closeParen
    return inner
  | _ => none

theorem primary_eq (rounds d : Nat) :
    primary rounds (d + 1) = behindFirst (behindPrimary rounds d) .expression := by
  funext ts
  rcases ts with _ | ⟨⟨lexeme, pos⟩, rest⟩
  · rfl
  · cases lexeme with
    | mark m text =>
      cases m with
      | keyword k => cases k <;> rfl
      | symbol s => cases s <;> rfl
      | _ => rfl
    | _ => rfl

theorem takesName_primary : ∀ rounds d, TakesName (primary rounds d)
  | _, 0 => takesName_tooDeep
  | rounds, d + 1 => by
    intro name pos ts x rest _ hx
    rw [primary_eq] at hx
    have hcall : Within (do advance
                            let args ← arguments rounds d
                            expectSymbol .closeParen
                            return Node.call pos name args) :=
      within_advance.bind fun _ => (within_of_traces (tracesRules rounds d).arguments).bind
        fun args => (within_expectSymbol _).bind fun _ => within_pure _
    apply (within_read kindOf).bind _ hx
    intro k
    split
    · exact hcall
    · exact within_pure _

/-- The rule for method calls, by the kinds of the first two tokens. -/
def postfixedOf (rounds d : Nat) (first second : Kind) : Parser Node := do
  let receiver ← primary rounds d
  methodsOf (arguments rounds d) rounds (first = .name && second != symbolKind .openParen) receiver

theorem takesName_postfixedOf (rounds d : Nat) (first second : Kind) :
    TakesName (postfixedOf rounds d first second) := by
  have harguments := (tracesRules rounds d).arguments
  apply (takesName_primary rounds d).bind
  exact fun receiver => within_of_traces (methodsOf_traces harguments rounds _ receiver)

theorem takesName_postfixed : ∀ rounds d, TakesName (postfixed rounds d)
  | _, 0 => takesName_tooDeep
  | rounds, d + 1 => fun _ _ ts _ _ hs hx => takesName_postfixedOf rounds d .name (kindOf ts) hs hx

theorem takesName_unary : ∀ rounds d, TakesName (unary rounds d)
  | _, 0 => takesName_tooDeep
  | rounds, d + 1 => fun _ _ _ _ _ hs hx => takesName_postfixed rounds d hs hx

theorem takesName_tiered (rounds : Nat) : ∀ d tier, TakesName (tiered rounds d tier)
  | 0, _ => takesName_tooDeep
  | d + 1, tier => by
    have hoperand : TakesName (ruleAt rounds d (tier.level + 1)) := by
      cases tier with
      | equality => exact takesName_tiered rounds d .comparison
      | comparison => exact takesName_tiered rounds d .sum
      | sum => exact takesName_tiered rounds d .product
      | product => exact takesName_unary rounds d
    have htraces := operand_traces (tracesRules rounds d) tier
    rw [tiered_succ]
    exact hoperand.bind fun first => within_of_traces (operatorsOf_traces htraces rounds first)

theorem takesName_expression : ∀ rounds d, TakesName (expression rounds d)
  | _, 0 => takesName_tooDeep
  | rounds, d + 1 => takesName_tiered rounds d .equality

theorem takesName_assignment : ∀ rounds d, TakesName (assignment rounds d)
  | _, 0 => takesName_tooDeep
  | rounds, d + 1 => by
    intro name pos ts x rest _ hx
    have hstatement : Within (statement rounds d) :=
      within_of_traces (tracesRules rounds d).statement
    have hvalue : Within (do expectSymbol .assign
                             return Node.assign pos name (← statement rounds d)) :=
      (within_expectSymbol _).bind fun _ => hstatement.bind fun _ => within_pure _
    exact hvalue hx

theorem exists_name (h : kindOf ts = .name) : ∃ name pos, ts = ⟨.name name, pos⟩ :: ts.tail := by
  rcases ts with _ | ⟨⟨lexeme, pos⟩, ts⟩
  · cases h
  · cases lexeme with
    | name name => exact ⟨name, pos, rfl⟩
    | _ => cases h

/-- A decision by two tokens, of which the second one only matters behind a name. -/
theorem unaffected_secondKind {f g : Kind → Kind → Parser α}
    (h : ∀ k l, Unaffected c N (f k l) (g k l)) (hname : ∀ l, TakesName (f .name l))
    (hother : ∀ {k} l l', k ≠ .name → f k l = f k l' ∧ g k l = g k l') :
    Unaffected c N (do f (← nextKind) (← secondKind)) (do g (← nextKind) (← secondKind)) where
  within ts _ _ hx := (h (kindOf ts) (kindOf ts.tail)).within hx
  same pre x mid hpre hs hx := by
    replace hx : f (kindOf (c.source pre)) (kindOf (c.source pre).tail) (c.source pre) =
      x.before (c.source mid) := hx
    show g (kindOf (c.target pre)) (kindOf (c.target pre).tail) (c.target pre) =
      x.before (c.target mid)
    rw [c.kindOf_target]
    cases pre with
    | cons t pre =>
      have hsecond : kindOf (c.target (t :: pre)).tail = kindOf (c.source (t :: pre)).tail :=
        c.kindOf_target pre
      rw [hsecond]
      exact (h _ _).same hpre hs hx
    | nil =>
      -- behind a name the second token may be another one, but then the name is taken
      by_cases hk : kindOf (c.source []) = .name
      · obtain ⟨name, pos, ht⟩ := exists_name hk
        obtain ⟨htoken, -⟩ := List.cons.inj ht
        rw [hk] at hx
        exact absurd (hname _ (htoken ▸ hs) (ht ▸ hx)) c.not_suffix_old
      · rw [(hother _ (kindOf c.old) hk).2]
        exact (h _ _).same hpre hs hx

/-! ## Rules -/

/-- The rules at a budget do not look behind the token that they end in front of.  Where an `if` may
come last, the line ends are taken as well, since an `else` may follow them. -/
structure UnaffectedRules (c : Change) (M rounds rounds' d : Nat) : Prop where
  statement : Unaffected c (M + 1) (skipping (statement rounds d)) (skipping (statement rounds' d))
  assignment :
    Unaffected c (M + 1) (skipping (assignment rounds d)) (skipping (assignment rounds' d))
  fnDecl : Unaffected c (M + 1) (fnDecl rounds d) (fnDecl rounds' d)
  whileLoop : Unaffected c (M + 1) (whileLoop rounds d) (whileLoop rounds' d)
  forLoop : Unaffected c (M + 1) (forLoop rounds d) (forLoop rounds' d)
  cond : Unaffected c (M + 1) (skipping (cond rounds d)) (skipping (cond rounds' d))
  ret : Unaffected c (M + 1) (ret rounds d) (ret rounds' d)
  block : Unaffected c (M + 1) (block rounds d) (block rounds' d)
  expression : Unaffected c (M + 1) (expression rounds d) (expression rounds' d)
  tiered : ∀ tier, Unaffected c (M + 1) (tiered rounds d tier) (tiered rounds' d tier)
  unary : Unaffected c (M + 1) (unary rounds d) (unary rounds' d)
  postfixed : Unaffected c (M + 1) (postfixed rounds d) (postfixed rounds' d)
  arguments : Unaffected c (M + 1) (arguments rounds d) (arguments rounds' d)
  argument : Unaffected c (M + 1) (argument rounds d) (argument rounds' d)
  primary : Unaffected c (M + 1) (primary rounds d) (primary rounds' d)

/-- The rule of a statement, by the kinds of its first two tokens. -/
def statementOf (rounds d : Nat) (first second : Kind) : Parser Node :=
  match first, second with
  | .name, .mark (.symbol .assign) => assignment rounds d
  | .mark (.keyword .fnWord), _ => fnDecl rounds d
  | .mark (.keyword .whileWord), _ => whileLoop rounds d
  | .mark (.keyword .forWord), _ => forLoop rounds d
  | .mark (.keyword .ifWord), _ => cond rounds d
  | .mark (.keyword .returnWord), _ => ret rounds d
  | .mark .endOfInput, _ => stop .statement
  | _, _ => expression rounds d

theorem statementOf_name (rounds d : Nat) (second : Kind) :
    TakesName (statementOf rounds d .name second) := by
  unfold statementOf
  split
  case h_1 => exact takesName_assignment rounds d
  case h_8 => exact takesName_expression rounds d
  -- the other rules begin with a keyword
  all_goals contradiction

theorem statementOf_other {k : Kind} (rounds d : Nat) (l l' : Kind) (h : k ≠ .name) :
    statementOf rounds d k l = statementOf rounds d k l' := by
  cases k with
  | name => exact absurd rfl h
  | mark m =>
    cases m with
    | keyword w => cases w <;> rfl
    | _ => rfl
  | _ => rfl

section Rules

variable {rounds rounds' d : Nat}

theorem statement_shorter {rest : List Token} {n : Node}
    (h : statement rounds d ts = .ok (n, rest)) : rest.length < ts.length :=
  ((sound rounds d).statement ts h).past.shorter

theorem unaffected_statement (ih : UnaffectedRules c M rounds rounds' d) :
    Unaffected c (M + 1) (skipping (statement rounds (d + 1)))
      (skipping (statement rounds' (d + 1))) := by
  apply unaffected_secondKind (f := fun k l => skipping (statementOf rounds d k l))
    (g := fun k l => skipping (statementOf rounds' d k l))
  · intro k l
    unfold statementOf
    split
    · exact ih.assignment
    · exact unaffected_skipping ih.fnDecl
    · exact unaffected_skipping ih.whileLoop
    · exact unaffected_skipping ih.forLoop
    · exact ih.cond
    · exact unaffected_skipping ih.ret
    · exact unaffected_skipping (unaffected_stop _)
    · exact unaffected_skipping ih.expression
  · exact fun l => (statementOf_name rounds d l).bind fun _ =>
      within_skipNewlines.bind fun _ => within_pure _
  · intro k l l' hk
    exact ⟨congrArg _ (statementOf_other rounds d l l' hk),
      congrArg _ (statementOf_other rounds' d l l' hk)⟩

theorem unaffected_assignment (ih : UnaffectedRules c M rounds rounds' d) :
    Unaffected c (M + 1) (skipping (assignment rounds (d + 1)))
      (skipping (assignment rounds' (d + 1))) := by
  apply unaffected_skipping_bind unaffected_nextPos
  intro pos
  apply unaffected_skipping_bind (unaffected_expectName _)
  intro name
  apply unaffected_skipping_bind (unaffected_expect _)
  exact fun _ => unaffected_skipping_map ih.statement _

theorem unaffected_cond (ih : UnaffectedRules c M rounds rounds' d) :
    Unaffected c (M + 1) (skipping (cond rounds (d + 1))) (skipping (cond rounds' (d + 1))) := by
  apply unaffected_skipping_bind unaffected_nextPos
  intro pos
  apply unaffected_skipping_bind (unaffected_expect _)
  intro _
  apply unaffected_skipping_bind ih.expression
  intro test
  apply unaffected_skipping_bind ih.block
  intro thenBody
  rw [skipping_else, skipping_else]
  apply unaffected_skipNewlines.bind
  intro _
  apply unaffected_nextKind.bind
  intro k
  split
  · apply unaffected_skipping_bind unaffected_advance
    intro _
    apply unaffected_skipping_bind unaffected_nextKind
    intro k
    split
    · exact unaffected_skipping_map ih.cond _
    · exact unaffected_skipping (ih.block.bind fun _ => unaffected_pure _)
  · exact unaffected_pure _

theorem unaffected_unary (ih : UnaffectedRules c M rounds rounds' d) :
    Unaffected c (M + 1) (unary rounds (d + 1)) (unary rounds' (d + 1)) := by
  apply unaffected_nextKind.bind
  intro k
  split
  · apply unaffected_nextPos.bind
    intro pos
    apply unaffected_advance.bind
    exact fun _ => ih.unary.bind fun n => unaffected_pure _
  · exact ih.postfixed

theorem unaffected_argument (ih : UnaffectedRules c M rounds rounds' d) :
    Unaffected c (M + 1) (argument rounds (d + 1)) (argument rounds' (d + 1)) := by
  apply unaffected_nextKind.bind
  intro k
  split
  · exact unaffected_stop _
  · exact ih.expression

theorem unaffected_primary (ih : UnaffectedRules c M rounds rounds' d) :
    Unaffected c (M + 1) (primary rounds (d + 1)) (primary rounds' (d + 1)) := by
  rw [primary_eq, primary_eq]
  apply unaffected_behindFirst
  intro t
  unfold behindPrimary
  split
  case h_6 =>
    apply Option.Rel.some
    apply unaffected_nextKind.bind
    intro k
    split
    · apply unaffected_advance.bind
      intro _
      apply ih.arguments.bind
      intro args
      exact (unaffected_expect _).bind fun _ => unaffected_pure _
    · exact unaffected_pure _
  case h_7 =>
    apply Option.Rel.some
    apply ih.expression.bind
    intro inner
    exact (unaffected_expect _).bind fun _ => unaffected_pure _
  case h_8 => exact .none
  all_goals exact .some (unaffected_pure _)

variable (hr : M < rounds) (hr' : M < rounds')

include hr hr'

theorem unaffected_fnDecl (ih : UnaffectedRules c M rounds rounds' d) :
    Unaffected c (M + 1) (fnDecl rounds (d + 1)) (fnDecl rounds' (d + 1)) := by
  apply unaffected_nextPos.bind
  intro pos
  apply (unaffected_expect _).bind
  intro _
  apply (unaffected_expectName _).bind
  intro name
  apply (unaffected_expect _).bind
  intro _
  apply (unaffected_listOf hr hr' (unaffected_expectName _)).bind
  intro params
  apply (unaffected_expect _).bind
  exact fun _ => ih.block.bind fun body => unaffected_pure _

theorem unaffected_block (ih : UnaffectedRules c M rounds rounds' d) :
    Unaffected c (M + 1) (block rounds (d + 1)) (block rounds' (d + 1)) := by
  apply (unaffected_expect _).bind
  intro _
  apply unaffected_skipNewlines.bind
  exact fun _ => unaffected_statementsOf hr hr' ih.statement statement_shorter []

theorem unaffected_tiered (ih : UnaffectedRules c M rounds rounds' d) (tier : Tier) :
    Unaffected c (M + 1) (tiered rounds (d + 1) tier) (tiered rounds' (d + 1) tier) := by
  have hoperand : Unaffected c (M + 1) (ruleAt rounds d (tier.level + 1))
      (ruleAt rounds' d (tier.level + 1)) := by
    cases tier with
    | equality => exact ih.tiered .comparison
    | comparison => exact ih.tiered .sum
    | sum => exact ih.tiered .product
    | product => exact ih.unary
  rw [tiered_succ, tiered_succ]
  exact hoperand.bind fun first => unaffected_operatorsOf hr hr' tier hoperand first

theorem unaffected_postfixed (ih : UnaffectedRules c M rounds rounds' d) :
    Unaffected c (M + 1) (postfixed rounds (d + 1)) (postfixed rounds' (d + 1)) := by
  apply unaffected_secondKind (f := postfixedOf rounds d) (g := postfixedOf rounds' d)
  · exact fun k l => ih.primary.bind fun receiver =>
      unaffected_methodsOf hr hr' ih.arguments _ receiver
  · exact takesName_postfixedOf rounds d .name
  · intro k l l' hk
    simp only [postfixedOf, hk, decide_false, Bool.false_and, and_self]

end Rules

theorem unaffectedRules {rounds rounds' : Nat} (hr : M < rounds) (hr' : M < rounds') (d : Nat) :
    UnaffectedRules c M rounds rounds' d := by
  induction d with
  | zero =>
    constructor
    case statement | assignment | cond => exact unaffected_skipping unaffected_tooDeep
    case tiered => exact fun _ => unaffected_tooDeep
    all_goals exact unaffected_tooDeep
  | succ d ih =>
    constructor
    case statement => exact unaffected_statement ih
    case assignment => exact unaffected_assignment ih
    case fnDecl => exact unaffected_fnDecl hr hr' ih
    case whileLoop =>
      apply unaffected_nextPos.bind
      intro pos
      apply (unaffected_expect _).bind
      intro _
      apply ih.expression.bind
      exact fun test => ih.block.bind fun body => unaffected_pure _
    case forLoop =>
      apply unaffected_nextPos.bind
      intro pos
      apply (unaffected_expect _).bind
      intro _
      apply (unaffected_expectName _).bind
      intro name
      apply (unaffected_expect _).bind
      intro _
      apply (unaffected_expect _).bind
      intro _
      apply ih.expression.bind
      intro low
      apply (unaffected_expect _).bind
      intro _
      apply ih.expression.bind
      intro high
      apply (unaffected_expect _).bind
      exact fun _ => ih.block.bind fun body => unaffected_pure _
    case cond => exact unaffected_cond ih
    case ret =>
      apply unaffected_nextPos.bind
      intro pos
      apply (unaffected_expect _).bind
      exact fun _ => ih.expression.bind fun value => unaffected_pure _
    case block => exact unaffected_block hr hr' ih
    case expression => exact ih.tiered .equality
    case tiered => exact unaffected_tiered hr hr' ih
    case unary => exact unaffected_unary ih
    case postfixed => exact unaffected_postfixed hr hr' ih
    case arguments => exact unaffected_listOf hr hr' ih.argument
    case argument => exact unaffected_argument ih
    case primary => exact unaffected_primary ih

theorem unaffected_program (c : Change) (limit : Nat) (pre : List Token) :
    Unaffected c (pre.length + 1)
      (programFrom (statement ((c.source pre).length + 1) limit) ((c.source pre).length + 1) [])
      (programFrom (statement ((c.target pre).length + 1) limit) ((c.target pre).length + 1)
        []) := by
  have hlen (behind : List Token) : pre.length < (pre ++ c.token :: behind).length := by
    simp
  have hr (behind : List Token) : pre.length < (pre ++ c.token :: behind).length + 1 :=
    Nat.lt_succ_of_lt (hlen behind)
  have hrules := unaffectedRules (c := c) (hr c.old) (hr c.new) limit
  exact unaffected_programFrom hrules.statement statement_shorter (tracesRules _ limit).statement
    (hlen c.old) (hlen c.new) []

/-- A program that is wrong at a token is wrong there whatever comes behind the token. -/
theorem program_unaffected {limit : Nat} {e : Expected} {pre tail : List Token} {t : Token}
    (h : program limit (pre ++ t :: tail) = .error ⟨.unexpected e, t :: tail⟩)
    (other : List Token) :
    program limit (pre ++ t :: other) = .error ⟨.unexpected e, t :: other⟩ := by
  have hprogram := unaffected_program ⟨t, tail, other⟩ limit pre
  have hstop := program_error.mp h
  exact program_error.mpr
    (@Unaffected.same _ _ _ _ _ hprogram pre (.stops (.unexpected e)) [] (Nat.lt_succ_self _)
      trivial hstop)

end ExScript.Parser
