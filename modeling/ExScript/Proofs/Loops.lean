import ExScript.Proofs.GrammarSound

/-!
# Every loop of the parser is left

A rule that returns has taken a token (`Rule.past`).  So there are more than enough rounds for a
repetition if there are more of them than tokens: it ends as a loop does that makes the same passes
without a limit (`loopsEnd`).
-/

namespace ExScript.Parser

variable {α β σ : Type} {ts rest : List Token}

/-! ## Progress -/

/-- Whenever the parser returns, it has taken a token. -/
def Shortens (p : Parser α) : Prop := ∀ ts, Ensures p ts fun _ rest => rest.length < ts.length

theorem shortens_expect {kind : Kind} (h : kind ≠ .mark .endOfInput) : Shortens (expect kind) := by
  intro ts _ rest hrest
  obtain ⟨hk, rfl⟩ := (expect_ok h).mp hrest
  cases ts with
  | nil => exact absurd hk.symm h
  | cons t ts => exact Nat.lt_succ_self _

theorem shortens_expectSymbol (s : Symbol) : Shortens (expectSymbol s) := shortens_expect nofun

theorem shortens_expectKeyword (k : Keyword) : Shortens (expectKeyword k) := shortens_expect nofun

theorem shortens_expectName (expected : Expected) : Shortens (expectName expected) := by
  intro ts name rest hrest
  obtain ⟨pos, rfl⟩ := expectName_ok.mp hrest
  exact Nat.lt_succ_self _

/-- The rules that read one statement or one expression. -/
inductive Rule where
  | statement | assignment | fnDecl | whileLoop | forLoop | cond | ret
  | expression | tiered (tier : Tier) | unary | postfixed | argument | primary

def Rule.parser (rounds d : Nat) : Rule → Parser Node
  | .statement => Parser.statement rounds d
  | .assignment => Parser.assignment rounds d
  | .fnDecl => Parser.fnDecl rounds d
  | .whileLoop => Parser.whileLoop rounds d
  | .forLoop => Parser.forLoop rounds d
  | .cond => Parser.cond rounds d
  | .ret => Parser.ret rounds d
  | .expression => Parser.expression rounds d
  | .tiered tier => Parser.tiered rounds d tier
  | .unary => Parser.unary rounds d
  | .postfixed => Parser.postfixed rounds d
  | .argument => Parser.argument rounds d
  | .primary => Parser.primary rounds d

theorem Rule.past (rule : Rule) (rounds d : Nat) (ts : List Token) :
    Ensures (rule.parser rounds d) ts fun _ rest => Grammar.Past ts rest := by
  have h := sound rounds d
  cases rule with
  | statement => exact (h.statement ts).mono fun _ _ hn => hn.past
  | assignment => exact (h.assignment ts).mono fun _ _ hn => hn.past
  | fnDecl => exact (h.fnDecl ts).mono fun _ _ hn => hn.past
  | whileLoop => exact (h.whileLoop ts).mono fun _ _ hn => hn.past
  | forLoop => exact (h.forLoop ts).mono fun _ _ hn => hn.past
  | cond => exact (h.cond ts).mono fun _ _ hn => hn.past
  | ret => exact (h.ret ts).mono fun _ _ hn => hn.past
  | expression => exact (h.expression ts).mono fun _ _ hn => hn.past
  | tiered tier => exact (h.tiered tier ts).mono fun _ _ hn => hn.past
  | unary => exact (h.unary ts).mono fun _ _ hn => hn.past
  | postfixed => exact (h.postfixed ts).mono fun _ _ hn => hn.past
  | argument => exact (h.argument ts).mono fun _ _ hn => hn.past
  | primary => exact (h.primary ts).mono fun _ _ hn => hn.past

theorem Rule.shortens (rule : Rule) (rounds d : Nat) : Shortens (rule.parser rounds d) :=
  fun ts => (rule.past rounds d ts).mono fun _ _ h => h.shorter

/-- Arguments may be none. -/
theorem arguments_noLonger (rounds d : Nat) (ts : List Token) :
    Ensures (arguments rounds d) ts fun _ rest => rest.length ≤ ts.length :=
  ((sound rounds d).arguments ts).mono fun _ _ h => h.suffix.length_le

/-! ## Loops without a limit -/

/-- After a pass, the loop is left or goes on with another pass. -/
inductive Pass (σ α : Type) where
  | leave (a : α)
  | again (s : σ)

/-- How a loop ends: after some passes it is left, or a pass fails. -/
inductive Loop (pass : σ → Parser (Pass σ α)) :
    σ → List Token → Except Stop (α × List Token) → Prop
  | fail {s ts e} (h : pass s ts = .error e) : Loop pass s ts (.error e)
  | leave {s ts a rest} (h : pass s ts = .ok (.leave a, rest)) : Loop pass s ts (.ok (a, rest))
  | again {s ts s' mid r} (h : pass s ts = .ok (.again s', mid)) (hr : Loop pass s' mid r) :
    Loop pass s ts r

theorem ensures_leave {Q : σ → List Token → Prop} (a : α) :
    Ensures (return .leave a : Parser (Pass σ α)) ts fun next rest =>
      ∀ s, next = .again s → Q s rest := by
  apply ensures_pure
  rintro _ ⟨⟩

def afterPass (next : σ → Parser α) : Pass σ α → Parser α
  | .leave a => return a
  | .again s => next s

/-- The parsers make up to so many passes of a loop, and a pass before another one takes a token. -/
structure Limited (pass : σ → Parser (Pass σ α)) (P : Nat → σ → Parser α) : Prop where
  step : ∀ n s, P (n + 1) s = pass s >>= afterPass (P n)
  takes : ∀ s ts, Ensures (pass s) ts fun next rest =>
    ∀ s', next = .again s' → rest.length < ts.length

/-- With more rounds than tokens, the limit is not what ends the loop. -/
theorem Limited.loop {pass : σ → Parser (Pass σ α)} {P : Nat → σ → Parser α} (h : Limited pass P)
    (n : Nat) : ∀ s ts, ts.length < n → Loop pass s ts (P n s ts) := by
  induction n with
  | zero => exact fun s ts hlen => absurd hlen (Nat.not_lt_zero _)
  | succ n ih =>
    intro s ts hlen
    rw [h.step]
    cases hp : pass s ts with
    | error e =>
      rw [bind_of_error hp]
      exact .fail hp
    | ok x =>
      obtain ⟨next, mid⟩ := x
      rw [bind_of_ok hp]
      cases next with
      | leave a => exact .leave hp
      | again s' =>
        have hless := h.takes s ts hp s' rfl
        exact .again hp (ih s' mid (by omega))

/-! ## The loops of the parser -/

def commaPass (item : Parser α) (items : List α) : Parser (Pass (List α) (List α)) := do
  if (← nextKind) = symbolKind .comma then
    advance
    return .again ((← item) :: items)
  else return .leave items.reverse

def statementPass (item : Parser Node) (items : List Node) :
    Parser (Pass (List Node) (List Node)) := do
  match ← nextKind with
  | .mark (.symbol .closeBrace) => advance; return .leave items.reverse
  | .mark .endOfInput => stop (.kind (symbolKind .closeBrace))
  | _ =>
    let n ← item
    skipNewlines
    return .again (n :: items)

def operatorPass (operator? : Kind → Option BinaryOp) (operand : Parser Node) (left : Node) :
    Parser (Pass Node Node) := do
  match operator? (← nextKind) with
  | some op =>
    advance
    let right ← operand
    return .again (.binary left.pos op left right)
  | none => return .leave left

def methodPass (args : Parser (List Node)) (s : Bool × Node) :
    Parser (Pass (Bool × Node) Node) := do
  if (← nextKind) = symbolKind .dot then
    advance
    let method ← expectName .methodName
    expectSymbol .openParen
    let given ← args
    expectSymbol .closeParen
    return .again (false, methodOn s.1 s.2 method given)
  else return .leave s.2

def programPass (item : Parser Node) (items : List Node) :
    Parser (Pass (List Node) (List Node)) := do
  skipNewlines
  if (← nextKind) = .mark .endOfInput then return .leave items.reverse
  else return .again ((← item) :: items)

theorem limited_commaSeparated {item : Parser α} (hi : Shortens item) :
    Limited (commaPass item) (commaSeparated item) where
  step n items := by
    simp only [commaSeparated, commaPass, bind_assoc]
    congr 1
    funext k
    split
    · simp only [bind_assoc, pure_bind, afterPass]
    · simp only [pure_bind, afterPass]
  takes items ts := by
    refine .bind (ensures_nextKind ?_)
    split
    next hk =>
      have hne := symbol_ne_end hk
      refine .bind (ensures_advance hne (.bind ((hi _).mono fun a mid hless => ensures_pure ?_)))
      have htail := ts.tail_suffix.length_le
      rintro _ -
      omega
    next => exact ensures_leave _

theorem limited_statementsOf {item : Parser Node} (hi : Shortens item) :
    Limited (statementPass item) (statementsOf item) where
  step n items := by
    simp only [statementsOf, statementPass, bind_assoc]
    congr 1
    funext k
    split
    · simp only [bind_assoc, pure_bind, afterPass]
    · rfl
    · simp only [bind_assoc, pure_bind, afterPass]
  takes items ts := by
    refine .bind (ensures_nextKind ?_)
    split
    next hk => exact .bind (ensures_advance (symbol_ne_end hk) (ensures_leave _))
    next => exact ensures_stop _
    next =>
      refine .bind ((hi _).mono fun n mid hless => .bind (ensures_skipNewlines fun hn => ?_))
      have hle := hn.suffix.length_le
      refine ensures_pure ?_
      rintro _ -
      omega

theorem limited_operatorsOf (tier : Tier) {operand : Parser Node} (ho : Shortens operand) :
    Limited (operatorPass tier.operator? operand) (operatorsOf tier.operator? operand) where
  step n left := by
    simp only [operatorsOf, operatorPass, bind_assoc]
    congr 1
    funext k
    cases tier.operator? k with
    | some op => simp only [bind_assoc, pure_bind, afterPass]
    | none => simp only [pure_bind, afterPass]
  takes left ts := by
    refine .bind (ensures_nextKind ?_)
    split
    next op hop =>
      have hne := Tier.operator?_ne_end hop
      refine .bind (ensures_advance hne (.bind ((ho _).mono fun a mid hless => ensures_pure ?_)))
      have htail := ts.tail_suffix.length_le
      rintro _ -
      omega
    next => exact ensures_leave _

/-- The arguments may be none, but the name of the method is taken. -/
theorem limited_methodsOf {args : Parser (List Node)}
    (ha : ∀ ts, Ensures args ts fun _ rest => rest.length ≤ ts.length) :
    Limited (methodPass args) fun n s => methodsOf args n s.1 s.2 where
  step n s := by
    simp only [methodsOf, methodPass, bind_assoc]
    congr 1
    funext k
    split
    · simp only [bind_assoc, pure_bind, afterPass]
    · simp only [pure_bind, afterPass]
  takes s ts := by
    refine .bind (ensures_nextKind ?_)
    split
    next hk =>
      refine .bind (ensures_advance (symbol_ne_end hk) (.bind ?_))
      refine (shortens_expectName _ _).mono fun method mid hname => .bind ?_
      refine (shortens_expectSymbol _ _).mono fun _ inner hopen => .bind ?_
      refine (ha inner).mono fun given after hargs => .bind ?_
      refine (shortens_expectSymbol _ _).mono fun _ rest hclose => ensures_pure ?_
      have htail := ts.tail_suffix.length_le
      rintro _ -
      omega
    next => exact ensures_leave _

theorem limited_programFrom {item : Parser Node} (hi : Shortens item) :
    Limited (programPass item) (programFrom item) where
  step n items := by
    simp only [programFrom, programPass, bind_assoc]
    congr 1
    funext _
    congr 1
    funext k
    split
    · simp only [pure_bind, afterPass]
    · simp only [bind_assoc, pure_bind, afterPass]
  takes items ts := by
    refine .bind (ensures_skipNewlines fun hn => .bind (ensures_nextKind ?_))
    split
    · exact ensures_leave _
    · refine .bind ((hi _).mono fun n rest hless => ensures_pure ?_)
      have hle := hn.suffix.length_le
      rintro _ -
      omega

/-- With more rounds than tokens, every repetition ends as the loop does that makes the same passes
without a limit. -/
structure LoopsEnd (rounds d : Nat) (ts : List Token) : Prop where
  program : ∀ items, Loop (programPass (statement rounds d)) items ts
    (programFrom (statement rounds d) rounds items ts)
  statements : ∀ items, Loop (statementPass (statement rounds d)) items ts
    (statementsOf (statement rounds d) rounds items ts)
  parameters : ∀ items, Loop (commaPass (expectName .parameterName)) items ts
    (commaSeparated (expectName .parameterName) rounds items ts)
  operators : ∀ (tier : Tier) (operand : Rule) left,
    Loop (operatorPass tier.operator? (operand.parser rounds d)) left ts
      (operatorsOf tier.operator? (operand.parser rounds d) rounds left ts)
  methods : ∀ bare receiver, Loop (methodPass (arguments rounds d)) (bare, receiver) ts
    (methodsOf (arguments rounds d) rounds bare receiver ts)
  arguments : ∀ items, Loop (commaPass (argument rounds d)) items ts
    (commaSeparated (argument rounds d) rounds items ts)

theorem loopsEnd {rounds : Nat} (hr : ts.length < rounds) (d : Nat) : LoopsEnd rounds d ts where
  program items := (limited_programFrom (Rule.shortens .statement rounds d)).loop _ items ts hr
  statements items := (limited_statementsOf (Rule.shortens .statement rounds d)).loop _ items ts hr
  parameters items := (limited_commaSeparated (shortens_expectName _)).loop _ items ts hr
  arguments items := (limited_commaSeparated (Rule.shortens .argument rounds d)).loop _ items ts hr
  operators tier operand left :=
    (limited_operatorsOf tier (operand.shortens rounds d)).loop _ left ts hr
  methods bare receiver :=
    (limited_methodsOf (arguments_noLonger rounds d)).loop _ (bare, receiver) ts hr

end ExScript.Parser
