import ExScript.Proofs.Nesting
import ExScript.Proofs.ParserSteps
import ExScript.Proofs.WellFormed

/-!
# What the parser returns

Every tree that the parser returns is well-formed, as long as the tokens carry literals and names
that can be spelled, and its nesting stays within the budget that the parser had (`program_output`).
The budget is the reason why printed text never nests deeper than the text it comes from.

`Gives p Q` says that whatever `p` returns satisfies `Q`; one step lemma for each rule assumes it of
the rules below, and the induction on the budget joins them.
-/

namespace ExScript.Parser

open Node

/-- All tokens carry literals and names that can be spelled. -/
def ProperTokens (ts : List Token) : Prop := ∀ t ∈ ts, t.lexeme.Proper

def Gives {α : Type} (p : Parser α) (Q : α → Prop) : Prop :=
  ∀ ⦃ts a rest⦄, ProperTokens ts → p ts = .ok (a, rest) → Q a ∧ ProperTokens rest

variable {α β : Type} {p : Parser α} {Q R : α → Prop}

theorem ProperTokens.tail {ts : List Token} (h : ProperTokens ts) : ProperTokens ts.tail :=
  fun t ht => h t (List.mem_of_mem_tail ht)

theorem ProperTokens.dropWhile {ts : List Token} (h : ProperTokens ts) (f : Token → Bool) :
    ProperTokens (ts.dropWhile f) :=
  fun t ht => h t ((List.dropWhile_sublist f).subset ht)

theorem Gives.bind {f : α → Parser β} {S : β → Prop} (hp : Gives p Q)
    (hf : ∀ a, Q a → Gives (f a) S) : Gives (p >>= f) S := by
  intro ts b rest ht h
  obtain ⟨a, mid, ha, hb⟩ := bind_ok.mp h
  obtain ⟨hq, hm⟩ := hp ht ha
  exact hf a hq hm hb

theorem Gives.mono (hp : Gives p Q) (h : ∀ a, Q a → R a) : Gives p R := by
  intro ts a rest ht ha
  obtain ⟨hq, hr⟩ := hp ht ha
  exact ⟨h a hq, hr⟩

theorem gives_pure {a : α} (h : Q a) : Gives (pure a) Q := by
  rintro ts _ _ ht ⟨⟩
  exact ⟨h, ht⟩

theorem gives_stop (expected : Expected) : Gives (stop expected) Q := by
  rintro ts a rest _ ⟨⟩

theorem gives_tooDeep : Gives tooDeep Q := by
  rintro ts a rest _ ⟨⟩

theorem gives_nextKind : Gives nextKind fun _ => True := by
  rintro ts _ _ ht ⟨⟩
  exact ⟨trivial, ht⟩

theorem gives_secondKind : Gives secondKind fun _ => True := by
  rintro ts _ _ ht ⟨⟩
  exact ⟨trivial, ht⟩

theorem gives_nextPos : Gives nextPos fun _ => True := by
  rintro ts _ _ ht ⟨⟩
  exact ⟨trivial, ht⟩

theorem gives_get : Gives get ProperTokens := by
  rintro ts _ _ ht ⟨⟩
  exact ⟨ht, ht⟩

theorem gives_set {ts : List Token} (h : ProperTokens ts) :
    Gives (set ts : Parser PUnit) fun _ => True := by
  rintro _ _ _ _ ⟨⟩
  exact ⟨trivial, h⟩

theorem gives_advance : Gives advance fun _ => True := by
  rintro ts _ _ ht ⟨⟩
  exact ⟨trivial, fun t hm => ht t ((behindNext_suffix ts).subset hm)⟩

theorem gives_skipNewlines : Gives skipNewlines fun _ => True := by
  rintro ts _ _ ht ⟨⟩
  exact ⟨trivial, ht.dropWhile _⟩

theorem gives_expect (kind : Kind) : Gives (expect kind) fun _ => True := by
  refine gives_nextKind.bind fun k _ => ?_
  split
  · exact gives_advance
  · exact gives_stop _

theorem gives_expectName (expected : Expected) : Gives (expectName expected) IsName := by
  intro ts name rest ht h
  obtain ⟨pos, rfl⟩ := expectName_ok.mp h
  exact ⟨ht _ (List.mem_cons_self ..), fun t hm => ht t (List.mem_cons_of_mem _ hm)⟩

/-! ## Repetitions -/

theorem gives_commaSeparated (hp : Gives p Q) (fuel : Nat) :
    ∀ items, (∀ a ∈ items, Q a) → Gives (commaSeparated p fuel items) fun as => ∀ a ∈ as, Q a := by
  induction fuel with
  | zero => exact fun items h => gives_pure fun a ha => h a (List.mem_reverse.mp ha)
  | succ fuel ih =>
    intro items h
    refine gives_nextKind.bind fun k _ => ?_
    split
    · refine gives_advance.bind fun _ _ => hp.bind fun a ha => ih _ ?_
      exact List.forall_mem_cons.mpr ⟨ha, h⟩
    · exact gives_pure fun a ha => h a (List.mem_reverse.mp ha)

theorem gives_listOf (hp : Gives p Q) (rounds : Nat) :
    Gives (listOf rounds p) fun as => ∀ a ∈ as, Q a := by
  refine gives_nextKind.bind fun k _ => ?_
  split
  · exact gives_pure fun a ha => absurd ha List.not_mem_nil
  · refine hp.bind fun a ha => gives_commaSeparated hp _ _ ?_
    exact fun b hb => List.mem_singleton.mp hb ▸ ha

theorem gives_statementsOf {p : Parser Node} {Q : Node → Prop} (hp : Gives p Q) (fuel : Nat) :
    ∀ items, (∀ n ∈ items, Q n) → Gives (statementsOf p fuel items) fun ns => ∀ n ∈ ns, Q n := by
  induction fuel with
  | zero => exact fun items _ => gives_stop _
  | succ fuel ih =>
    intro items h
    refine gives_nextKind.bind fun k _ => ?_
    split
    · exact gives_advance.bind fun _ _ => gives_pure fun n hn => h n (List.mem_reverse.mp hn)
    · exact gives_stop _
    · refine hp.bind fun n hn => gives_skipNewlines.bind fun _ _ => ih _ ?_
      exact List.forall_mem_cons.mpr ⟨hn, h⟩

theorem gives_programFrom {p : Parser Node} {Q : Node → Prop} (hp : Gives p Q) (fuel : Nat) :
    ∀ items, (∀ n ∈ items, Q n) → Gives (programFrom p fuel items) fun ns => ∀ n ∈ ns, Q n := by
  induction fuel with
  | zero => exact fun items h => gives_pure fun n hn => h n (List.mem_reverse.mp hn)
  | succ fuel ih =>
    intro items h
    refine gives_skipNewlines.bind fun _ _ => gives_nextKind.bind fun k _ => ?_
    split
    · exact gives_pure fun n hn => h n (List.mem_reverse.mp hn)
    · exact hp.bind fun n hn => ih _ (List.forall_mem_cons.mpr ⟨hn, h⟩)

theorem gives_operatorsOf {operator? : Kind → Option BinaryOp} {p : Parser Node}
    {P Q : Node → Prop} (hp : Gives p Q)
    (hstep : ∀ kind op left right, operator? kind = some op → P left → Q right →
      P (.binary left.pos op left right)) (fuel : Nat) :
    ∀ left, P left → Gives (operatorsOf operator? p fuel left) P := by
  induction fuel with
  | zero => exact fun left h => gives_pure h
  | succ fuel ih =>
    intro left h
    refine gives_nextKind.bind fun k _ => ?_
    split
    · next op hop =>
      refine gives_advance.bind fun _ _ => hp.bind fun right hr => ?_
      exact ih _ (hstep k op left right hop h hr)
    · exact gives_pure h

theorem gives_methodsOf {p : Parser (List Node)} {Q : List Node → Prop} {P : Bool → Node → Prop}
    (hp : Gives p Q)
    (hstep : ∀ bare receiver method args, P bare receiver → IsName method → Q args →
      P false (methodOn bare receiver method args)) (fuel : Nat) :
    ∀ bare receiver, P bare receiver →
      Gives (methodsOf p fuel bare receiver) fun n => ∃ bare, P bare n := by
  induction fuel with
  | zero => exact fun bare receiver h => gives_pure ⟨bare, h⟩
  | succ fuel ih =>
    intro bare receiver h
    refine gives_nextKind.bind fun k _ => ?_
    split
    · refine gives_advance.bind fun _ _ => (gives_expectName _).bind fun method hm => ?_
      refine (gives_expect _).bind fun _ _ => hp.bind fun args ha => ?_
      exact (gives_expect _).bind fun _ _ => ih _ _ (hstep bare receiver method args h hm ha)
    · exact gives_pure ⟨bare, h⟩

/-! ## Budgets of lists -/

theorem argNesting_le {d : Nat} {args : List Node}
    (h : ∀ a ∈ args, a.level + a.nesting + 1 ≤ d) : argNesting args ≤ d := by
  induction args with
  | nil => exact Nat.zero_le d
  | cons a rest ih =>
    obtain ⟨ha, hr⟩ := List.forall_mem_cons.mp h
    exact Nat.max_le.mpr ⟨ha, ih hr⟩

theorem bodyNesting_le {d : Nat} {body : List Node} (h : ∀ n ∈ body, n.statementNesting ≤ d) :
    bodyNesting body ≤ d := by
  induction body with
  | nil => exact Nat.zero_le d
  | cons n rest ih =>
    obtain ⟨hn, hr⟩ := List.forall_mem_cons.mp h
    exact Nat.max_le.mpr ⟨hn, ih hr⟩

/-! ## Rules -/

theorem Tier.operator?_known {tier : Tier} {kind : Kind} {op : BinaryOp}
    (h : tier.operator? kind = some op) : op.Known ∧ op.level = tier.level := by
  unfold Tier.operator? at h
  split at h <;> cases h <;> exact ⟨trivial, rfl⟩

theorem sign?_known {kind : Kind} {op : UnaryOp} (h : sign? kind = some op) : op.Known := by
  unfold sign? at h
  split at h <;> cases h <;> trivial

/-- An expression whose text is read within the budget at a place of some level. -/
def IsOperand (outer d : Nat) (n : Node) : Prop :=
  n.WellFormed ∧ n.isExpr = true ∧ n.nestingAt outer ≤ d

def IsExpression (d : Nat) (n : Node) : Prop :=
  n.WellFormed ∧ n.isExpr = true ∧ n.level + n.nesting ≤ d

/-- A statement that is no expression. -/
def IsCommand (d : Nat) (n : Node) : Prop :=
  n.WellFormed ∧ n.isExpr = false ∧ n.nesting ≤ d

def IsStatement (d : Nat) (n : Node) : Prop := n.WellFormed ∧ n.statementNesting ≤ d

theorem IsCommand.isStatement {d : Nat} {n : Node} (h : IsCommand d n) : IsStatement (d + 1) n := by
  obtain ⟨hw, he, hn⟩ := h
  refine ⟨hw, ?_⟩
  simp only [statementNesting, statementBudget, he]
  simpa using hn

theorem IsExpression.isStatement {d : Nat} {n : Node} (h : IsExpression d n) :
    IsStatement (d + 1) n := by
  obtain ⟨hw, he, hn⟩ := h
  refine ⟨hw, ?_⟩
  simp only [statementNesting, statementBudget, he, if_true]
  omega

theorem IsExpression.of_operand {d : Nat} {n : Node} (h : IsOperand 1 d n) :
    IsExpression (d + 1) n := by
  obtain ⟨hw, he, hn⟩ := h
  have hl := one_le_level hw
  refine ⟨hw, he, ?_⟩
  simp only [nestingAt, budgetAt] at hn
  split at hn <;> omega

/-- A looser place takes whatever a tighter one does, with one rule more. -/
theorem IsOperand.looser {outer d : Nat} {n : Node} (ho : outer < 7)
    (h : IsOperand (outer + 1) d n) :
    IsOperand outer (d + 1) n := by
  obtain ⟨hw, he, hn⟩ := h
  refine ⟨hw, he, ?_⟩
  simp only [nestingAt, budgetAt] at hn ⊢
  split at hn <;> split <;> omega

/-- What the rules return at a budget. -/
structure Outputs (rounds d : Nat) : Prop where
  statement : Gives (statement rounds d) (IsStatement d)
  assignment : Gives (assignment rounds d) (IsCommand d)
  fnDecl : Gives (fnDecl rounds d) (IsCommand d)
  whileLoop : Gives (whileLoop rounds d) (IsCommand d)
  forLoop : Gives (forLoop rounds d) (IsCommand d)
  cond : Gives (cond rounds d) fun n =>
    IsCommand d n ∧ ∃ pos test thenBody elseBody, n = .cond pos test thenBody elseBody
  ret : Gives (ret rounds d) (IsCommand d)
  block : Gives (block rounds d) fun body =>
    (∀ n ∈ body, n.WellFormed) ∧ bodyNesting body + 1 ≤ d
  expression : Gives (expression rounds d) (IsExpression d)
  tiered : ∀ tier, Gives (tiered rounds d tier) (IsOperand tier.level d)
  unary : Gives (unary rounds d) (IsOperand 5 d)
  postfixed : Gives (postfixed rounds d) (IsOperand 6 d)
  arguments : Gives (arguments rounds d) fun args =>
    (∀ a ∈ args, a.WellFormed ∧ a.isExpr = true) ∧ argNesting args + 1 ≤ d
  argument : Gives (argument rounds d) fun n =>
    n.WellFormed ∧ n.isExpr = true ∧ n.level + n.nesting + 1 ≤ d
  primary : Gives (primary rounds d) (IsOperand 7 d)
  /-- A variable is a bare name, or there was room for parentheses. -/
  primary_var : ∀ {ts pos name rest}, ProperTokens ts →
    Parser.primary rounds d ts = .ok (.var pos name, rest) →
    (kindOf ts = .name ∧ kindOf ts.tail ≠ symbolKind .openParen) ∨ 9 ≤ d

variable {rounds d : Nat}

theorem statement_output (ih : Outputs rounds d) :
    Gives (statement rounds (d + 1)) (IsStatement (d + 1)) := by
  refine gives_nextKind.bind fun first _ => gives_secondKind.bind fun second _ => ?_
  split
  · exact ih.assignment.mono fun _ h => h.isStatement
  · exact ih.fnDecl.mono fun _ h => h.isStatement
  · exact ih.whileLoop.mono fun _ h => h.isStatement
  · exact ih.forLoop.mono fun _ h => h.isStatement
  · exact ih.cond.mono fun _ h => h.1.isStatement
  · exact ih.ret.mono fun _ h => h.isStatement
  · exact gives_stop _
  · exact ih.expression.mono fun _ h => h.isStatement

theorem assignment_output (ih : Outputs rounds d) :
    Gives (assignment rounds (d + 1)) (IsCommand (d + 1)) := by
  refine gives_nextPos.bind fun pos _ => (gives_expectName _).bind fun name hname => ?_
  refine (gives_expect _).bind fun _ _ => ih.statement.bind fun value hv => gives_pure ?_
  obtain ⟨hw, hn⟩ := hv
  refine ⟨.intro hname fun m hm => ?_, rfl, Nat.succ_le_succ hn⟩
  exact List.mem_singleton.mp hm ▸ hw

theorem fnDecl_output (ih : Outputs rounds d) :
    Gives (fnDecl rounds (d + 1)) (IsCommand (d + 1)) := by
  refine gives_nextPos.bind fun pos _ => (gives_expect _).bind fun _ _ => ?_
  refine (gives_expectName _).bind fun name hname => (gives_expect _).bind fun _ _ => ?_
  refine (gives_listOf (gives_expectName _) _).bind fun params hparams => ?_
  refine (gives_expect _).bind fun _ _ => ih.block.bind fun body hb => gives_pure ?_
  exact ⟨.intro ⟨hname, hparams⟩ hb.1, rfl, Nat.succ_le_succ hb.2⟩

theorem whileLoop_output (ih : Outputs rounds d) :
    Gives (whileLoop rounds (d + 1)) (IsCommand (d + 1)) := by
  refine gives_nextPos.bind fun pos _ => (gives_expect _).bind fun _ _ => ?_
  refine ih.expression.bind fun test ht => ih.block.bind fun body hb => gives_pure ?_
  obtain ⟨hw, he, hn⟩ := ht
  refine ⟨.intro he fun m hm => ?_, rfl, Nat.succ_le_succ (Nat.max_le.mpr ⟨hn, hb.2⟩)⟩
  rcases List.mem_cons.mp hm with rfl | hm
  · exact hw
  · exact hb.1 m hm

theorem forLoop_output (ih : Outputs rounds d) :
    Gives (forLoop rounds (d + 1)) (IsCommand (d + 1)) := by
  refine gives_nextPos.bind fun pos _ => (gives_expect _).bind fun _ _ => ?_
  refine (gives_expectName _).bind fun name hname => (gives_expect _).bind fun _ _ => ?_
  refine (gives_expect _).bind fun _ _ => ih.expression.bind fun low hl => ?_
  refine (gives_expect _).bind fun _ _ => ih.expression.bind fun high hh => ?_
  refine (gives_expect _).bind fun _ _ => ih.block.bind fun body hb => gives_pure ?_
  obtain ⟨hlw, hle, hln⟩ := hl
  obtain ⟨hhw, hhe, hhn⟩ := hh
  have hn := Nat.max_le.mpr ⟨hln, Nat.max_le.mpr ⟨hhn, hb.2⟩⟩
  refine ⟨.intro ⟨hname, hle, hhe⟩ fun m hm => ?_, rfl, Nat.succ_le_succ hn⟩
  rcases List.mem_cons.mp hm with rfl | hm
  · exact hlw
  rcases List.mem_cons.mp hm with rfl | hm
  · exact hhw
  · exact hb.1 m hm

theorem ret_output (ih : Outputs rounds d) :
    Gives (ret rounds (d + 1)) (IsCommand (d + 1)) := by
  refine gives_nextPos.bind fun pos _ => (gives_expect _).bind fun _ _ => ?_
  refine ih.expression.bind fun value hv => gives_pure ?_
  obtain ⟨hw, he, hn⟩ := hv
  refine ⟨.intro he fun m hm => ?_, rfl, Nat.succ_le_succ hn⟩
  exact List.mem_singleton.mp hm ▸ hw

theorem cond_output (ih : Outputs rounds d) : Gives (cond rounds (d + 1)) fun n =>
    IsCommand (d + 1) n ∧ ∃ pos test thenBody elseBody, n = .cond pos test thenBody elseBody := by
  refine gives_nextPos.bind fun pos _ => (gives_expect _).bind fun _ _ => ?_
  refine ih.expression.bind fun test ht => ih.block.bind fun thenBody hb => ?_
  obtain ⟨hw, he, hn⟩ := ht
  have build {elseBody : Option (List Node)} (hew : ∀ n ∈ elseBody.getD [], n.WellFormed)
      (hen : elseNesting elseBody ≤ d) : Gives (pure (.cond pos test thenBody elseBody)) fun n =>
        IsCommand (d + 1) n ∧
          ∃ pos test thenBody elseBody, n = .cond pos test thenBody elseBody := by
    have hmax := Nat.max_le.mpr ⟨hn, Nat.max_le.mpr ⟨hb.2, hen⟩⟩
    refine gives_pure ⟨⟨.intro he fun m hm => ?_, rfl, Nat.succ_le_succ hmax⟩, _, _, _, _, rfl⟩
    rcases List.mem_cons.mp hm with rfl | hm
    · exact hw
    rcases List.mem_append.mp hm with hm | hm
    · exact hb.1 m hm
    · exact hew m hm
  refine gives_get.bind fun ts _ => ?_
  split
  · refine gives_skipNewlines.bind fun _ _ => gives_advance.bind fun _ _ => ?_
    refine gives_nextKind.bind fun k _ => ?_
    split
    · refine ih.cond.bind fun n h => ?_
      obtain ⟨⟨hcw, _, hcn⟩, _, _, _, _, rfl⟩ := h
      exact build (fun m hm => List.mem_singleton.mp hm ▸ hcw) hcn
    · exact ih.block.bind fun body h => build h.1 (Nat.le_trans (elseNesting_le body) h.2)
  · exact build (fun m hm => absurd hm List.not_mem_nil) (Nat.zero_le d)

theorem block_output (ih : Outputs rounds d) : Gives (block rounds (d + 1)) fun body =>
    (∀ n ∈ body, n.WellFormed) ∧ bodyNesting body + 1 ≤ d + 1 := by
  refine (gives_expect _).bind fun _ _ => gives_skipNewlines.bind fun _ _ => ?_
  refine (gives_statementsOf ih.statement _ [] fun _ h => absurd h List.not_mem_nil).mono ?_
  intro body h
  exact ⟨fun n hn => (h n hn).1, Nat.succ_le_succ (bodyNesting_le fun n hn => (h n hn).2)⟩

theorem expression_output (ih : Outputs rounds d) :
    Gives (expression rounds (d + 1)) (IsExpression (d + 1)) :=
  (ih.tiered .equality).mono fun _ h => .of_operand h

theorem tiered_output (ih : Outputs rounds d) (tier : Tier) :
    Gives (tiered rounds (d + 1) tier) (IsOperand tier.level (d + 1)) := by
  have bound : tier.level < 7 := by cases tier <;> decide
  have rule {operand : Parser Node} (ho : Gives operand (IsOperand (tier.level + 1) d)) :
      Gives (do let first ← operand; operatorsOf tier.operator? operand rounds first)
        (IsOperand tier.level (d + 1)) := by
    refine ho.bind fun first hf => ?_
    refine gives_operatorsOf ho ?_ _ first (hf.looser bound)
    intro kind op left right hop hl hr
    obtain ⟨hlw, hle, hln⟩ := hl
    obtain ⟨hrw, hre, hrn⟩ := hr
    obtain ⟨hknown, hlevel⟩ := Tier.operator?_known hop
    refine ⟨.intro ⟨hknown, hle, hre⟩ fun m hm => ?_, rfl, ?_⟩
    · rcases List.mem_cons.mp hm with rfl | hm
      · exact hlw
      · exact List.mem_singleton.mp hm ▸ hrw
    · rw [nestingAt, level, hlevel, budgetAt, if_neg (Nat.lt_irrefl _), Nat.sub_self, Nat.zero_add,
        nesting, hlevel]
      exact Nat.max_le.mpr ⟨hln, Nat.succ_le_succ hrn⟩
  cases tier with
  | equality => exact rule (ih.tiered .comparison)
  | comparison => exact rule (ih.tiered .sum)
  | sum => exact rule (ih.tiered .product)
  | product => exact rule ih.unary

theorem unary_output (ih : Outputs rounds d) :
    Gives (unary rounds (d + 1)) (IsOperand 5 (d + 1)) := by
  refine gives_nextKind.bind fun k _ => ?_
  split
  · next op hop =>
    refine gives_nextPos.bind fun pos _ => gives_advance.bind fun _ _ => ?_
    refine ih.unary.bind fun operand ho => gives_pure ?_
    obtain ⟨hw, he, hn⟩ := ho
    refine ⟨.intro ⟨sign?_known hop, he⟩ fun m hm => List.mem_singleton.mp hm ▸ hw, rfl, ?_⟩
    simpa [nestingAt, budgetAt, level, nesting] using hn
  · exact ih.postfixed.mono fun _ h => h.looser (by decide)

/-- Within the budget at level 6, and where a method may not follow it bare, within that of its
parentheses. -/
def IsReceiver (d : Nat) (bare : Bool) (n : Node) : Prop :=
  IsOperand 6 d n ∧ (bare = false → receiverBudget n n.nesting ≤ d)

theorem receiverBudget_of_ne_var {n : Node} (h : ∀ pos name, n ≠ .var pos name) :
    receiverBudget n n.nesting = n.nestingAt 6 := by
  cases n <;> first | rfl | exact absurd rfl (h _ _)

theorem methodOn_output {bare : Bool} {receiver : Node} {method : String} {args : List Node}
    (hr : IsReceiver (d + 1) bare receiver) (hm : IsName method)
    (ha : (∀ a ∈ args, a.WellFormed ∧ a.isExpr = true) ∧ argNesting args + 1 ≤ d) :
    IsReceiver (d + 1) false (methodOn bare receiver method args) := by
  obtain ⟨⟨hw, he, hn⟩, hb⟩ := hr
  have hargs := Nat.succ_le_succ ha.2
  unfold methodOn
  split
  · next pos name =>
    have hfit : (Node.methodCall pos name method args).nestingAt 6 ≤ d + 1 := by
      simpa [nestingAt, budgetAt, level, nesting] using hargs
    have hproper : (Node.methodCall pos name method args).Proper :=
      ⟨hw.proper, hm, fun a h => (ha.1 a h).2⟩
    exact ⟨⟨.intro hproper fun a h => (ha.1 a h).1, rfl, hfit⟩, fun _ => hfit⟩
  · next hnv =>
    have hroom : receiverBudget receiver receiver.nesting ≤ d + 1 := by
      cases bare with
      | false => exact hb rfl
      | true =>
        rw [receiverBudget_of_ne_var fun pos name h => hnv pos name rfl h]
        exact hn
    have hfit : (Node.exprMethodCall receiver.pos receiver method args).nestingAt 6 ≤ d + 1 := by
      simpa [nestingAt, budgetAt, level, nesting] using Nat.max_le.mpr ⟨hroom, hargs⟩
    refine ⟨⟨.intro ⟨he, hm, fun a h => (ha.1 a h).2⟩ fun m h => ?_, rfl, hfit⟩, fun _ => hfit⟩
    rcases List.mem_cons.mp h with rfl | h
    · exact hw
    · exact (ha.1 m h).1

theorem postfixed_output (ih : Outputs rounds d) :
    Gives (postfixed rounds (d + 1)) (IsOperand 6 (d + 1)) := by
  intro ts n rest ht h
  obtain ⟨_, _, ⟨⟩, h⟩ := bind_ok.mp h
  obtain ⟨_, _, ⟨⟩, h⟩ := bind_ok.mp h
  obtain ⟨receiver, mid, hp, h⟩ := bind_ok.mp h
  obtain ⟨hr, hmid⟩ := ih.primary ht hp
  have start : IsReceiver (d + 1) (kindOf ts = .name && kindOf ts.tail != symbolKind .openParen)
      receiver := by
    have hloose : IsOperand 6 (d + 1) receiver := hr.looser (by decide)
    refine ⟨hloose, fun hbare => ?_⟩
    cases receiver with
    | var pos name =>
      rcases ih.primary_var ht hp with ⟨hk, hs⟩ | hd
      · simp [hk, hs] at hbare
      · simp only [receiverBudget, nesting]
        omega
    | _ => exact hloose.2.2
  have hloop := gives_methodsOf ih.arguments (P := IsReceiver (d + 1))
    (fun bare receiver method args hr hm ha => methodOn_output hr hm ha) rounds _ _ start
  obtain ⟨⟨_, hrec⟩, hrest⟩ := hloop hmid h
  exact ⟨hrec.1, hrest⟩

theorem arguments_output (ih : Outputs rounds d) : Gives (arguments rounds (d + 1)) fun args =>
    (∀ a ∈ args, a.WellFormed ∧ a.isExpr = true) ∧ argNesting args + 1 ≤ d + 1 := by
  refine (gives_listOf ih.argument _).mono fun args h => ⟨fun a ha => ?_, Nat.succ_le_succ ?_⟩
  · exact ⟨(h a ha).1, (h a ha).2.1⟩
  · exact argNesting_le fun a ha => (h a ha).2.2

theorem argument_output (ih : Outputs rounds d) : Gives (argument rounds (d + 1)) fun n =>
    n.WellFormed ∧ n.isExpr = true ∧ n.level + n.nesting + 1 ≤ d + 1 := by
  refine gives_nextKind.bind fun k _ => ?_
  split
  · exact gives_stop _
  · exact ih.expression.mono fun n h => ⟨h.1, h.2.1, Nat.succ_le_succ h.2.2⟩

/-- A leaf needs one rule only. -/
theorem isOperand_leaf {n : Node} (hw : n.WellFormed) (he : n.isExpr = true) (hl : n.level = 7)
    (hn : n.nesting = 1) : IsOperand 7 (d + 1) n := by
  refine ⟨hw, he, ?_⟩
  simp [nestingAt, budgetAt, hl, hn]

theorem wellFormed_leaf {n : Node} (hp : n.Proper) (hc : n.children = []) : n.WellFormed :=
  .intro hp fun _ hm => absurd (hc ▸ hm) List.not_mem_nil

theorem primary_output (ih : Outputs rounds d) :
    Gives (primary rounds (d + 1)) (IsOperand 7 (d + 1)) := by
  refine gives_get.bind fun ts hts => ?_
  split
  case h_8 => exact gives_stop _
  all_goals
    obtain ⟨hl, hrest⟩ := List.forall_mem_cons.mp hts
    refine (gives_set hrest).bind fun _ _ => ?_
  · exact gives_pure (isOperand_leaf (wellFormed_leaf hl rfl) rfl rfl rfl)
  · exact gives_pure (isOperand_leaf (wellFormed_leaf hl rfl) rfl rfl rfl)
  · exact gives_pure (isOperand_leaf (wellFormed_leaf hl rfl) rfl rfl rfl)
  · exact gives_pure (isOperand_leaf (wellFormed_leaf trivial rfl) rfl rfl rfl)
  · exact gives_pure (isOperand_leaf (wellFormed_leaf trivial rfl) rfl rfl rfl)
  · split
    · refine gives_advance.bind fun _ _ => ih.arguments.bind fun args ha => ?_
      refine (gives_expect _).bind fun _ _ => gives_pure ?_
      refine ⟨.intro ⟨hl, fun a h => (ha.1 a h).2⟩ fun a h => (ha.1 a h).1, rfl, ?_⟩
      simpa [nestingAt, budgetAt, level, nesting] using ha.2
    · exact gives_pure (isOperand_leaf (wellFormed_leaf hl rfl) rfl rfl rfl)
  · refine ih.expression.bind fun inner hi => (gives_expect _).bind fun _ _ => gives_pure ?_
    obtain ⟨hw, he, hn⟩ := hi
    refine ⟨hw, he, ?_⟩
    simp only [nestingAt, budgetAt]
    split <;> omega

theorem primary_var_output (ih : Outputs rounds d) {ts rest : List Token} {pos : Pos}
    {name : String} (ht : ProperTokens ts)
    (h : primary rounds (d + 1) ts = .ok (.var pos name, rest)) :
    (kindOf ts = .name ∧ kindOf ts.tail ≠ symbolKind .openParen) ∨ 9 ≤ d + 1 := by
  obtain ⟨_, _, ⟨⟩, h⟩ := bind_ok.mp h
  split at h
  case h_8 => cases h
  all_goals obtain ⟨_, _, ⟨⟩, h⟩ := bind_ok.mp h
  case h_6 =>
    split at h
    · obtain ⟨_, _, ⟨⟩, h⟩ := bind_ok.mp h
      obtain ⟨_, _, _, h⟩ := bind_ok.mp h
      obtain ⟨_, _, _, h⟩ := bind_ok.mp h
      cases h
    · next hk => exact .inl ⟨rfl, hk⟩
  case h_7 =>
    obtain ⟨inner, mid, hi, h⟩ := bind_ok.mp h
    obtain ⟨_, _, _, h⟩ := bind_ok.mp h
    cases h
    have hrest := (List.forall_mem_cons.mp ht).2
    obtain ⟨⟨_, _, hn⟩, _⟩ := ih.expression hrest hi
    simp only [level, nesting] at hn
    exact .inr (Nat.succ_le_succ hn)
  all_goals cases h

theorem outputs (rounds d : Nat) : Outputs rounds d := by
  induction d with
  | zero =>
    constructor
    case primary_var => rintro _ _ _ _ _ ⟨⟩
    case tiered => exact fun _ => gives_tooDeep
    all_goals exact gives_tooDeep
  | succ d ih =>
    exact ⟨statement_output ih, assignment_output ih, fnDecl_output ih, whileLoop_output ih,
      forLoop_output ih, cond_output ih, ret_output ih, block_output ih, expression_output ih,
      tiered_output ih, unary_output ih, postfixed_output ih, arguments_output ih,
      argument_output ih, primary_output ih, primary_var_output ih⟩

theorem program_output {limit : Nat} {ts : List Token} {body : List Node} (ht : ProperTokens ts)
    (h : program limit ts = .ok body) :
    (∀ n ∈ body, n.WellFormed) ∧ bodyNesting body ≤ limit := by
  change Prod.fst <$> programFrom (statement (ts.length + 1) limit) (ts.length + 1) [] ts = _ at h
  cases hp : programFrom (statement (ts.length + 1) limit) (ts.length + 1) [] ts with
  | error s => rw [hp] at h; cases h
  | ok result =>
    obtain ⟨ns, rest⟩ := result
    rw [hp] at h
    cases h
    have hs := (outputs (ts.length + 1) limit).statement
    obtain ⟨hn, _⟩ := gives_programFrom hs _ [] (fun _ h => absurd h List.not_mem_nil) ht hp
    exact ⟨fun n hm => (hn n hm).1, bodyNesting_le fun n hm => (hn n hm).2⟩

end ExScript.Parser
