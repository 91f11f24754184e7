import ExScript.Proofs.ParserSteps

/-!
# A larger budget

With a larger budget the parser does the same, except that a report of too deep nesting may turn
into something else (`program_agrees`).  `Agrees p q` says so of two parsers; it holds of the rules
at successive budgets by induction on the smaller one.
-/

namespace ExScript.Parser

variable {α β : Type}

/-- Somewhere the tokens were found to be nested too deeply. -/
def TooDeep (r : Except Stop α) : Prop := ∃ rest, r = .error ⟨.tooDeep, rest⟩

/-- The second parser does what the first one does unless that reports too deep nesting. -/
def Agrees (p q : Parser α) : Prop := ∀ ts, TooDeep (p ts) ∨ p ts = q ts

theorem agrees_refl (p : Parser α) : Agrees p p := fun _ => .inr rfl

theorem agrees_tooDeep (q : Parser α) : Agrees tooDeep q := fun ts => .inl ⟨ts, rfl⟩

theorem Agrees.bind {p q : Parser α} {f g : α → Parser β} (h : Agrees p q)
    (hf : ∀ a, Agrees (f a) (g a)) : Agrees (p >>= f) (q >>= g) := by
  intro ts
  rcases h ts with ⟨rest, ht⟩ | ht
  · exact .inl ⟨rest, bind_of_error ht f⟩
  · cases hp : p ts with
    | error s =>
      have hq : q ts = .error s := ht.symm.trans hp
      exact .inr ((bind_of_error hp f).trans (bind_of_error hq g).symm)
    | ok x =>
      have hq : q ts = .ok (x.1, x.2) := ht.symm.trans hp
      rw [bind_of_ok hp f, bind_of_ok hq g]
      exact hf x.1 x.2

/-- A step that does not depend on the budget. -/
theorem Agrees.after (p : Parser α) {f g : α → Parser β} (hf : ∀ a, Agrees (f a) (g a)) :
    Agrees (p >>= f) (p >>= g) :=
  (agrees_refl p).bind hf

theorem Agrees.trans {p q r : Parser α} (h : Agrees p q) (h' : Agrees q r) : Agrees p r := by
  intro ts
  rcases h ts with ht | ht
  · exact .inl ht
  · rw [ht]
    exact h' ts

/-! ## Repetitions -/

theorem agrees_commaSeparated {p q : Parser α} (h : Agrees p q) (fuel : Nat) :
    ∀ items, Agrees (commaSeparated p fuel items) (commaSeparated q fuel items) := by
  induction fuel with
  | zero => exact fun items => agrees_refl _
  | succ fuel ih =>
    intro items
    refine .after _ fun k => ?_
    split
    · exact .after _ fun _ => h.bind fun a => ih _
    · exact agrees_refl _

theorem agrees_listOf {p q : Parser α} (h : Agrees p q) (rounds : Nat) :
    Agrees (listOf rounds p) (listOf rounds q) := by
  refine .after _ fun k => ?_
  split
  · exact agrees_refl _
  · exact h.bind fun a => agrees_commaSeparated h _ _

theorem agrees_statementsOf {p q : Parser Node} (h : Agrees p q) (fuel : Nat) :
    ∀ items, Agrees (statementsOf p fuel items) (statementsOf q fuel items) := by
  induction fuel with
  | zero => exact fun items => agrees_refl _
  | succ fuel ih =>
    intro items
    refine .after _ fun k => ?_
    split
    · exact agrees_refl _
    · exact agrees_refl _
    · exact h.bind fun n => .after _ fun _ => ih _

theorem agrees_operatorsOf (operator? : Kind → Option BinaryOp) {p q : Parser Node}
    (h : Agrees p q) (fuel : Nat) :
    ∀ left, Agrees (operatorsOf operator? p fuel left) (operatorsOf operator? q fuel left) := by
  induction fuel with
  | zero => exact fun left => agrees_refl _
  | succ fuel ih =>
    intro left
    refine .after _ fun k => ?_
    split
    · exact .after _ fun _ => h.bind fun right => ih _
    · exact agrees_refl _

theorem agrees_methodsOf {p q : Parser (List Node)} (h : Agrees p q) (fuel : Nat) :
    ∀ bare receiver, Agrees (methodsOf p fuel bare receiver) (methodsOf q fuel bare receiver) := by
  induction fuel with
  | zero => exact fun bare receiver => agrees_refl _
  | succ fuel ih =>
    intro bare receiver
    refine .after _ fun k => ?_
    split
    · refine .after _ fun _ => .after _ fun method => .after _ fun _ => h.bind fun args => ?_
      exact .after _ fun _ => ih _ _
    · exact agrees_refl _

theorem agrees_programFrom {p q : Parser Node} (h : Agrees p q) (fuel : Nat) :
    ∀ items, Agrees (programFrom p fuel items) (programFrom q fuel items) := by
  induction fuel with
  | zero => exact fun items => agrees_refl _
  | succ fuel ih =>
    intro items
    refine .after _ fun _ => .after _ fun k => ?_
    split
    · exact agrees_refl _
    · exact h.bind fun n => ih _

/-! ## Rules -/

/-- The rules at a budget agree with those at the next one. -/
structure AgreesNext (rounds d : Nat) : Prop where
  statement : Agrees (statement rounds d) (statement rounds (d + 1))
  assignment : Agrees (assignment rounds d) (assignment rounds (d + 1))
  fnDecl : Agrees (fnDecl rounds d) (fnDecl rounds (d + 1))
  whileLoop : Agrees (whileLoop rounds d) (whileLoop rounds (d + 1))
  forLoop : Agrees (forLoop rounds d) (forLoop rounds (d + 1))
  cond : Agrees (cond rounds d) (cond rounds (d + 1))
  ret : Agrees (ret rounds d) (ret rounds (d + 1))
  block : Agrees (block rounds d) (block rounds (d + 1))
  expression : Agrees (expression rounds d) (expression rounds (d + 1))
  tiered : ∀ tier, Agrees (tiered rounds d tier) (tiered rounds (d + 1) tier)
  unary : Agrees (unary rounds d) (unary rounds (d + 1))
  postfixed : Agrees (postfixed rounds d) (postfixed rounds (d + 1))
  arguments : Agrees (arguments rounds d) (arguments rounds (d + 1))
  argument : Agrees (argument rounds d) (argument rounds (d + 1))
  primary : Agrees (primary rounds d) (primary rounds (d + 1))

variable {rounds d : Nat}

theorem statement_agrees (ih : AgreesNext rounds d) :
    Agrees (statement rounds (d + 1)) (statement rounds (d + 2)) := by
  refine .after _ fun first => .after _ fun second => ?_
  split
  · exact ih.assignment
  · exact ih.fnDecl
  · exact ih.whileLoop
  · exact ih.forLoop
  · exact ih.cond
  · exact ih.ret
  · exact agrees_refl _
  · exact ih.expression

theorem cond_agrees (ih : AgreesNext rounds d) :
    Agrees (cond rounds (d + 1)) (cond rounds (d + 2)) := by
  refine .after _ fun pos => .after _ fun _ => ih.expression.bind fun test => ?_
  refine ih.block.bind fun thenBody => .after _ fun ts => ?_
  split
  · refine .after _ fun _ => .after _ fun _ => .after _ fun k => ?_
    split
    · exact ih.cond.bind fun n => agrees_refl _
    · exact ih.block.bind fun body => agrees_refl _
  · exact agrees_refl _

theorem tiered_agrees (ih : AgreesNext rounds d) (tier : Tier) :
    Agrees (tiered rounds (d + 1) tier) (tiered rounds (d + 2) tier) := by
  cases tier with
  | equality => exact (ih.tiered _).bind fun n => agrees_operatorsOf _ (ih.tiered _) _ n
  | comparison => exact (ih.tiered _).bind fun n => agrees_operatorsOf _ (ih.tiered _) _ n
  | sum => exact (ih.tiered _).bind fun n => agrees_operatorsOf _ (ih.tiered _) _ n
  | product => exact ih.unary.bind fun n => agrees_operatorsOf _ ih.unary _ n

theorem unary_agrees (ih : AgreesNext rounds d) :
    Agrees (unary rounds (d + 1)) (unary rounds (d + 2)) := by
  refine .after _ fun k => ?_
  split
  · exact .after _ fun pos => .after _ fun _ => ih.unary.bind fun n => agrees_refl _
  · exact ih.postfixed

theorem postfixed_agrees (ih : AgreesNext rounds d) :
    Agrees (postfixed rounds (d + 1)) (postfixed rounds (d + 2)) := by
  refine .after _ fun first => .after _ fun second => ih.primary.bind fun receiver => ?_
  exact agrees_methodsOf ih.arguments _ _ _

theorem argument_agrees (ih : AgreesNext rounds d) :
    Agrees (argument rounds (d + 1)) (argument rounds (d + 2)) := by
  refine .after _ fun k => ?_
  split
  · exact agrees_refl _
  · exact ih.expression

theorem primary_agrees (ih : AgreesNext rounds d) :
    Agrees (primary rounds (d + 1)) (primary rounds (d + 2)) := by
  refine .after _ fun ts => ?_
  split
  case h_6 =>
    refine .after _ fun _ => ?_
    split
    · exact .after _ fun _ => ih.arguments.bind fun args => agrees_refl _
    · exact agrees_refl _
  case h_7 => exact .after _ fun _ => ih.expression.bind fun inner => agrees_refl _
  all_goals exact agrees_refl _

theorem agreesNext (rounds d : Nat) : AgreesNext rounds d := by
  induction d with
  | zero =>
    constructor
    case tiered => exact fun _ => agrees_tooDeep _
    all_goals exact agrees_tooDeep _
  | succ d ih =>
    constructor
    case statement => exact statement_agrees ih
    case assignment =>
      refine .after _ fun pos => .after _ fun name => .after _ fun _ => ?_
      exact ih.statement.bind fun value => agrees_refl _
    case fnDecl =>
      refine .after _ fun pos => .after _ fun _ => .after _ fun name => .after _ fun _ => ?_
      refine .after _ fun params => .after _ fun _ => ih.block.bind fun body => agrees_refl _
    case whileLoop =>
      refine .after _ fun pos => .after _ fun _ => ih.expression.bind fun test => ?_
      exact ih.block.bind fun body => agrees_refl _
    case forLoop =>
      refine .after _ fun pos => .after _ fun _ => .after _ fun name => .after _ fun _ => ?_
      refine .after _ fun _ => ih.expression.bind fun low => .after _ fun _ => ?_
      refine ih.expression.bind fun high => .after _ fun _ => ?_
      exact ih.block.bind fun body => agrees_refl _
    case cond => exact cond_agrees ih
    case ret =>
      refine .after _ fun pos => .after _ fun _ => ?_
      exact ih.expression.bind fun value => agrees_refl _
    case block =>
      refine .after _ fun _ => .after _ fun _ => ?_
      exact agrees_statementsOf ih.statement _ _
    case expression => exact ih.tiered .equality
    case tiered => exact tiered_agrees ih
    case unary => exact unary_agrees ih
    case postfixed => exact postfixed_agrees ih
    case arguments => exact agrees_listOf ih.argument _
    case argument => exact argument_agrees ih
    case primary => exact primary_agrees ih

theorem agrees_of_le {p : Nat → Parser α} (hnext : ∀ d, Agrees (p d) (p (d + 1)))
    {limit limit' : Nat} (h : limit ≤ limit') : Agrees (p limit) (p limit') := by
  induction h with
  | refl => exact agrees_refl _
  | step _ ih => exact ih.trans (hnext _)

/-- A program that is not too deep for a limit is read alike under every larger limit. -/
theorem program_agrees {limit limit' : Nat} (ts : List Token) (h : limit ≤ limit') :
    TooDeep (program limit ts) ∨ program limit ts = program limit' ts := by
  have hstmt := agrees_of_le (fun d => (agreesNext (ts.length + 1) d).statement) h
  rcases agrees_programFrom hstmt (ts.length + 1) [] ts with ⟨rest, ht⟩ | ht
  · refine .inl ⟨rest, ?_⟩
    rw [program, StateT.run', ht]
    rfl
  · refine .inr ?_
    rw [program, program, StateT.run', StateT.run', ht]

end ExScript.Parser
