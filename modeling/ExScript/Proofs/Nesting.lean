import ExScript.Node.Printer
import ExScript.Proofs.WellFormed

/-!
# How many rules a printed tree keeps active

The parser spends one unit of its budget on each rule that is active.  `Node.nesting` is the budget
of the rule that reads the printed text of a node, counted from the rule of the node's own level; a
rule of a looser level passes through the levels in between, and a node that binds less tightly than
its place asks for stands in parentheses (`Node.nestingAt`).
-/

namespace ExScript

def BinaryOp.level : BinaryOp → Nat
  | .equal | .notEqual => 1
  | .greater | .atLeast | .less | .atMost => 2
  | .add | .sub => 3
  | .mul | .div => 4
  | .other _ => 0

namespace Node

/-- The level of the rule that reads a node: four tiers of operators, signs, methods, the rest. -/
def level : Node → Nat
  | binary _ op _ _ => op.level
  | unary .. => 5
  | methodCall .. | exprMethodCall .. => 6
  | _ => 7

theorem one_le_level {n : Node} (h : n.WellFormed) : 1 ≤ n.level := by
  cases n with
  | binary _ op left right =>
    have hop := h.proper.1
    cases op <;> first | exact hop.elim | simp [level, BinaryOp.level]
  | _ => simp [level]

/-- The budget of the rule of level `outer`: from there down to the level of the node, or through a
pair of parentheses and all levels of the expression in it. -/
def budgetAt (outer level nesting : Nat) : Nat :=
  if level < outer then 8 - outer + (level + nesting) else level - outer + nesting

/-- The budget of a statement, which may be an expression. -/
def statementBudget (n : Node) (nesting : Nat) : Nat :=
  if n.isExpr then n.level + nesting + 1 else nesting + 1

/-- A bare name before a method stands in parentheses. -/
def receiverBudget (receiver : Node) (nesting : Nat) : Nat :=
  match receiver with
  | var .. => 2 + (7 + nesting)
  | n => budgetAt 6 n.level nesting

mutual

def nesting : Node → Nat
  | unary _ _ operand => budgetAt 5 operand.level operand.nesting + 1
  | binary _ op left right =>
    max (budgetAt op.level left.level left.nesting)
      (budgetAt (op.level + 1) right.level right.nesting + 1)
  | call _ _ args | methodCall _ _ _ args => argNesting args + 2
  | exprMethodCall _ receiver _ args =>
    max (receiverBudget receiver receiver.nesting) (argNesting args + 2)
  | assign _ _ value => statementBudget value value.nesting + 1
  | fnDecl _ _ _ body => bodyNesting body + 2
  | ret _ value => value.level + value.nesting + 1
  | cond _ test thenBody elseBody =>
    max (test.level + test.nesting) (max (bodyNesting thenBody + 1) (elseNesting elseBody)) + 1
  | whileLoop _ test body => max (test.level + test.nesting) (bodyNesting body + 1) + 1
  | forLoop _ _ low high body =>
    max (low.level + low.nesting) (max (high.level + high.nesting) (bodyNesting body + 1)) + 1
  | block _ body => bodyNesting body + 1
  | _ => 1

/-- The budget of the deepest of some arguments. -/
def argNesting : List Node → Nat
  | [] => 0
  | arg :: rest => max (arg.level + arg.nesting + 1) (argNesting rest)

/-- The budget of the deepest of some statements. -/
def bodyNesting : List Node → Nat
  | [] => 0
  | n :: rest => max (statementBudget n n.nesting) (bodyNesting rest)

/-- An `if` that stands alone in an `else` needs neither a block nor a statement of its own. -/
def elseNesting : Option (List Node) → Nat
  | none => 0
  | some [cond _ test thenBody elseBody] =>
    max (test.level + test.nesting) (max (bodyNesting thenBody + 1) (elseNesting elseBody)) + 1
  | some body => bodyNesting body + 1

end

/-- The budget at which the printed text of a node is read at a place of level `outer`. -/
def nestingAt (outer : Nat) (n : Node) : Nat := budgetAt outer n.level n.nesting

def statementNesting (n : Node) : Nat := statementBudget n n.nesting

theorem nesting_pos (n : Node) : 0 < n.nesting := by
  cases n with
  | binary | exprMethodCall =>
    rw [nesting]
    exact Nat.lt_of_lt_of_le (Nat.succ_pos _) (Nat.le_max_right _ (_ + 1))
  | _ => simp [nesting]

theorem elseNesting_le (body : List Node) : elseNesting (some body) ≤ bodyNesting body + 1 := by
  rw [elseNesting.eq_def]
  split
  · exact Nat.zero_le _
  · next heq =>
    cases heq
    simp only [bodyNesting, statementBudget, nesting, isExpr]
    simp
  · next heq =>
    cases heq
    exact Nat.le_refl _

theorem elseNesting_cond (pos : Pos) (test : Node) (thenBody : List Node)
    (elseBody : Option (List Node)) :
    elseNesting (some [cond pos test thenBody elseBody]) =
      (cond pos test thenBody elseBody).nesting := by
  rw [elseNesting, nesting]

theorem elseNesting_block {body : List Node}
    (h : ∀ pos test thenBody elseBody, body ≠ [cond pos test thenBody elseBody]) :
    elseNesting (some body) = bodyNesting body + 1 := by
  rw [elseNesting.eq_def]
  split
  · next heq => cases heq
  · next heq => exact absurd (Option.some.inj heq) (h _ _ _ _)
  · next heq => cases heq; rfl

end Node

def Program.nesting (p : Program) : Nat := Node.bodyNesting p.body

end ExScript
