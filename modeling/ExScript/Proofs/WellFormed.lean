import ExScript.Node
import ExScript.Token.Lexer

/-!
# Well-formed program trees

`Node.children` lists the parts of a node, `Node.childInduction` is induction on them.  A tree is
well-formed if it can be spelled: its names are words, its literals have a spelling, its operators
are those of the language, an expression stands wherever one has to, and no block stands below the
root.  Every part of a well-formed tree is well-formed (`WellFormed.of_inside`).
-/

namespace ExScript

/-! ## Words and literals -/

/-- A word that is read as a name: no digit in front, and no keyword. -/
structure IsName (text : String) : Prop where
  nonempty : text.toList ≠ []
  word : ∀ c ∈ text.toList, Text.isWordChar c = true
  noDigit : ∀ c ∈ text.toList.head?, c.isDigit = false
  noKeyword : Keyword.ofText? text = none

def IsIntLiteral (value : Int) : Prop := 0 ≤ value ∧ value ≤ Lexer.maxIntLiteral

/-- A finite double whose sign bit is clear. -/
def IsFloatLiteral (value : Float) : Prop :=
  Number.isFinite value = true ∧ Number.isNegative value = false

def IsStringLiteral (text : String) : Prop := ∀ c ∈ text.toList, c ≠ '\x22' ∧ c ≠ '\n'

/-- What the lexer makes of a word, a number or a quoted text. -/
def Lexeme.Proper : Lexeme → Prop
  | .int value => IsIntLiteral value
  | .float value => IsFloatLiteral value
  | .string text => IsStringLiteral text
  | .name text => IsName text
  | .mark _ _ => True

def UnaryOp.Known : UnaryOp → Prop
  | .other _ => False
  | _ => True

def BinaryOp.Known : BinaryOp → Prop
  | .other _ => False
  | _ => True

namespace Node

/-! ## Parts of a node -/

def children : Node → List Node
  | unary _ _ operand => [operand]
  | binary _ _ left right => [left, right]
  | call _ _ args | methodCall _ _ _ args => args
  | exprMethodCall _ receiver _ args => receiver :: args
  | assign _ _ value | ret _ value => [value]
  | fnDecl _ _ _ body | block _ body => body
  | cond _ test thenBody elseBody => test :: (thenBody ++ elseBody.getD [])
  | whileLoop _ test body => test :: body
  | forLoop _ _ low high body => low :: high :: body
  | _ => []

/-- The root itself and everything below it. -/
inductive Inside (root : Node) : Node → Prop
  | root : Inside root root
  | child {n m : Node} : Inside root n → m ∈ n.children → Inside root m

theorem Inside.of_child {n m k : Node} (hm : m ∈ n.children) (hk : Inside m k) : Inside n k := by
  induction hk with
  | root => exact .child .root hm
  | child _ hc ih => exact .child ih hc

theorem Inside.root_or_below {n m : Node} (h : Inside n m) :
    m = n ∨ ∃ c ∈ n.children, Inside c m := by
  induction h with
  | root => exact .inl rfl
  | @child k m _ hm ih =>
    rcases ih with rfl | ⟨c, hc, hk⟩
    · exact .inr ⟨m, hm, .root⟩
    · exact .inr ⟨c, hc, hk.child hm⟩

theorem sizeOf_lt_of_mem_children {n m : Node} (h : m ∈ n.children) : sizeOf m < sizeOf n := by
  have hl {ns : List Node} (hm : m ∈ ns) : sizeOf m < sizeOf ns := List.sizeOf_lt_of_mem hm
  cases n with
  | cond _ _ _ elseBody => cases elseBody <;> grind [children]
  | _ => grind [children]

/-- Induction on the parts of a node. -/
theorem childInduction {P : Node → Prop} (step : ∀ n, (∀ m ∈ n.children, P m) → P n) (n : Node) :
    P n :=
  step n fun m h =>
    have := sizeOf_lt_of_mem_children h
    childInduction step m
termination_by sizeOf n

/-! ## Well-formed nodes -/

/-- What a node asks of itself and of the sort of its parts. -/
def Proper : Node → Prop
  | int _ value => IsIntLiteral value
  | float _ value => IsFloatLiteral value
  | string _ text => IsStringLiteral text
  | bool _ _ => True
  | var _ name => IsName name
  | unary _ op operand => op.Known ∧ operand.isExpr = true
  | binary _ op left right => op.Known ∧ left.isExpr = true ∧ right.isExpr = true
  | call _ name args => IsName name ∧ ∀ a ∈ args, a.isExpr = true
  | methodCall _ receiver method args =>
    IsName receiver ∧ IsName method ∧ ∀ a ∈ args, a.isExpr = true
  | exprMethodCall _ receiver method args =>
    receiver.isExpr = true ∧ IsName method ∧ ∀ a ∈ args, a.isExpr = true
  | assign _ name _ => IsName name
  | fnDecl _ name params _ => IsName name ∧ ∀ p ∈ params, IsName p
  | ret _ value => value.isExpr = true
  | cond _ test _ _ => test.isExpr = true
  | whileLoop _ test _ => test.isExpr = true
  | forLoop _ name low high _ => IsName name ∧ low.isExpr = true ∧ high.isExpr = true
  | block _ _ => False
  | unknown _ _ _ => False

inductive WellFormed : Node → Prop
  | intro {n : Node} : n.Proper → (∀ m ∈ n.children, WellFormed m) → WellFormed n

namespace WellFormed

theorem proper {n : Node} (h : n.WellFormed) : n.Proper := by
  cases h with
  | intro hp _ => exact hp

theorem child {n m : Node} (h : n.WellFormed) (hm : m ∈ n.children) : m.WellFormed := by
  cases h with
  | intro _ hc => exact hc m hm

theorem of_inside {root n : Node} (h : root.WellFormed) (hn : Inside root n) : n.WellFormed := by
  induction hn with
  | root => exact h
  | child _ hm ih => exact ih.child hm

end WellFormed

end Node

/-- A program all of whose statements are well-formed. -/
def Program.WellFormed (p : Program) : Prop := ∀ n ∈ p.body, n.WellFormed

theorem Program.WellFormed.of_inside {p : Program} {n : Node} (h : p.WellFormed)
    (hn : Node.Inside p.toNode n) : n = p.toNode ∨ n.WellFormed := by
  induction hn with
  | root => exact .inl rfl
  | child _ hm ih =>
    rcases ih with rfl | ih
    · exact .inr (h _ hm)
    · exact .inr (ih.child hm)

end ExScript
