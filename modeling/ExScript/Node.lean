import ExScript.Pos

/-!
# Program trees

One type holds expressions and statements, since a tree may be built by hand and put anything
anywhere.  `Node.isExpr` tells the two apart.  `Node.same` is equality that ignores positions, and
`Node.erase` sets all positions of a tree to the same value.
-/

namespace ExScript

inductive UnaryOp where
  | plus | minus
  /-- An operator that the language does not have. -/
  | other (text : String)
  deriving DecidableEq, Repr

namespace UnaryOp

def ofText : String → UnaryOp
  | "+" => plus
  | "-" => minus
  | text => other text

def text : UnaryOp → String
  | plus => "+"
  | minus => "-"
  | other text => text

end UnaryOp

inductive BinaryOp where
  | equal | notEqual
  | greater | atLeast | less | atMost
  | add | sub
  | mul | div
  /-- An operator that the language does not have. -/
  | other (text : String)
  deriving DecidableEq, Repr

namespace BinaryOp

def ofText : String → BinaryOp
  | "==" => equal | "!=" => notEqual
  | ">" => greater | ">=" => atLeast | "<" => less | "<=" => atMost
  | "+" => add | "-" => sub
  | "*" => mul | "/" => div
  | text => other text

def text : BinaryOp → String
  | equal => "==" | notEqual => "!="
  | greater => ">" | atLeast => ">=" | less => "<" | atMost => "<="
  | add => "+" | sub => "-"
  | mul => "*" | div => "/"
  | other text => text

end BinaryOp

inductive Node where
  | int (pos : Pos) (value : Int)
  | float (pos : Pos) (value : Float)
  | string (pos : Pos) (text : String)
  | bool (pos : Pos) (value : Bool)
  | var (pos : Pos) (name : String)
  | unary (pos : Pos) (op : UnaryOp) (operand : Node)
  | binary (pos : Pos) (op : BinaryOp) (left right : Node)
  | call (pos : Pos) (name : String) (args : List Node)
  /-- A method of a variable. -/
  | methodCall (pos : Pos) (receiver method : String) (args : List Node)
  /-- A method of the value of an expression. -/
  | exprMethodCall (pos : Pos) (receiver : Node) (method : String) (args : List Node)
  | assign (pos : Pos) (name : String) (value : Node)
  | fnDecl (pos : Pos) (name : String) (params : List String) (body : List Node)
  | ret (pos : Pos) (value : Node)
  | cond (pos : Pos) (test : Node) (thenBody : List Node) (elseBody : Option (List Node))
  | whileLoop (pos : Pos) (test : Node) (body : List Node)
  | forLoop (pos : Pos) (var : String) (low high : Node) (body : List Node)
  | block (pos : Pos) (body : List Node)
  /-- A node of a sort that the language does not have. -/
  | unknown (pos : Pos) (sort : String) (expr : Bool)
  deriving Repr

instance : Inhabited Node := ⟨.block default []⟩

namespace Node

def pos : Node → Pos
  | int p _ | float p _ | string p _ | bool p _ | var p _ | unary p _ _ | binary p _ _ _
  | call p _ _ | methodCall p _ _ _ | exprMethodCall p _ _ _ | assign p _ _ | fnDecl p _ _ _
  | ret p _ | cond p _ _ _ | whileLoop p _ _ | forLoop p _ _ _ _ | block p _ | unknown p _ _ => p

/-- An expression leaves at most one value. -/
def isExpr : Node → Bool
  | int .. | float .. | string .. | bool .. | var .. | unary .. | binary ..
  | call .. | methodCall .. | exprMethodCall .. => true
  | unknown _ _ expr => expr
  | _ => false

mutual

def erase : Node → Node
  | int _ value => int default value
  | float _ value => float default value
  | string _ text => string default text
  | bool _ value => bool default value
  | var _ name => var default name
  | unary _ op operand => unary default op operand.erase
  | binary _ op left right => binary default op left.erase right.erase
  | call _ name args => call default name (eraseAll args)
  | methodCall _ receiver method args => methodCall default receiver method (eraseAll args)
  | exprMethodCall _ receiver method args =>
    exprMethodCall default receiver.erase method (eraseAll args)
  | assign _ name value => assign default name value.erase
  | fnDecl _ name params body => fnDecl default name params (eraseAll body)
  | ret _ value => ret default value.erase
  | cond _ test thenBody elseBody =>
    cond default test.erase (eraseAll thenBody) (eraseElse elseBody)
  | whileLoop _ test body => whileLoop default test.erase (eraseAll body)
  | forLoop _ x low high body => forLoop default x low.erase high.erase (eraseAll body)
  | block _ body => block default (eraseAll body)
  | unknown _ sort expr => unknown default sort expr

def eraseAll : List Node → List Node
  | [] => []
  | n :: ns => n.erase :: eraseAll ns

def eraseElse : Option (List Node) → Option (List Node)
  | none => none
  | some ns => some (eraseAll ns)

end

mutual

def same : Node → Node → Bool
  | int _ a, int _ b => a = b
  | float _ a, float _ b => a == b
  | string _ a, string _ b => a = b
  | bool _ a, bool _ b => a = b
  | var _ a, var _ b => a = b
  | unary _ op a, unary _ op' a' => op = op' && a.same a'
  | binary _ op a b, binary _ op' a' b' => op = op' && a.same a' && b.same b'
  | call _ f args, call _ f' args' => f = f' && sameAll args args'
  | methodCall _ r m args, methodCall _ r' m' args' => r = r' && m = m' && sameAll args args'
  | exprMethodCall _ r m args, exprMethodCall _ r' m' args' =>
    r.same r' && m = m' && sameAll args args'
  | assign _ x a, assign _ x' a' => x = x' && a.same a'
  | fnDecl _ f ps body, fnDecl _ f' ps' body' => f = f' && ps = ps' && sameAll body body'
  | ret _ a, ret _ a' => a.same a'
  | cond _ c t e, cond _ c' t' e' => c.same c' && sameAll t t' && sameElse e e'
  | whileLoop _ c body, whileLoop _ c' body' => c.same c' && sameAll body body'
  | forLoop _ x a b body, forLoop _ x' a' b' body' =>
    x = x' && a.same a' && b.same b' && sameAll body body'
  | block _ body, block _ body' => sameAll body body'
  | unknown _ s e, unknown _ s' e' => s = s' && e = e'
  | _, _ => false

def sameAll : List Node → List Node → Bool
  | [], [] => true
  | a :: as, b :: bs => a.same b && sameAll as bs
  | _, _ => false

def sameElse : Option (List Node) → Option (List Node) → Bool
  | none, none => true
  | some as, some bs => sameAll as bs
  | _, _ => false

end

end Node

/-- The statements of a source text, with the position of its first token. -/
structure Program where
  pos : Pos
  body : List Node
  deriving Repr, Inhabited

namespace Program

def toNode (p : Program) : Node := .block p.pos p.body

/-- Equality that ignores positions. -/
def same (p q : Program) : Bool := Node.sameAll p.body q.body

end Program

end ExScript
