import ExScript.Node
import ExScript.Token

/-!
# Trees and tokens at other positions

A map of positions moves whole trees and tokens.  What stands behind some lines of text is moved
down by as many lines.
-/

namespace ExScript

/-- The position some lines further down. -/
def Pos.down (lines : Nat) (p : Pos) : Pos := ⟨p.line + lines, p.col⟩

/-- The token at another position. -/
def Token.mapPos (f : Pos → Pos) (t : Token) : Token := ⟨t.lexeme, f t.pos⟩

namespace Node

mutual

/-- The tree at other positions. -/
def mapPos (f : Pos → Pos) : Node → Node
  | int p value => int (f p) value
  | float p value => float (f p) value
  | string p text => string (f p) text
  | bool p value => bool (f p) value
  | var p name => var (f p) name
  | unary p op operand => unary (f p) op (operand.mapPos f)
  | binary p op left right => binary (f p) op (left.mapPos f) (right.mapPos f)
  | call p name args => call (f p) name (mapPosAll f args)
  | methodCall p receiver method args => methodCall (f p) receiver method (mapPosAll f args)
  | exprMethodCall p receiver method args =>
    exprMethodCall (f p) (receiver.mapPos f) method (mapPosAll f args)
  | assign p name value => assign (f p) name (value.mapPos f)
  | fnDecl p name params body => fnDecl (f p) name params (mapPosAll f body)
  | ret p value => ret (f p) (value.mapPos f)
  | cond p test thenBody elseBody =>
    cond (f p) (test.mapPos f) (mapPosAll f thenBody) (mapPosElse f elseBody)
  | whileLoop p test body => whileLoop (f p) (test.mapPos f) (mapPosAll f body)
  | forLoop p x low high body =>
    forLoop (f p) x (low.mapPos f) (high.mapPos f) (mapPosAll f body)
  | block p body => block (f p) (mapPosAll f body)
  | unknown p sort expr => unknown (f p) sort expr

def mapPosAll (f : Pos → Pos) : List Node → List Node
  | [] => []
  | n :: ns => n.mapPos f :: mapPosAll f ns

def mapPosElse (f : Pos → Pos) : Option (List Node) → Option (List Node)
  | none => none
  | some ns => some (mapPosAll f ns)

end

theorem mapPosAll_eq_map (f : Pos → Pos) (ns : List Node) : mapPosAll f ns = ns.map (mapPos f) := by
  induction ns with
  | nil => rfl
  | cons n ns ih => rw [mapPosAll, ih, List.map_cons]

mutual

theorem mapPos_id : ∀ n : Node, n.mapPos id = n
  | .int .. | .float .. | .string .. | .bool .. | .var .. | .unknown .. => rfl
  | .unary _ _ operand => by rw [mapPos, mapPos_id operand, id]
  | .binary _ _ left right => by rw [mapPos, mapPos_id left, mapPos_id right, id]
  | .call _ _ args => by rw [mapPos, mapPosAll_id args, id]
  | .methodCall _ _ _ args => by rw [mapPos, mapPosAll_id args, id]
  | .exprMethodCall _ receiver _ args => by
    rw [mapPos, mapPos_id receiver, mapPosAll_id args, id]
  | .assign _ _ value => by rw [mapPos, mapPos_id value, id]
  | .fnDecl _ _ _ body => by rw [mapPos, mapPosAll_id body, id]
  | .ret _ value => by rw [mapPos, mapPos_id value, id]
  | .cond _ test thenBody none => by
    rw [mapPos, mapPos_id test, mapPosAll_id thenBody, id, mapPosElse]
  | .cond _ test thenBody (some elseBody) => by
    rw [mapPos, mapPos_id test, mapPosAll_id thenBody, mapPosElse, mapPosAll_id elseBody, id]
  | .whileLoop _ test body => by rw [mapPos, mapPos_id test, mapPosAll_id body, id]
  | .forLoop _ _ low high body => by
    rw [mapPos, mapPos_id low, mapPos_id high, mapPosAll_id body, id]
  | .block _ body => by rw [mapPos, mapPosAll_id body, id]

theorem mapPosAll_id : ∀ ns : List Node, mapPosAll id ns = ns
  | [] => rfl
  | n :: ns => by rw [mapPosAll, mapPos_id n, mapPosAll_id ns]

end

theorem pos_mapPos (f : Pos → Pos) (n : Node) : (n.mapPos f).pos = f n.pos := by
  cases n <;> rfl

end Node

end ExScript
