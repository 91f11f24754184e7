import ExScript.Node
import ExScript.Number.FloatText

/-!
# From program trees to normalised text

Every statement takes lines of its own, bodies are indented by one level, and parentheses stand only
where the grouping needs them.  Reading the text gives the tree back.

Trees that no text stands for are refused: a literal without spelling, an operator or a sort of node
that the language does not have, a statement where an expression has to stand, and an assignment of
something that has no line.  The rules call each other as deeply as the tree goes, and the stack of
the host may be too small for that.
-/

namespace ExScript

inductive PrintError where
  | floatLiteral (value : Float)
  | stringLiteral (text : String)
  | operator (text : String)
  | valueWithoutLine
  | unknownStatement
  | unknownExpression
  /-- The stack of the host is used up. -/
  | tooDeep
  deriving DecidableEq, Repr

def PrintError.message : PrintError → String
  | floatLiteral value => String.join ["float literal cannot be ", Number.specialText value]
  | stringLiteral _ => "string literal cannot contain quotes or newlines"
  | operator text => String.join ["unknown binary operator: ", text]
  | valueWithoutLine => "list index out of range"
  | unknownStatement => "unhandled stmt type"
  | unknownExpression => "unhandled expr type"
  | tooDeep => "maximum recursion depth exceeded"

/-- What a rule of the printer returns depends on how many rules may still become active on top of
it, if that is limited at all. -/
abbrev Printing := ReaderT (Option Nat) (Except PrintError)

namespace Printer

/-- A rule that is called by another one. -/
def nested {α : Type} (rule : Printing α) : Printing α := fun limit =>
  match limit with
  | none => rule none
  | some 0 => .error .tooDeep
  | some (more + 1) => rule (some more)

/-! ## Precedence -/

/-- Equality binds least, then comparison, sum and product. -/
def operatorLevel : BinaryOp → Except PrintError Nat
  | .equal | .notEqual => .ok 1
  | .greater | .atLeast | .less | .atMost => .ok 2
  | .add | .sub => .ok 3
  | .mul | .div => .ok 4
  | .other text => .error (.operator text)

def lowestLevel : Nat := 1

def unaryLevel : Nat := 5

def methodLevel : Nat := 6

def primaryLevel : Nat := 7

def level : Node → Except PrintError Nat
  | .binary _ op _ _ => operatorLevel op
  | .unary .. => .ok unaryLevel
  | .methodCall .. | .exprMethodCall .. => .ok methodLevel
  | _ => .ok primaryLevel

/-- Binary operators group to the left, so a right operand of the same level needs parentheses. -/
def needsParens (own outer : Nat) (onRight : Bool) : Bool :=
  own < outer || (own = outer && onRight && own < unaryLevel)

/-- The text of an expression at a place where at least the level `outer` is wanted. -/
def enclose (n : Node) (outer : Nat) (onRight : Bool) (text : Printing String) : Printing String :=
  nested do
    let own ← nested (level n)
    let inner ← nested text
    return if needsParens own outer onRight then "(" ++ inner ++ ")" else inner

/-- A bare name before a method would be read as a variable, so it gets parentheses. -/
def receiverText (receiver : Node) (text : Printing String) : Printing String :=
  match receiver with
  | .var _ name => return "(" ++ name ++ ")"
  | n => enclose n methodLevel false text

/-! ## Expressions -/

def floatText (value : Float) : Except PrintError String :=
  match Number.literalText? value with
  | some text => .ok text
  | none => .error (.floatLiteral value)

def stringText (text : String) : Except PrintError String :=
  if text.toList.any fun c => c = '\x22' || c = '\n' then .error (.stringLiteral text)
  else .ok ("\"" ++ text ++ "\"")

def callText (name : String) (args : List String) : String :=
  name ++ "(" ++ String.intercalate ", " args ++ ")"

mutual

def exprText : Node → Printing String
  | .int _ value => return toString value
  | .float _ value => nested (floatText value)
  | .string _ text => stringText text
  | .bool _ value => return if value then "true" else "false"
  | .var _ name => return name
  | .unary _ op operand => do
    return op.text ++ (← enclose operand unaryLevel true (exprText operand))
  | .binary _ op left right => do
    let own ← operatorLevel op
    let leftText ← enclose left own false (exprText left)
    let rightText ← enclose right own true (exprText right)
    return leftText ++ " " ++ op.text ++ " " ++ rightText
  | .call _ name args => return callText name (← nested (argTexts args))
  | .methodCall _ receiver method args =>
    return callText (receiver ++ "." ++ method) (← nested (argTexts args))
  | .exprMethodCall _ receiver method args => do
    let own ← receiverText receiver (exprText receiver)
    return callText (own ++ "." ++ method) (← nested (argTexts args))
  | _ => throw .unknownExpression

def argTexts : List Node → Printing (List String)
  | [] => return []
  | arg :: rest => do
    let text ← enclose arg lowestLevel false (exprText arg)
    return text :: (← argTexts rest)

end

/-- An expression that stands alone or in a header. -/
def render (n : Node) : Printing String := enclose n lowestLevel false (exprText n)

/-! ## Statements -/

structure Line where
  indent : Nat
  text : String
  deriving DecidableEq, Repr

def Line.toText (l : Line) : String := String.ofList (List.replicate (4 * l.indent) ' ') ++ l.text

/-- The value of an assignment may take several lines, of which the first one gets the name. -/
def assignTo (name : String) : List Line → Except PrintError (List Line)
  | [] => .error .valueWithoutLine
  | first :: rest => .ok (⟨first.indent, name ++ " = " ++ first.text⟩ :: rest)

def braced (indent : Nat) (header : String) (body : List Line) : List Line :=
  ⟨indent, header ++ " \x7b"⟩ :: (body ++ [⟨indent, "\x7d"⟩])

mutual

def stmtLines (indent : Nat) : Node → Printing (List Line)
  | .assign _ name value => do assignTo name (← nested (stmtLines indent value))
  | .ret _ value => return [⟨indent, "return " ++ (← render value)⟩]
  | .fnDecl _ name params body =>
    return braced indent ("fn " ++ callText name params) (← nested (bodyLines (indent + 1) body))
  | .cond _ test thenBody elseBody => nested do
    let header := "if " ++ (← render test) ++ " \x7b"
    let inner ← nested (bodyLines (indent + 1) thenBody)
    return ⟨indent, header⟩ :: (inner ++ (← elseLines indent elseBody))
  | .whileLoop _ test body => do
    let header := "while " ++ (← render test)
    return braced indent header (← nested (bodyLines (indent + 1) body))
  | .forLoop _ var low high body => do
    let lowText ← render low
    let highText ← render high
    let header := "for " ++ var ++ " in [" ++ lowText ++ ", " ++ highText ++ "]"
    return braced indent header (← nested (bodyLines (indent + 1) body))
  | .block _ body => bodyLines indent body
  | .unknown _ _ false => throw .unknownStatement
  | n => return [⟨indent, ← render n⟩]

def bodyLines (indent : Nat) : List Node → Printing (List Line)
  | [] => return []
  | n :: rest => do
    let lines ← nested (stmtLines indent n)
    return lines ++ (← bodyLines indent rest)

/-- An `if` that stands alone in an `else` is written behind it, by the rule for the first one. -/
def elseLines (indent : Nat) : Option (List Node) → Printing (List Line)
  | none => return [⟨indent, "\x7d"⟩]
  | some [.cond _ test thenBody elseBody] => do
    let header := "\x7d else if " ++ (← render test) ++ " \x7b"
    let inner ← nested (bodyLines (indent + 1) thenBody)
    return ⟨indent, header⟩ :: (inner ++ (← elseLines indent elseBody))
  | some body => return braced indent "\x7d else" (← nested (bodyLines (indent + 1) body))

end

/-- How many rules the host lets be active at a time. -/
def nestingLimit : Nat := 1000

end Printer

/-- The normalised text of a program, which is empty or ends with a line end. -/
def Program.print (p : Program) : Printing String := do
  let lines ← Printer.bodyLines 0 p.body
  let text := String.intercalate "\n" (lines.map Printer.Line.toText)
  return if text = "" then "" else text ++ "\n"

end ExScript
