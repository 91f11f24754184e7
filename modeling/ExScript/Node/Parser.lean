import ExScript.Node
import ExScript.Token

/-!
# From tokens to program trees

A parser takes the tokens that are left and returns a tree with the tokens behind it.  It stops with
a reason and the tokens left at that point, the first of which is the offending one.

The rules are recursive on a nesting budget, of which every rule takes one unit.  Every round of a
repetition takes at least one token, so that the number of all tokens is more than enough rounds.  A
token of kind `endOfInput` ends the input wherever it stands: no rule moves past it.
-/

namespace ExScript

namespace Parser

inductive Expected where
  | kind (kind : Kind)
  | statement
  | parameterName
  | methodName
  | argument
  | expression
  deriving DecidableEq, Repr

def Expected.describe : Expected → String
  | kind k => k.describe
  | statement => "statement"
  | parameterName => "parameter name"
  | methodName => "method name after '.'"
  | argument => "argument"
  | expression => "expression"

/-- Why a rule gives up: the next token does not fit, or the budget is used up. -/
inductive Reason where
  | unexpected (expected : Expected)
  | tooDeep
  deriving DecidableEq, Repr

/-- Why and in front of which tokens a rule gives up. -/
structure Stop where
  reason : Reason
  rest : List Token
  deriving DecidableEq, Repr

end Parser

abbrev Parser (α : Type) := StateT (List Token) (Except Parser.Stop) α

namespace Parser

def kindOf : List Token → Kind
  | [] => .mark .endOfInput
  | t :: _ => t.kind

def posOf : List Token → Pos
  | [] => default
  | t :: _ => t.pos

def nextKind : Parser Kind := return kindOf (← get)

def secondKind : Parser Kind := return kindOf (← get).tail

def nextPos : Parser Pos := return posOf (← get)

def stop {α : Type} (expected : Expected) : Parser α :=
  fun rest => .error ⟨.unexpected expected, rest⟩

def tooDeep {α : Type} : Parser α := fun rest => .error ⟨.tooDeep, rest⟩

/-- The end of the input stays where it is. -/
def behindNext (tokens : List Token) : List Token :=
  if kindOf tokens = .mark .endOfInput then tokens else tokens.tail

/-- Takes the next token, unless the input ends there. -/
def advance : Parser Unit := modify behindNext

def symbolKind (s : Symbol) : Kind := .mark (.symbol s)

def keywordKind (k : Keyword) : Kind := .mark (.keyword k)

/-- Only the kind is compared, not the text. -/
def expect (kind : Kind) : Parser Unit := do
  if (← nextKind) = kind then advance else stop (.kind kind)

def expectSymbol (s : Symbol) : Parser Unit := expect (symbolKind s)

def expectKeyword (k : Keyword) : Parser Unit := expect (keywordKind k)

def expectName (expected : Expected) : Parser String := do
  match ← get with
  | ⟨.name text, _⟩ :: rest => set rest; return text
  | _ => stop expected

def isNewline (t : Token) : Bool := t.kind = .mark .newline

def skipNewlines : Parser Unit := modify (List.dropWhile isNewline)

/-! ## Repetitions -/

/-- Items that follow further commas. -/
def commaSeparated {α : Type} (item : Parser α) : Nat → List α → Parser (List α)
  | 0, items => return items.reverse
  | fuel + 1, items => do
    if (← nextKind) = symbolKind .comma then
      advance
      commaSeparated item fuel ((← item) :: items)
    else return items.reverse

/-- Items separated by commas up to a closing parenthesis, which is left in place. -/
def listOf {α : Type} (rounds : Nat) (item : Parser α) : Parser (List α) := do
  if (← nextKind) = symbolKind .closeParen then return []
  else
    let first ← item
    commaSeparated item rounds [first]

/-- Statements up to a closing brace, which is taken. -/
def statementsOf (item : Parser Node) : Nat → List Node → Parser (List Node)
  | 0, _ => stop (.kind (symbolKind .closeBrace))
  | fuel + 1, items => do
    match ← nextKind with
    | .mark (.symbol .closeBrace) => advance; return items.reverse
    | .mark .endOfInput => stop (.kind (symbolKind .closeBrace))
    | _ =>
      let n ← item
      skipNewlines
      statementsOf item fuel (n :: items)

/-- Applications of operators of one tier to what stands on the left; they group to the left. -/
def operatorsOf (operator? : Kind → Option BinaryOp) (operand : Parser Node) :
    Nat → Node → Parser Node
  | 0, left => return left
  | fuel + 1, left => do
    match operator? (← nextKind) with
    | some op =>
      advance
      let right ← operand
      operatorsOf operator? operand fuel (.binary left.pos op left right)
    | none => return left

/-- The first method of a bare name is called on a variable, all others on the value before them. -/
def methodOn (bare : Bool) (receiver : Node) (method : String) (args : List Node) : Node :=
  match bare, receiver with
  | true, .var pos name => .methodCall pos name method args
  | _, _ => .exprMethodCall receiver.pos receiver method args

def methodsOf (args : Parser (List Node)) : Nat → Bool → Node → Parser Node
  | 0, _, receiver => return receiver
  | fuel + 1, bare, receiver => do
    if (← nextKind) = symbolKind .dot then
      advance
      let method ← expectName .methodName
      expectSymbol .openParen
      let given ← args
      expectSymbol .closeParen
      methodsOf args fuel false (methodOn bare receiver method given)
    else return receiver

/-! ## Tiers of binary operators -/

inductive Tier where
  | equality | comparison | sum | product
  deriving DecidableEq, Repr

namespace Tier

def tighter? : Tier → Option Tier
  | equality => some comparison
  | comparison => some sum
  | sum => some product
  | product => none

def operator? : Tier → Kind → Option BinaryOp
  | equality, .mark (.symbol .equal) => some .equal
  | equality, .mark (.symbol .notEqual) => some .notEqual
  | comparison, .mark (.symbol .greater) => some .greater
  | comparison, .mark (.symbol .atLeast) => some .atLeast
  | comparison, .mark (.symbol .less) => some .less
  | comparison, .mark (.symbol .atMost) => some .atMost
  | sum, .mark (.symbol .plus) => some .add
  | sum, .mark (.symbol .minus) => some .sub
  | product, .mark (.symbol .star) => some .mul
  | product, .mark (.symbol .slash) => some .div
  | _, _ => none

end Tier

def sign? : Kind → Option UnaryOp
  | .mark (.symbol .plus) => some .plus
  | .mark (.symbol .minus) => some .minus
  | _ => none

/-- An `else` may stand on a later line than the brace before it. -/
def elseFollows (tokens : List Token) : Bool :=
  kindOf (tokens.dropWhile isNewline) = keywordKind .elseWord

/-- The kinds that show that an argument is missing. -/
def endsArgument : Kind → Bool
  | .mark (.symbol .closeParen) | .mark (.symbol .comma)
  | .mark .newline | .mark .endOfInput => true
  | _ => false

/-! ## Rules -/

mutual

/-- Rule `statement = assignment | fn | while | for | if | return | expression`. -/
def statement (rounds : Nat) : Nat → Parser Node
  | 0 => tooDeep
  | depth + 1 => do
    match ← nextKind, ← secondKind with
    | .name, .mark (.symbol .assign) => assignment rounds depth
    | .mark (.keyword .fnWord), _ => fnDecl rounds depth
    | .mark (.keyword .whileWord), _ => whileLoop rounds depth
    | .mark (.keyword .forWord), _ => forLoop rounds depth
    | .mark (.keyword .ifWord), _ => cond rounds depth
    | .mark (.keyword .returnWord), _ => ret rounds depth
    | .mark .endOfInput, _ => stop .statement
    | _, _ => expression rounds depth

/-- Rule `assignment = name '=' statement`. -/
def assignment (rounds : Nat) : Nat → Parser Node
  | 0 => tooDeep
  | depth + 1 => do
    let pos ← nextPos
    let name ← expectName (.kind .name)
    expectSymbol .assign
    return .assign pos name (← statement rounds depth)

/-- Rule `fn = 'fn' name '(' parameters ')' block`. -/
def fnDecl (rounds : Nat) : Nat → Parser Node
  | 0 => tooDeep
  | depth + 1 => do
    let pos ← nextPos
    expectKeyword .fnWord
    let name ← expectName (.kind .name)
    expectSymbol .openParen
    let params ← listOf rounds (expectName .parameterName)
    expectSymbol .closeParen
    return .fnDecl pos name params (← block rounds depth)

/-- Rule `while = 'while' expression block`. -/
def whileLoop (rounds : Nat) : Nat → Parser Node
  | 0 => tooDeep
  | depth + 1 => do
    let pos ← nextPos
    expectKeyword .whileWord
    let test ← expression rounds depth
    return .whileLoop pos test (← block rounds depth)

/-- Rule `for = 'for' name 'in' '[' expression ',' expression ']' block`. -/
def forLoop (rounds : Nat) : Nat → Parser Node
  | 0 => tooDeep
  | depth + 1 => do
    let pos ← nextPos
    expectKeyword .forWord
    let name ← expectName (.kind .name)
    expectKeyword .inWord
    expectSymbol .openBracket
    let low ← expression rounds depth
    expectSymbol .comma
    let high ← expression rounds depth
    expectSymbol .closeBracket
    return .forLoop pos name low high (← block rounds depth)

/-- Rule `if = 'if' expression block ('else' (if | block))?`. -/
def cond (rounds : Nat) : Nat → Parser Node
  | 0 => tooDeep
  | depth + 1 => do
    let pos ← nextPos
    expectKeyword .ifWord
    let test ← expression rounds depth
    let thenBody ← block rounds depth
    if elseFollows (← get) then
      skipNewlines
      advance
      if (← nextKind) = keywordKind .ifWord then
        return .cond pos test thenBody (some [← cond rounds depth])
      else return .cond pos test thenBody (some (← block rounds depth))
    else return .cond pos test thenBody none

/-- Rule `return = 'return' expression`. -/
def ret (rounds : Nat) : Nat → Parser Node
  | 0 => tooDeep
  | depth + 1 => do
    let pos ← nextPos
    expectKeyword .returnWord
    return .ret pos (← expression rounds depth)

/-- A block in braces; its statements need no separator. -/
def block (rounds : Nat) : Nat → Parser (List Node)
  | 0 => tooDeep
  | depth + 1 => do
    expectSymbol .openBrace
    skipNewlines
    statementsOf (statement rounds depth) rounds []

/-- An expression is of the loosest tier. -/
def expression (rounds : Nat) : Nat → Parser Node
  | 0 => tooDeep
  | depth + 1 => tiered rounds depth .equality

/-- Rule `tier = tighter (operator tighter)*`. -/
def tiered (rounds : Nat) : Nat → Tier → Parser Node
  | 0, _ => tooDeep
  | depth + 1, tier => do
    let operand := match tier.tighter? with
      | some tighter => tiered rounds depth tighter
      | none => unary rounds depth
    let first ← operand
    operatorsOf tier.operator? operand rounds first

/-- Rule `unary = ('+' | '-') unary | postfix`. -/
def unary (rounds : Nat) : Nat → Parser Node
  | 0 => tooDeep
  | depth + 1 => do
    match sign? (← nextKind) with
    | some op =>
      let pos ← nextPos
      advance
      return .unary pos op (← unary rounds depth)
    | none => postfixed rounds depth

/-- Rule `postfix = primary ('.' name '(' arguments ')')*`. -/
def postfixed (rounds : Nat) : Nat → Parser Node
  | 0 => tooDeep
  | depth + 1 => do
    let bare := (← nextKind) = .name && (← secondKind) != symbolKind .openParen
    let receiver ← primary rounds depth
    methodsOf (arguments rounds depth) rounds bare receiver

/-- Rule `arguments = (argument (',' argument)*)?`. -/
def arguments (rounds : Nat) : Nat → Parser (List Node)
  | 0 => tooDeep
  | depth + 1 => listOf rounds (argument rounds depth)

/-- An argument that is missing is reported as such. -/
def argument (rounds : Nat) : Nat → Parser Node
  | 0 => tooDeep
  | depth + 1 => do
    if endsArgument (← nextKind) then stop .argument else expression rounds depth

/-- Rule `primary = literal | name ('(' arguments ')')? | '(' expression ')'`. -/
def primary (rounds : Nat) : Nat → Parser Node
  | 0 => tooDeep
  | depth + 1 => do
    match ← get with
    | ⟨.int value, pos⟩ :: rest => set rest; return .int pos value
    | ⟨.float value, pos⟩ :: rest => set rest; return .float pos value
    | ⟨.string text, pos⟩ :: rest => set rest; return .string pos text
    | ⟨.mark (.keyword .trueWord) _, pos⟩ :: rest => set rest; return .bool pos true
    | ⟨.mark (.keyword .falseWord) _, pos⟩ :: rest => set rest; return .bool pos false
    | ⟨.name name, pos⟩ :: rest =>
      set rest
      if kindOf rest = symbolKind .openParen then
        advance
        let args ← arguments rounds depth
        expectSymbol .closeParen
        return .call pos name args
      else return .var pos name
    | ⟨.mark (.symbol .openParen) _, _⟩ :: rest =>
      set rest
      let inner ← expression rounds depth
      expectSymbol .closeParen
      return inner
    | _ => stop .expression

end

/-- Statements up to the end of the input, with any number of line ends between them. -/
def programFrom (item : Parser Node) : Nat → List Node → Parser (List Node)
  | 0, items => return items.reverse
  | fuel + 1, items => do
    skipNewlines
    if (← nextKind) = .mark .endOfInput then return items.reverse
    else programFrom item fuel ((← item) :: items)

/-- All statements of the tokens, with at most `limit` rules active at a time. -/
def program (limit : Nat) (tokens : List Token) : Except Stop (List Node) :=
  let rounds := tokens.length + 1
  (programFrom (statement rounds limit) rounds []).run' tokens

def nestingLimit : Nat := 1000

end Parser

inductive ParseError where
  | unexpected (expected : Parser.Expected) (found : Kind) (pos : Pos)
  | tooDeep (pos : Pos)
  deriving DecidableEq, Repr

namespace ParseError

def foundText : Kind → String
  | .mark .endOfInput => "end of input"
  | kind => kind.describe

def pos : ParseError → Pos
  | unexpected _ _ pos => pos
  | tooDeep pos => pos

def message : ParseError → String
  | unexpected expected found pos =>
    String.join ["expected ", expected.describe, ", found ", foundText found, pos.suffix]
  | tooDeep pos => String.join ["expression nested too deeply", pos.suffix]

/-- The end of the input has the position of the last token, or is the start of an empty text. -/
def endPos (tokens : List Token) : Pos := ((tokens.getLast?).map Token.pos).getD ⟨1, 1⟩

/-- The position of the first token that is left, or of the end of all tokens. -/
def stopPos (tokens : List Token) : List Token → Pos
  | [] => endPos tokens
  | t :: _ => t.pos

def ofStop (tokens : List Token) (s : Parser.Stop) : ParseError :=
  match s.reason with
  | .unexpected expected => unexpected expected (Parser.kindOf s.rest) (stopPos tokens s.rest)
  | .tooDeep => tooDeep (stopPos tokens s.rest)

end ParseError

/-- The position of a program is that of its first token, or the start of an empty text. -/
def parseTokens (tokens : List Token) : Except ParseError Program :=
  match Parser.program Parser.nestingLimit tokens with
  | .ok body => .ok ⟨(tokens.head?.map Token.pos).getD ⟨1, 1⟩, body⟩
  | .error s => .error (ParseError.ofStop tokens s)

end ExScript
