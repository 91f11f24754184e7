import ExScript.Session

/-!
# Evaluation without a channel

The same language in direct style.  An expression gives a value or none, and a statement gives the
values that it leaves, the earliest first.  Nothing lies about for others to take: whoever wants the
value of a part asks that part for it, and a part that has none to give ends the run
(`Halt.missing`).

Scopes, functions, streams, the order of the checks and the limits are those of the evaluation with
a channel.
-/

namespace ExScript

/-- What a run works on, apart from the values that nodes hand to each other. -/
structure World where
  scopes : Scopes
  functions : Table UserFunction
  depth : Nat
  streams : Streams
  log : List LogRecord

def World.machine (w : World) (channel : List Value) : Machine :=
  ⟨w.scopes, channel, w.functions, w.depth, w.streams, w.log⟩

inductive Halt where
  | abort (abort : Abort)
  | returned (value : Value)
  /-- A value was asked for and there was none. -/
  | missing (role : Role)

/-- How an evaluation stops, and the values that wait at that moment, the earliest first. -/
structure Stop where
  halt : Halt
  waiting : List Value

abbrev Direct (α : Type) := EStateM Stop World α

namespace Direct

variable {α : Type}

def stop (h : Halt) : Direct α := throw ⟨h, []⟩

def fail (cause : Cause) (pos : Option Pos) : Direct α := stop (.abort (.failed ⟨cause, pos⟩))

def crash (k : Crash) : Direct α := stop (.abort (.crashed k))

def stackExhausted : Direct α := fail .stackExhausted none

/-- Values that wait while something else is evaluated. -/
def keeping (vs : List Value) (p : Direct α) : Direct α := fun w =>
  match p w with
  | .ok a w => .ok a w
  | .error s w => .error { s with waiting := vs ++ s.waiting } w

def demand (role : Role) : Option Value → Direct Value
  | some v => return v
  | none => stop (.missing role)

/-! ## Steps -/

def log (r : LogRecord) : Direct Unit := modify fun w => { w with log := r :: w.log }

def lookup? (name : String) : Direct (Option Value) := return (← get).scopes.get? name

def bind (name : String) (v : Value) : Direct Unit :=
  modify fun w => { w with scopes := w.scopes.bind name v }

def bindAll : List String → List Value → Direct Unit
  | name :: names, v :: vs => do
    bind name v
    bindAll names vs
  | _, _ => return ()

def declare (f : UserFunction) : Direct Unit := do
  if (← get).functions.contains f.name then log (.redefining f.name)
  else log (.defining f.name f.params.length)
  modify fun w => { w with functions := w.functions.insert f.name f }

def ofOperator (r : Except OperatorFault α) (pos : Pos) : Direct α :=
  match r with
  | .ok a => return a
  | .error (.cause c) => fail c (some pos)
  | .error (.crash k) => crash k

/-- The last of the values that a node has left is taken, the others stay. -/
def assignLast (name : String) (pos : Pos) (left : List Value) : Direct (List Value) := do
  match left.getLast? with
  | some v =>
    bind name v
    return left.dropLast
  | none => fail (.nothingToAssign name) (some pos)

def boundOf (v : Value) (pos : Pos) : Direct Int :=
  match v with
  | .int n => return n
  | .float x =>
    if Number.isIntegral x then return Number.truncate x
    else fail (.notInteger v.kind) (some pos)
  | _ => fail (.notInteger v.kind) (some pos)

def callFunction (f : LibraryFunction) (name : String) (args : List Value) (pos : Pos) :
    Direct (Option Value) := do
  match f args (← get).streams with
  | .ok result streams =>
    modify fun w => { w with streams := streams }
    return result
  | .error fault streams =>
    modify fun w => { w with streams := streams }
    match fault with
    | .error e => fail (.functionFailed name e.message) (some pos)
    | .crash k => crash k

def callMethod (f : LibraryMethod) (method : String) (this : Value) (args : List Value)
    (pos : Pos) : Direct (Option Value) :=
  match f this args with
  | .ok result => return result
  | .error (.error e) => fail (.methodFailed method e.message) (some pos)
  | .error (.crash k) => crash k

/-- Runs the body of a call in a scope of its own.  What the body leaves is dropped, and the caller
finds its own scopes as they were. -/
def inFrame (body : Direct (List Value)) : Direct (Option Value) := fun w =>
  let after (w' : World) : World := { w' with scopes := w.scopes, depth := w'.depth - 1 }
  match body { w with scopes := w.scopes.push, depth := w.depth + 1 } with
  | .ok _ w' => .ok none (after w')
  | .error ⟨.returned v, _⟩ w' => .ok (some v) (after w')
  | .error s w' => .error s (after w')

/-! ## Repetition -/

/-- A node that stands where a statement may stand. -/
def nodeBy (expr : Node → Direct (Option Value)) (stmt : Node → Direct (List Value)) (n : Node) :
    Direct (List Value) :=
  if n.isExpr then return (← expr n).toList else stmt n

/-- What each of the nodes leaves. -/
def leftBy (eval : Node → Direct (List Value)) : List Node → Direct (List Value)
  | [] => return []
  | n :: rest => do
    let left ← eval n
    let more ← keeping left (leftBy eval rest)
    return left ++ more

/-- The values of arguments, each of which has to have one. -/
def valuesBy (eval : Node → Direct (Option Value)) : List Node → Direct (List Value)
  | [] => return []
  | n :: rest => do
    match ← eval n with
    | none => fail .emptyArgument (some n.pos)
    | some v =>
      let more ← keeping [v] (valuesBy eval rest)
      return v :: more

def repeatWhile (test : Direct Bool) (body : Direct (List Value)) : Nat → Direct Unit
  | 0 => stop (.abort .outOfRounds)
  | rounds + 1 => do
    if ← test then
      let _ ← body
      repeatWhile test body rounds

def countUp (name : String) (body : Direct (List Value)) : Nat → Int → Direct Unit
  | 0, _ => return ()
  | rounds + 1, i => do
    let _ ← body
    bind name (.int (i + 1))
    countUp name body rounds (i + 1)

/-! ## Nodes -/

mutual

def evalExpr (env : Env) : Nat → Node → Direct (Option Value)
  | 0, _ => stackExhausted
  | _ + 1, .int pos value => return some (← ofOperator (Operator.intResult value) pos)
  | _ + 1, .float _ value => return some (.float value)
  | _ + 1, .string _ text => return some (.string text)
  | _ + 1, .bool _ value => return some (.bool value)
  | _ + 1, .var pos name => do
    match ← lookup? name with
    | some v => return some v
    | none => fail (.unknownName name) (some pos)
  | frames + 1, .unary pos op operand => do
    match Eval.negatedLiteral? op operand with
    | some n => return some (← ofOperator (Operator.intResult n) pos)
    | none =>
      let v ← demand .unaryOperand (← evalExpr env frames operand)
      return some (← ofOperator (Operator.unary op v) pos)
  | frames + 1, .binary pos op left right => do
    let l? ← evalExpr env frames left
    let r? ← keeping l?.toList (evalExpr env frames right)
    let r ← demand .rightOperand r?
    let l ← demand .leftOperand l?
    return some (← ofOperator (Operator.binary op l r) pos)
  | frames + 1, .call pos name args => callNamed env frames name args pos
  | frames + 1, .methodCall pos receiver method args => do
    match ← lookup? receiver with
    | some this => callOn env frames this method args pos
    | none => fail (.unknownObject receiver) (some pos)
  | frames + 1, .exprMethodCall pos receiver method args => do
    let this ← demand (.receiver method) (← evalExpr env frames receiver)
    callOn env frames this method args pos
  | _ + 1, .unknown _ sort _ => crash (.unknownNode sort)
  | _ + 1, _ => crash (.unknownNode "statement")

def evalStmt (env : Env) : Nat → Node → Direct (List Value)
  | 0, _ => stackExhausted
  | frames + 1, .assign pos name value => do
    assignLast name pos (← nodeBy (evalExpr env frames) (evalStmt env frames) value)
  | _ + 1, .fnDecl _ name params body => do
    declare ⟨name, params, body⟩
    return []
  | frames + 1, .ret _ value => do
    let v ← demand .returned (← evalExpr env frames value)
    stop (.returned v)
  | frames + 1, .cond _ test thenBody elseBody => do
    let taken := if ← holds env frames test .ifCondition then some thenBody else elseBody
    match taken with
    | some body => evalBody env frames body
    | none => return []
  | frames + 1, .whileLoop _ test body => do
    repeatWhile (holds env frames test .whileCondition) (evalBody env frames body) env.rounds
    return []
  | frames + 1, .forLoop _ name low high body => do
    evalFor env frames name low high body
    return []
  | frames + 1, .block _ body => evalBody env frames body
  | _ + 1, .unknown _ sort _ => crash (.unknownNode sort)
  | _ + 1, _ => crash (.unknownNode "expression")

def evalBody (env : Env) : Nat → List Node → Direct (List Value)
  | 0, _ => stackExhausted
  | frames + 1, body => leftBy (nodeBy (evalExpr env frames) (evalStmt env frames)) body

def holds (env : Env) : Nat → Node → Role → Direct Bool
  | 0, _, _ => stackExhausted
  | frames + 1, test, role => do
    match ← demand role (← evalExpr env frames test) with
    | .bool b => return b
    | v => fail (.notBool role v.kind) (some test.pos)

def evalFor (env : Env) : Nat → String → Node → Node → List Node → Direct Unit
  | 0, _, _, _, _ => stackExhausted
  | frames + 1, name, low, high, body => do
    let low? ← evalExpr env frames low
    let high? ← keeping low?.toList (evalExpr env frames high)
    let upper ← demand .upperBound high?
    let last ← keeping low?.toList (boundOf upper high.pos)
    let lower ← demand .lowerBound low?
    let first ← boundOf lower low.pos
    bind name (.int first)
    countUp name (evalBody env frames body) (last - first).toNat first

def evalArgs (env : Env) : Nat → List Node → Direct (List Value)
  | 0, _ => stackExhausted
  | frames + 1, args => valuesBy (evalExpr env frames) args

def callNamed (env : Env) : Nat → String → List Node → Pos → Direct (Option Value)
  | 0, _, _, _ => stackExhausted
  | frames + 1, name, args, pos => do
    match env.library.functions.find? name with
    | some f =>
      let given ← evalArgs env frames args
      log (.libraryCall name given.length)
      callFunction f name given pos
    | none =>
      match (← get).functions.find? name with
      | some f => callUser env frames f args pos
      | none => fail (.unknownFunction name) (some pos)

def callUser (env : Env) : Nat → UserFunction → List Node → Pos → Direct (Option Value)
  | 0, _, _, _ => stackExhausted
  | frames + 1, f, args, pos => do
    if args.length ≠ f.params.length then
      fail (.arity f.name f.params.length args.length) (some pos)
    if env.maxDepth ≤ (← get).depth then
      fail (.callDepth env.maxDepth f.name) (some pos)
    let given ← evalArgs env frames args
    log (.userCall f.name given.length)
    inFrame do
      bindAll f.params given
      evalBody env frames f.body

def callOn (env : Env) : Nat → Value → String → List Node → Pos → Direct (Option Value)
  | 0, _, _, _, _ => stackExhausted
  | frames + 1, this, method, args, pos => do
    match env.library.methods.find? this.kind with
    | none => fail (.noMethods this.kind) (some pos)
    | some table =>
      match table.find? method with
      | none => fail (.unknownMethod method this.kind) (some pos)
      | some f =>
        let given ← evalArgs env frames args
        log (.methodCall this.kind method given.length)
        callMethod f method this given pos

end

/-! ## Runs -/

/-- How a run ends that never lacks a value. -/
structure Ending where
  result : Except Abort (Option Value)
  left : List Value
  world : World

/-- The result is the last of the values that are left. -/
def finish (left : List Value) (w : World) : Ending :=
  ⟨.ok left.getLast?, left, { w with log := .finished left.length :: w.log }⟩

/-- A `return` outside of all functions leaves its value behind the others. -/
def run (env : Env) (program : Node) (w : World) : Option Ending :=
  match evalStmt env (Session.frameLimit env.maxDepth) program w with
  | .ok left w => some (finish left w)
  | .error ⟨.returned v, waiting⟩ w => some (finish (waiting ++ [v]) w)
  | .error ⟨.abort a, waiting⟩ w => some ⟨.error a, waiting, w⟩
  | .error ⟨.missing _, _⟩ _ => none

end Direct

end ExScript
