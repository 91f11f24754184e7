import ExScript.Machine

/-!
# Evaluation of nodes

Each rule takes one frame of a budget that is given at the start of a run; without a frame left the
run fails.  Of the loops only `while` may go on for ever, and it gives up after a number of rounds
that is given as well.
-/

namespace ExScript

namespace Eval

/-- The value of a negated literal, which may be one larger than that of a literal. -/
def negatedLiteral? : UnaryOp → Node → Option Int
  | .minus, .int _ value => some (-value)
  | _, _ => none

/-- The bound of a `for` loop: an integer, or a float without fraction. -/
def boundOf (v : Value) (pos : Pos) : Eval Int :=
  match v with
  | .int n => return n
  | .float x =>
    if Number.isIntegral x then return Number.truncate x
    else fail (.notInteger v.kind) (some pos)
  | _ => fail (.notInteger v.kind) (some pos)

def stackExhausted {α : Type} : Eval α := fail .stackExhausted none

def pushInt (n : Int) (pos : Pos) : Eval Unit := do
  push (← ofOperator (Operator.intResult n) pos)

def declare (f : UserFunction) : Eval Unit := do
  if (← get).functions.contains f.name then log (.redefining f.name)
  else log (.defining f.name f.params.length)
  modify fun m => { m with functions := m.functions.insert f.name f }

mutual

def exec (env : Env) : Nat → Node → Eval Unit
  | 0, _ => stackExhausted
  | _ + 1, .int pos value => pushInt value pos
  | _ + 1, .float _ value => push (.float value)
  | _ + 1, .string _ text => push (.string text)
  | _ + 1, .bool _ value => push (.bool value)
  | _ + 1, .var pos name => do
    match ← lookup? name with
    | some v => push v
    | none => fail (.unknownName name) (some pos)
  | frames + 1, .unary pos op operand => do
    match negatedLiteral? op operand with
    | some n => pushInt n pos
    | none =>
      exec env frames operand
      let v ← pop .unaryOperand (some pos)
      push (← ofOperator (Operator.unary op v) pos)
  | frames + 1, .binary pos op left right => do
    exec env frames left
    exec env frames right
    let r ← pop .rightOperand (some pos)
    let l ← pop .leftOperand (some pos)
    push (← ofOperator (Operator.binary op l r) pos)
  | frames + 1, .call pos name args => callNamed env frames name args pos
  | frames + 1, .methodCall pos receiver method args => do
    match ← lookup? receiver with
    | some this => callOn env frames this method args pos
    | none => fail (.unknownObject receiver) (some pos)
  | frames + 1, .exprMethodCall pos receiver method args => do
    exec env frames receiver
    let this ← pop (.receiver method) (some pos)
    callOn env frames this method args pos
  | frames + 1, .assign pos name value => do
    let before ← height
    exec env frames value
    match (← get).channel with
    | v :: rest =>
      if rest.length < before then fail (.nothingToAssign name) (some pos)
      else
        modify fun m => { m with channel := rest }
        bind name v
    | [] => fail (.nothingToAssign name) (some pos)
  | _ + 1, .fnDecl _ name params body => declare ⟨name, params, body⟩
  | frames + 1, .ret pos value => do
    exec env frames value
    throw (.returned (← pop .returned (some pos)))
  | frames + 1, .cond _ test thenBody elseBody => do
    let taken := if ← holds env frames test .ifCondition then some thenBody else elseBody
    match taken with
    | some body => execBody env frames body
    | none => return ()
  | frames + 1, .whileLoop _ test body =>
    repeatWhile (holds env frames test .whileCondition) (execBody env frames body) env.rounds
  | frames + 1, .forLoop pos name low high body => execFor env frames pos name low high body
  | frames + 1, .block _ body => execBody env frames body
  | _ + 1, .unknown _ sort _ => crash (.unknownNode sort)

def execBody (env : Env) : Nat → List Node → Eval Unit
  | 0, _ => stackExhausted
  | frames + 1, body => body.forM (exec env frames)

/-- The test of an `if` or `while`. -/
def holds (env : Env) : Nat → Node → Role → Eval Bool
  | 0, _, _ => stackExhausted
  | frames + 1, test, role => do
    exec env frames test
    match ← pop role (some test.pos) with
    | .bool b => return b
    | v => fail (.notBool role v.kind) (some test.pos)

/-- Both bounds are evaluated once, the lower one first, and checked in the other order. -/
def execFor (env : Env) : Nat → Pos → String → Node → Node → List Node → Eval Unit
  | 0, _, _, _, _, _ => stackExhausted
  | frames + 1, pos, name, low, high, body => do
    exec env frames low
    exec env frames high
    let last ← boundOf (← pop .upperBound (some pos)) high.pos
    let first ← boundOf (← pop .lowerBound (some pos)) low.pos
    bind name (.int first)
    countUp name (execBody env frames body) (last - first).toNat first

/-- Arguments from left to right. -/
def evalArgs (env : Env) : Nat → List Node → Pos → Eval (List Value)
  | 0, _, _ => stackExhausted
  | frames + 1, args, pos => do
    eachLeaving (exec env frames) (← height) args
    popMany pos args.length []

/-- Functions of the library come before those of the program. -/
def callNamed (env : Env) : Nat → String → List Node → Pos → Eval Unit
  | 0, _, _, _ => stackExhausted
  | frames + 1, name, args, pos => do
    match env.library.functions.find? name with
    | some f =>
      let given ← evalArgs env frames args pos
      log (.libraryCall name given.length)
      pushResult (← callFunction f name given pos)
    | none =>
      match (← get).functions.find? name with
      | some f => callUser env frames f args pos
      | none => fail (.unknownFunction name) (some pos)

/-- The number of arguments and the depth are checked before the arguments are evaluated, which
happens in the scope of the caller. -/
def callUser (env : Env) : Nat → UserFunction → List Node → Pos → Eval Unit
  | 0, _, _, _ => stackExhausted
  | frames + 1, f, args, pos => do
    if args.length ≠ f.params.length then
      fail (.arity f.name f.params.length args.length) (some pos)
    if env.maxDepth ≤ (← get).depth then
      fail (.callDepth env.maxDepth f.name) (some pos)
    let given ← evalArgs env frames args pos
    log (.userCall f.name given.length)
    let before ← height
    let result ← inFrame do
      bindAll f.params given
      execBody env frames f.body
    truncate before
    pushResult result

/-- The method has to exist before its arguments are evaluated. -/
def callOn (env : Env) : Nat → Value → String → List Node → Pos → Eval Unit
  | 0, _, _, _, _ => stackExhausted
  | frames + 1, this, method, args, pos => do
    match env.library.methods.find? this.kind with
    | none => fail (.noMethods this.kind) (some pos)
    | some table =>
      match table.find? method with
      | none => fail (.unknownMethod method this.kind) (some pos)
      | some f =>
        let given ← evalArgs env frames args pos
        log (.methodCall this.kind method given.length)
        pushResult (← callMethod f method this given pos)

end

theorem pushInt_apply (n : Int) (pos : Pos) (m : Machine) : pushInt n pos m =
    if inIntRange n then .ok () { m with channel := .int n :: m.channel }
    else .error (.abort (.failed ⟨.overflow, some pos⟩)) m := by
  unfold pushInt Operator.intResult Operator.checkedInt
  split <;> rfl

theorem exec_single (env : Env) (frames : Nat) (pos : Pos) (n : Node) :
    exec env (frames + 2) (.block pos [n]) = exec env frames n := by
  change [n].forM (exec env frames) = _
  simp

end Eval

end ExScript
