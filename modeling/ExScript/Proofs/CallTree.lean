import ExScript.Proofs.Congruence
import Mathlib.Logic.Relation

/-!
# What goes on during an evaluation

A `Task` is something that an evaluation is busy with: a rule with what it is applied to, or a
callable of the library.  `Starts` says which tasks a task starts and on which machines it does, and
`During` follows it down: these are the moments that an evaluation goes through.  Between a task and
those it starts lie only steps on values, variables and the log.
-/

namespace ExScript.Eval

inductive Task where
  | node (n : Node)
  | statements (body : List Node)
  | test (n : Node) (role : Role)
  | loop (pos : Pos) (name : String) (low high : Node) (body : List Node)
  | arguments (args : List Node) (pos : Pos)
  | named (name : String) (args : List Node) (pos : Pos)
  | user (f : UserFunction) (args : List Node) (pos : Pos)
  | method (this : Value) (method : String) (args : List Node) (pos : Pos)
  /-- A function of the library is called. -/
  | function (f : LibraryFunction) (name : String) (given : List Value) (pos : Pos)
  /-- A method of the library is called. -/
  | operation (f : LibraryMethod) (method : String) (this : Value) (given : List Value) (pos : Pos)

/-- The machine on which a task ends, however it does. -/
def Task.ending (env : Env) (frames : Nat) : Task → Machine → Machine
  | node n, m => reached (exec env frames n m)
  | statements body, m => reached (execBody env frames body m)
  | test n role, m => reached (holds env frames n role m)
  | loop pos name low high body, m => reached (execFor env frames pos name low high body m)
  | arguments args pos, m => reached (evalArgs env frames args pos m)
  | named name args pos, m => reached (callNamed env frames name args pos m)
  | user f args pos, m => reached (callUser env frames f args pos m)
  | method this name args pos, m => reached (callOn env frames this name args pos m)
  | function f name given pos, m => reached (callFunction f name given pos m)
  | operation f name this given pos, m => reached (callMethod f name this given pos m)

/-- A round of a `while` loop is completed. -/
def Round (test : Eval Bool) (body : Eval Unit) (m m' : Machine) : Prop :=
  ∃ m₁, test m = .ok true m₁ ∧ discarding body m₁ = .ok () m'

/-- The bounds of a `for` loop, the lower one first. -/
def boundsOf (env : Env) (frames : Nat) (pos : Pos) (low high : Node) : Eval (Int × Int) := do
  exec env frames low
  exec env frames high
  let last ← boundOf (← pop .upperBound (some pos)) high.pos
  let first ← boundOf (← pop .lowerBound (some pos)) low.pos
  return (first, last)

/-- The start of a `for` loop and its first rounds. -/
def loopRounds (env : Env) (frames : Nat) (name : String) (body : List Node) (first : Int)
    (rounds : Nat) : Eval Unit := do
  Eval.bind name (.int first)
  countUp name (execBody env frames body) rounds first

/-- What a call does before its body is run: it enters a scope of its own. -/
def entering (env : Env) (frames : Nat) (f : UserFunction) (args : List Node) (pos : Pos) :
    Eval Unit := do
  checkDepth env f.name pos
  let given ← evalArgs env frames args pos
  log (.userCall f.name given.length)
  enter
  bindAll f.params given

/-- The arguments of a callable of the library. -/
def givenTo (env : Env) (frames : Nat) (args : List Node) (pos : Pos) (r : Nat → LogRecord) :
    Eval (List Value) := do
  let given ← evalArgs env frames args pos
  log (r given.length)
  return given

/-- A task with one frame more starts another task. -/
inductive Starts (env : Env) (frames : Nat) : Task → Machine → Task → Machine → Prop
  | operand {pos op n m} (h : negatedLiteral? op n = none) :
    Starts env frames (.node (.unary pos op n)) m (.node n) m
  | left {pos op l r m} : Starts env frames (.node (.binary pos op l r)) m (.node l) m
  | right {pos op l r m m'} (h : exec env frames l m = .ok () m') :
    Starts env frames (.node (.binary pos op l r)) m (.node r) m'
  | call {pos name args m} :
    Starts env frames (.node (.call pos name args)) m (.named name args pos) m
  | methodCall {pos receiver method args this m} (h : m.scopes.get? receiver = some this) :
    Starts env frames (.node (.methodCall pos receiver method args)) m
      (.method this method args pos) m
  | receiver {pos n method args m} :
    Starts env frames (.node (.exprMethodCall pos n method args)) m (.node n) m
  | exprMethodCall {pos n method args this m m'}
    (h : (do exec env frames n; pop (.receiver method) (some pos)) m = .ok this m') :
    Starts env frames (.node (.exprMethodCall pos n method args)) m
      (.method this method args pos) m'
  | assigned {pos name n m} : Starts env frames (.node (.assign pos name n)) m (.node n) m
  | returned {pos n m} : Starts env frames (.node (.ret pos n)) m (.node n) m
  | ifTest {pos test t e m} :
    Starts env frames (.node (.cond pos test t e)) m (.test test .ifCondition) m
  | branch {pos test t e body taken m m'} (h : holds env frames test .ifCondition m = .ok taken m')
    (hb : (if taken then some t else e) = some body) :
    Starts env frames (.node (.cond pos test t e)) m (.statements body) m'
  | whileTest {pos test body m m'}
    (h : Relation.ReflTransGen
      (Round (holds env frames test .whileCondition) (execBody env frames body)) m m') :
    Starts env frames (.node (.whileLoop pos test body)) m (.test test .whileCondition) m'
  | whileBody {pos test body m m₁ m'}
    (h : Relation.ReflTransGen
      (Round (holds env frames test .whileCondition) (execBody env frames body)) m m₁)
    (ht : holds env frames test .whileCondition m₁ = .ok true m') :
    Starts env frames (.node (.whileLoop pos test body)) m (.statements body) m'
  | forLoop {pos name low high body m} :
    Starts env frames (.node (.forLoop pos name low high body)) m (.loop pos name low high body) m
  | block {pos body m} : Starts env frames (.node (.block pos body)) m (.statements body) m
  | statement {before n after m m'} (h : before.forM (exec env frames) m = .ok () m') :
    Starts env frames (.statements (before ++ n :: after)) m (.node n) m'
  | tested {n role m} : Starts env frames (.test n role) m (.node n) m
  | low {pos name low high body m} :
    Starts env frames (.loop pos name low high body) m (.node low) m
  | high {pos name low high body m m'} (h : exec env frames low m = .ok () m') :
    Starts env frames (.loop pos name low high body) m (.node high) m'
  | round {pos name low high body first last rounds m m₁ m'}
    (hb : boundsOf env frames pos low high m = .ok (first, last) m₁)
    (hr : rounds < (last - first).toNat)
    (h : loopRounds env frames name body first rounds m₁ = .ok () m') :
    Starts env frames (.loop pos name low high body) m (.statements body) m'
  | argument {before n after pos m m'}
    (h : eachLeaving (exec env frames) m.channel.length before m = .ok () m') :
    Starts env frames (.arguments (before ++ n :: after) pos) m (.node n) m'
  | functionArguments {name args pos f m} (hf : env.library.functions.find? name = some f) :
    Starts env frames (.named name args pos) m (.arguments args pos) m
  | function {name args pos f given m m'} (hf : env.library.functions.find? name = some f)
    (h : givenTo env frames args pos (.libraryCall name) m = .ok given m') :
    Starts env frames (.named name args pos) m (.function f name given pos) m'
  | declared {name args pos f m} (hn : env.library.functions.find? name = none)
    (hf : m.functions.find? name = some f) :
    Starts env frames (.named name args pos) m (.user f args pos) m
  | userArguments {f args pos m m'} (ha : args.length = f.params.length)
    (h : checkDepth env f.name pos m = .ok () m') :
    Starts env frames (.user f args pos) m (.arguments args pos) m'
  | userBody {f args pos m m'} (ha : args.length = f.params.length)
    (h : entering env frames f args pos m = .ok () m') :
    Starts env frames (.user f args pos) m (.statements f.body) m'
  | methodArguments {this method args pos table f m}
    (ht : env.library.methods.find? this.kind = some table) (hf : table.find? method = some f) :
    Starts env frames (.method this method args pos) m (.arguments args pos) m
  | operation {this method args pos table f given m m'}
    (ht : env.library.methods.find? this.kind = some table) (hf : table.find? method = some f)
    (h : givenTo env frames args pos (.methodCall this.kind method) m = .ok given m') :
    Starts env frames (.method this method args pos) m (.operation f method this given pos) m'

/-- While a task is busy with one number of frames, another one is with some other. -/
inductive During (env : Env) (frames : Nat) (t : Task) (m : Machine) :
    Nat → Task → Machine → Prop
  | self : During env frames t m frames t m
  | started {k : Nat} {u v : Task} {m₁ m₂ : Machine} (h : During env frames t m (k + 1) u m₁)
    (hs : Starts env k u m₁ v m₂) : During env frames t m k v m₂

end ExScript.Eval
