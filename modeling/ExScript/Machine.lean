import ExScript.Library.Callable
import ExScript.Node
import ExScript.Operator
import ExScript.Scopes

/-!
# The state of a run

Nodes hand values to each other through a channel: evaluating a node puts values on it, and whoever
wants one takes the topmost.  Besides the channel the state holds the scopes, the functions declared
so far, the number of calls that are active, the streams and the log.

An evaluation keeps the state it has reached when it is interrupted.
-/

namespace ExScript

structure UserFunction where
  name : String
  params : List String
  body : List Node

inductive LogRecord where
  | defining (name : String) (arity : Nat)
  | redefining (name : String)
  | libraryCall (name : String) (args : Nat)
  | userCall (name : String) (args : Nat)
  | methodCall (kind method : String) (args : Nat)
  | finished (values : Nat)
  deriving DecidableEq, Repr

/-- The message in pieces. -/
def LogRecord.pieces : LogRecord → List String
  | defining name arity => ["defining function ", name, "/", toString arity]
  | redefining name => ["redefining function ", name]
  | libraryCall name args => ["std call ", name, "/", toString args]
  | userCall name args => ["call ", name, "/", toString args]
  | methodCall kind method args => ["method call ", kind, ".", method, "/", toString args]
  | finished values => ["run finished with ", toString values, " value(s) on the channel"]

def LogRecord.message (r : LogRecord) : String := String.join r.pieces

def LogRecord.line (r : LogRecord) : String := String.join ["exlang.runtime: DEBUG: ", r.message]

structure Machine where
  scopes : Scopes
  /-- The topmost value first. -/
  channel : List Value
  functions : Table UserFunction
  /-- The number of active calls of user functions. -/
  depth : Nat
  streams : Streams
  /-- The latest record first. -/
  log : List LogRecord

namespace Machine

def initial (streams : Streams) : Machine := ⟨Scopes.initial, [], Table.empty, 0, streams, []⟩

instance : Inhabited Machine := ⟨initial default⟩

end Machine

/-- Why a run ends without a result. -/
inductive Abort where
  | failed (error : RunError)
  | crashed (crash : Crash)
  /-- A loop took more rounds than it was allowed. -/
  | outOfRounds
  deriving DecidableEq, Repr

inductive Interrupt where
  | abort (abort : Abort)
  /-- A `return` on its way to the call that it ends. -/
  | returned (value : Value)
  deriving DecidableEq, Repr

abbrev Eval (α : Type) := EStateM Interrupt Machine α

/-- What stays the same during a run.  Every `while` loop may take `rounds` rounds. -/
structure Env where
  library : Library
  maxDepth : Int
  rounds : Nat

namespace Eval

variable {α : Type}

def fail (cause : Cause) (pos : Option Pos) : Eval α := throw (.abort (.failed ⟨cause, pos⟩))

def crash (c : Crash) : Eval α := throw (.abort (.crashed c))

def log (r : LogRecord) : Eval Unit := modify fun m => { m with log := r :: m.log }

/-! ## The channel -/

def push (v : Value) : Eval Unit := modify fun m => { m with channel := v :: m.channel }

def pop (role : Role) (pos : Option Pos) : Eval Value := do
  match (← get).channel with
  | v :: rest =>
    modify fun m => { m with channel := rest }
    return v
  | [] => fail (.missingValue role) pos

def height : Eval Nat := return (← get).channel.length

/-- Takes values away until at most `height` are left. -/
def truncate (height : Nat) : Eval Unit :=
  modify fun m => { m with channel := m.channel.drop (m.channel.length - height) }

/-- Whatever the body leaves on the channel is dropped. -/
def discarding (body : Eval Unit) : Eval Unit := do
  let h ← height
  body
  truncate h

/-! ## Variables -/

def lookup? (name : String) : Eval (Option Value) := return (← get).scopes.get? name

def bind (name : String) (v : Value) : Eval Unit :=
  modify fun m => { m with scopes := m.scopes.bind name v }

def bindAll : List String → List Value → Eval Unit
  | name :: names, v :: vs => do
    bind name v
    bindAll names vs
  | _, _ => return ()

/-! ## Calls -/

/-- The result of an operation, whose failure is reported at a position. -/
def ofOperator (r : Except OperatorFault α) (pos : Pos) : Eval α :=
  match r with
  | .ok a => return a
  | .error (.cause c) => fail c (some pos)
  | .error (.crash c) => crash c

/-- A function of the library works on the streams of the machine. -/
def callFunction (f : LibraryFunction) (name : String) (args : List Value) (pos : Pos) :
    Eval (Option Value) := do
  let streams ← modifyGet fun m => (m.streams, { m with streams := default })
  match f args streams with
  | .ok result streams =>
    modify fun m => { m with streams := streams }
    return result
  | .error fault streams =>
    modify fun m => { m with streams := streams }
    match fault with
    | .error e => fail (.functionFailed name e.message) (some pos)
    | .crash c => crash c

def callMethod (f : LibraryMethod) (method : String) (this : Value) (args : List Value)
    (pos : Pos) : Eval (Option Value) :=
  match f this args with
  | .ok result => return result
  | .error (.error e) => fail (.methodFailed method e.message) (some pos)
  | .error (.crash c) => crash c

def pushResult : Option Value → Eval Unit
  | some v => push v
  | none => return ()

def enter : Eval Unit :=
  modify fun m => { m with scopes := m.scopes.push, depth := m.depth + 1 }

def leave : Eval Unit := do
  match (← get).scopes.pop with
  | .ok scopes => modify fun m => { m with scopes := scopes, depth := m.depth - 1 }
  | .error c => crash c

/-- Goes on after an action however it ended. -/
def attempt (action : Eval α) : Eval (Except Interrupt α) := fun m =>
  match action m with
  | .ok a m => .ok (.ok a) m
  | .error e m => .ok (.error e) m

/-- Runs the body of a call in a scope of its own, which is left however the body ends.  Only a
`return` gives a value. -/
def inFrame (body : Eval Unit) : Eval (Option Value) := do
  enter
  let ended ← attempt body
  leave
  match ended with
  | .ok () => return none
  | .error (.returned v) => return some v
  | .error e => throw e

/-! ## Repetition -/

/-- Evaluates one node after the other, each of which has to put something on the channel. -/
def eachLeaving (eval : Node → Eval Unit) (height : Nat) : List Node → Eval Unit
  | [] => return ()
  | n :: rest => do
    eval n
    let h ← Eval.height
    if h ≤ height then fail .emptyArgument (some n.pos) else eachLeaving eval h rest

/-- The topmost values, the topmost of them last. -/
def popMany (pos : Pos) : Nat → List Value → Eval (List Value)
  | 0, values => return values
  | count + 1, values => do
    let v ← pop .argument (some pos)
    popMany pos count (v :: values)

def repeatWhile (test : Eval Bool) (body : Eval Unit) : Nat → Eval Unit
  | 0 => throw (.abort .outOfRounds)
  | rounds + 1 => do
    if ← test then
      discarding body
      repeatWhile test body rounds

/-- The counter goes its own way: what the body does to the variable is overwritten. -/
def countUp (name : String) (body : Eval Unit) : Nat → Int → Eval Unit
  | 0, _ => return ()
  | rounds + 1, i => do
    discarding body
    bind name (.int (i + 1))
    countUp name body rounds (i + 1)

end Eval

end ExScript
