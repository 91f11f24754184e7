import ExScript.Failure
import ExScript.Node
import ExScript.Value

/-!
# Operators on values

Integers and floats never mix.  Integer results outside the 64-bit range are refused, and the
quotient of integers is the quotient of the doubles nearest to them.
-/

namespace ExScript

/-- Why an operation gives no value. -/
inductive OperatorFault where
  | cause (cause : Cause)
  | crash (crash : Crash)
  deriving DecidableEq, Repr

namespace Operator

def checkedInt (n : Int) : Except Cause Value :=
  if inIntRange n then .ok (.int n) else .error .overflow

def intResult (n : Int) : Except OperatorFault Value := (checkedInt n).mapError .cause

def intToFloat (n : Int) : Except OperatorFault Float :=
  let x := Number.ofInt n
  if Number.isFinite x then .ok x else .error (.crash .floatOverflow)

/-- Division by zero gives an infinity, or no number if the dividend is zero. -/
def intQuotient (a b : Int) : Except OperatorFault Value := do
  let x ← intToFloat a
  let y ← intToFloat b
  return .float (x / y)

def unary (op : UnaryOp) (operand : Value) : Except OperatorFault Value :=
  match operand, op with
  | .int n, .plus => .ok (.int n)
  | .int n, .minus => intResult (-n)
  | .float x, .plus => .ok (.float x)
  | .float x, .minus => .ok (.float (-x))
  | v, _ => .error (.cause (.unaryKind op.text v.kind))

/-- The answer of a comparison, if the operator is one. -/
def comparison? (op : BinaryOp) (equal less greater : Bool) : Option Bool :=
  match op with
  | .equal => some equal
  | .notEqual => some !equal
  | .less => some less
  | .atMost => some (less || equal)
  | .greater => some greater
  | .atLeast => some (greater || equal)
  | _ => none

def compared (op : BinaryOp) (kind : String) (answer : Option Bool) : Except OperatorFault Value :=
  match answer with
  | some b => .ok (.bool b)
  | none => .error (.cause (.binaryKind op.text kind))

def ints (op : BinaryOp) (a b : Int) : Except OperatorFault Value :=
  match op with
  | .add => intResult (a + b)
  | .sub => intResult (a - b)
  | .mul => intResult (a * b)
  | .div => intQuotient a b
  | _ => compared op "Integer" (comparison? op (a = b) (a < b) (b < a))

def floats (op : BinaryOp) (x y : Float) : Except OperatorFault Value :=
  match op with
  | .add => .ok (.float (x + y))
  | .sub => .ok (.float (x - y))
  | .mul => .ok (.float (x * y))
  | .div => .ok (.float (x / y))
  | _ => compared op "Float" (comparison? op (x == y) (x < y) (y < x))

def equality? (op : BinaryOp) (equal : Bool) : Option Bool :=
  match op with
  | .equal => some equal
  | .notEqual => some !equal
  | _ => none

def strings (op : BinaryOp) (s t : String) : Except OperatorFault Value :=
  match op with
  | .add => .ok (.string (s ++ t))
  | _ => compared op "String" (equality? op (s = t))

def bools (op : BinaryOp) (a b : Bool) : Except OperatorFault Value :=
  compared op "Bool" (equality? op (a = b))

def binary (op : BinaryOp) (left right : Value) : Except OperatorFault Value :=
  match left, right with
  | .int a, .int b => ints op a b
  | .float x, .float y => floats op x y
  | .string s, .string t => strings op s t
  | .bool a, .bool b => bools op a b
  | l, r => .error (.cause (.binaryKinds op.text l.kind r.kind))

end Operator

end ExScript
