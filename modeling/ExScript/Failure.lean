import ExScript.Pos

/-!
# Failures of a run

A run fails with a cause and, mostly, a position.  A crash is a failure that is none of the
language: it carries no position and no rule of the language handles it.
-/

namespace ExScript

/-- What a value is wanted for. -/
inductive Role where
  | unaryOperand | leftOperand | rightOperand
  | ifCondition | whileCondition
  | lowerBound | upperBound
  | argument
  | returned
  | receiver (method : String)
  | other (text : String)
  deriving DecidableEq, Repr

def Role.describe : Role → String
  | unaryOperand => "unary operand"
  | leftOperand => "left operand"
  | rightOperand => "right operand"
  | ifCondition => "if condition"
  | whileCondition => "while condition"
  | lowerBound => "for lower bound"
  | upperBound => "for upper bound"
  | argument => "argument"
  | returned => "return"
  | receiver method => String.join ["method '", method, "' receiver"]
  | other text => text

inductive Cause where
  | unknownName (name : String)
  | unknownObject (name : String)
  | unknownFunction (name : String)
  | unknownMethod (method kind : String)
  | noMethods (kind : String)
  | notBool (role : Role) (kind : String)
  | notInteger (kind : String)
  | unaryKind (op kind : String)
  | binaryKind (op kind : String)
  | binaryKinds (op left right : String)
  | missingValue (role : Role)
  | nothingToAssign (name : String)
  | emptyArgument
  | arity (name : String) (expected given : Nat)
  | functionFailed (name message : String)
  | methodFailed (name message : String)
  | overflow
  | callDepth (limit : Int) (name : String)
  | stackExhausted
  deriving DecidableEq, Repr

namespace Cause

/-- The message in pieces. -/
def pieces : Cause → List String
  | unknownName name => ["unknown name '", name, "'"]
  | unknownObject name => ["call method on unknown object '", name, "'"]
  | unknownFunction name => ["function '", name, "' not defined"]
  | unknownMethod method kind => ["unknown method '", method, "' for ", kind]
  | noMethods kind => ["no methods for ", kind]
  | notBool role kind => [role.describe, " must be Bool, got ", kind]
  | notInteger kind => ["for bound must be Integer, got ", kind]
  | unaryKind op kind => ["unary '", op, "' not supported for ", kind]
  | binaryKind op kind => ["binary '", op, "' not supported for ", kind]
  | binaryKinds op left right => ["binary '", op, "' not supported for ", left, " and ", right]
  | missingValue role => ["expected a value for ", role.describe]
  | nothingToAssign name => ["no value to assign to '", name, "'"]
  | emptyArgument => ["argument produced no value"]
  | arity name expected given =>
    ["function '", name, "' expects ", toString expected, " argument(s), got ", toString given]
  | functionFailed name message => ["error in function ", name, ": ", message]
  | methodFailed name message => ["error in method ", name, ": ", message]
  | overflow => ["integer overflow"]
  | callDepth limit name => ["maximum call depth ", toString limit, " exceeded in '", name, "'"]
  | stackExhausted => ["interpreter stack exhausted"]

def message (c : Cause) : String := String.join c.pieces

inductive Category where
  | type | name | fault | recursion
  deriving DecidableEq, Repr

def category : Cause → Category
  | noMethods _ | notBool _ _ | notInteger _ | unaryKind _ _ | binaryKind _ _ | binaryKinds _ _ _ =>
    .type
  | unknownName _ | unknownObject _ | unknownFunction _ | unknownMethod _ _ => .name
  | callDepth _ _ | stackExhausted => .recursion
  | _ => .fault

end Cause

structure RunError where
  cause : Cause
  pos : Option Pos
  deriving DecidableEq, Repr

def RunError.message (e : RunError) : String :=
  e.cause.message ++ (e.pos.map Pos.suffix).getD ""

inductive Crash where
  | unknownNode (sort : String)
  | popGlobalScope
  /-- A method was called on a value of another kind. -/
  | wrongReceiver
  /-- An integer beyond the largest double. -/
  | floatOverflow
  /-- The text passed the check for numbers but is none; it is given in quotes. -/
  | unreadableFloat (quoted : String)
  | tooManyDigits (count : Nat)
  /-- A group of callables that was only declared. -/
  | declaredOnly
  /-- The host cannot be asked for as many frames as the limit on calls wants. -/
  | tooManyFrames
  deriving DecidableEq, Repr

/-- The message in pieces. -/
def Crash.pieces : Crash → List String
  | unknownNode sort => ["unhandled node type ", sort]
  | popGlobalScope => ["cannot pop the global scope"]
  | wrongReceiver => []
  | floatOverflow => ["int too large to convert to float"]
  | unreadableFloat quoted => ["could not convert string to float: ", quoted]
  | tooManyDigits count =>
    ["Exceeds the limit (4300 digits) for integer string conversion: value has ", toString count,
      " digits; use sys.set_int_max_str_digits() to increase the limit"]
  | declaredOnly => []
  | tooManyFrames => ["int too large to convert to C int"]

def Crash.message (c : Crash) : String := String.join c.pieces

end ExScript
