import ExScript.Failure
import ExScript.Streams
import ExScript.Table
import ExScript.Value

/-!
# Callables

Functions of the library work on the streams, methods only on their receiver and arguments.  Both
return a value or nothing, or fail: a library error becomes a failure of the run at the place of the
call, a crash stays a crash.
-/

namespace ExScript

inductive LibraryError where
  | argumentCount (name : String) (expected given : Nat)
  | tooManyArguments (given : Nat)
  | endOfInput
  | powKind (kind : String)
  | negativeExponent
  | overflow
  | notIntText (text : String)
  | notFloatText (text : String)
  | notFinite (display : String)
  | other (message : String)
  deriving DecidableEq, Repr

/-- The message in pieces. -/
def LibraryError.pieces : LibraryError → List String
  | argumentCount name expected given =>
    [name, " expects ", toString expected, " argument(s), got ", toString given]
  | tooManyArguments given => ["read expects at most 1 argument, got ", toString given]
  | endOfInput => ["end of input"]
  | powKind kind => ["pow expects Integer, got ", kind]
  | negativeExponent => ["pow exponent must not be negative"]
  | overflow => ["integer overflow"]
  | notIntText text => ["cannot convert '", text, "' to int"]
  | notFloatText text => ["cannot convert '", text, "' to float"]
  | notFinite display => ["cannot convert ", display, " to int"]
  | other message => [message]

def LibraryError.message (e : LibraryError) : String := String.join e.pieces

inductive LibraryFault where
  | error (error : LibraryError)
  | crash (crash : Crash)
  deriving DecidableEq, Repr

abbrev LibraryFunction := List Value → EStateM LibraryFault Streams (Option Value)

abbrev LibraryMethod := Value → List Value → Except LibraryFault (Option Value)

/-- The functions by name, and the methods by kind of receiver and name. -/
structure Library where
  functions : Table LibraryFunction
  methods : Table (Table LibraryMethod)

/-! ## Groups -/

/-- Functions that belong together; a group that is only declared has no functions to give. -/
structure FunctionGroup where
  functions : Except Crash (Table LibraryFunction)

structure MethodGroup where
  kind : String
  methods : Except Crash (Table LibraryMethod)

namespace Library

/-- Later groups win. -/
def functionsOf (groups : List FunctionGroup) : Except Crash (Table LibraryFunction) :=
  groups.foldlM (fun table group => return table.merge (← group.functions)) Table.empty

def addMethods (table : Table (Table LibraryMethod)) (group : MethodGroup) :
    Except Crash (Table (Table LibraryMethod)) := do
  let present := (table.find? group.kind).getD Table.empty
  return table.insert group.kind (present.merge (← group.methods))

/-- Groups of the same kind are merged, and later groups win. -/
def methodsOf (groups : List MethodGroup) : Except Crash (Table (Table LibraryMethod)) :=
  groups.foldlM addMethods Table.empty

end Library

end ExScript
