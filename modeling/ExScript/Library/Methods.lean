import ExScript.Library.Callable
import ExScript.Number.Reading
import ExScript.Text.Quoted

/-!
# Methods of the four kinds of values

Every method first checks how many arguments it has.  The methods of one kind crash on a receiver of
another kind, except for `to_string`, which takes any, and `pow`, which reports it.
-/

namespace ExScript.Library

def checkCount (name : String) (args : List Value) (expected : Nat) : Except LibraryFault Unit :=
  if args.length = expected then .ok ()
  else .error (.error (.argumentCount name expected args.length))

def checkedInt (n : Int) : Except LibraryFault (Option Value) :=
  if inIntRange n then .ok (some (.int n)) else .error (.error .overflow)

def toStringMethod : LibraryMethod := fun this args => do
  checkCount "to_string" args 0
  return some (.string this.display)

/-- Large exponents are settled without computing the power. -/
def power (base exponent : Int) : Except LibraryFault (Option Value) :=
  if exponent < 0 then .error (.error .negativeExponent)
  else if 1 < base.natAbs then
    if 64 < exponent then .error (.error .overflow) else checkedInt (Int.pow base exponent.toNat)
  else if exponent = 0 then .ok (some (.int 1))
  else .ok (some (.int (if base = -1 && exponent % 2 = 0 then 1 else base)))

def pow : LibraryMethod := fun this args => do
  checkCount "pow" args 1
  match this, args with
  | .int base, [.int exponent] => power base exponent
  | _, arg :: _ => .error (.error (.powKind arg.kind))
  | _, [] => return none

def intToFloat : LibraryMethod := fun this args => do
  checkCount "to_float" args 0
  match this with
  | .int n =>
    let x := Number.ofInt n
    if Number.isFinite x then return some (.float x) else .error (.crash .floatOverflow)
  | _ => .error (.crash .wrongReceiver)

def floatToInt : LibraryMethod := fun this args => do
  checkCount "to_int" args 0
  match this with
  | .float x =>
    if Number.isFinite x then checkedInt (Number.truncate x)
    else .error (.error (.notFinite this.display))
  | _ => .error (.crash .wrongReceiver)

/-- More digits than this are not converted, leading zeros included. -/
def maxDigits : Nat := 4300

/-- Significant digits that no integer in range exceeds. -/
def maxSignificant : Nat := 19

def readInt (text : String) : Except LibraryFault (Option Value) :=
  let refused := .error (.error (.notIntText text))
  match Number.IntText.ofChars? text.toList with
  | none => refused
  | some t =>
    if maxSignificant < t.significant.length then refused
    else if maxDigits < t.digits.length then .error (.crash (.tooManyDigits t.digits.length))
    else if inIntRange t.value then .ok (some (.int t.value))
    else refused

def stringToInt : LibraryMethod := fun this args => do
  checkCount "to_int" args 0
  match this with
  | .string text => readInt text
  | _ => .error (.crash .wrongReceiver)

def readFloat (text : String) : Except LibraryFault (Option Value) :=
  match Number.FloatText.ofChars? text.toList with
  | none => .error (.error (.notFloatText text))
  | some (.decimal negative value) => .ok (some (.float (value.toFloat negative)))
  | some (.word negative word) => .ok (some (.float (word.toFloat negative)))
  | some .foreignWord => .error (.crash (.unreadableFloat (Text.quoted text)))

def stringToFloat : LibraryMethod := fun this args => do
  checkCount "to_float" args 0
  match this with
  | .string text => readFloat text
  | _ => .error (.crash .wrongReceiver)

/-- The number of code points. -/
def stringLength : LibraryMethod := fun this args => do
  checkCount "len" args 0
  match this with
  | .string text => return some (.int text.length)
  | _ => .error (.crash .wrongReceiver)

/-! ## Tables by kind -/

def intTable : Table LibraryMethod :=
  Table.ofList [("pow", pow), ("to_float", intToFloat), ("to_string", toStringMethod)]

def floatTable : Table LibraryMethod :=
  Table.ofList [("to_int", floatToInt), ("to_string", toStringMethod)]

def stringTable : Table LibraryMethod :=
  Table.ofList [("to_int", stringToInt), ("to_float", stringToFloat), ("len", stringLength)]

def boolTable : Table LibraryMethod := Table.ofList [("to_string", toStringMethod)]

end ExScript.Library
