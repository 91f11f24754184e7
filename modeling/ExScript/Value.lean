import ExScript.Number.FloatText

/-!
# Values

The four kinds of values, their display text and their equality.  Integers that operators and
methods make lie between `minInt` and `maxInt`; the type itself holds any integer, since the counter
of a loop and the callables of a host are not checked.
-/

namespace ExScript

inductive Value where
  | int (value : Int)
  | float (value : Float)
  | string (text : String)
  | bool (value : Bool)
  deriving DecidableEq, Repr

def minInt : Int := -9223372036854775808

def maxInt : Int := 9223372036854775807

def inIntRange (n : Int) : Bool := minInt ≤ n && n ≤ maxInt

theorem inIntRange_iff {n : Int} : inIntRange n = true ↔ minInt ≤ n ∧ n ≤ maxInt := by
  simp [inIntRange]

namespace Value

instance : Inhabited Value := ⟨.bool false⟩

def kind : Value → String
  | int _ => "Integer"
  | float _ => "Float"
  | string _ => "String"
  | bool _ => "Bool"

def display : Value → String
  | int n => toString n
  | float x => Number.displayText x
  | string text => text
  | bool b => if b then "true" else "false"

def isNaN : Value → Bool
  | float x => Number.isNaN x
  | _ => false

/-- Values of different kinds differ.  What is no number equals itself, and zero has no sign. -/
def same : Value → Value → Bool
  | float x, float y => (Number.isNaN x && Number.isNaN y) || x == y
  | v, w => v = w

/-- Equal values that can stand for each other as a key.  What is no number has no key in common
with anything. -/
def sameKey (v w : Value) : Bool := !v.isNaN && !w.isNaN && v.same w

end Value

end ExScript
