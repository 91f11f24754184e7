import ExScript.Number.Binary64

/-!
# Decimal numbers and doubles

A decimal is a significand times a power of ten.  `Decimal.bits` reads it as a double, `shortest`
goes back with the fewest digits: for each count of digits it tests the two neighbours of the value
on that decimal grid, takes the nearer of two that read back, and the even one when both are as
near.
-/

namespace ExScript.Number

/-- The value `significand * 10 ^ exponent`. -/
structure Decimal where
  significand : Nat
  exponent : Int
  deriving DecidableEq, Repr

namespace Decimal

def numerator (d : Decimal) : Nat := d.significand * Nat.pow 10 d.exponent.toNat

def denominator (d : Decimal) : Nat := Nat.pow 10 (-d.exponent).toNat

/-- Exponents far outside the range of doubles are decided without computing the power. -/
def bits (d : Decimal) : Nat :=
  if d.significand = 0 || d.exponent < -331 - (d.significand.log2 / 3 : Nat) then 0
  else if 310 < d.exponent then infinityBits
  else nearestBits d.numerator d.denominator

def toFloat (negative : Bool) (d : Decimal) : Float := ofMagnitude negative d.bits

/-- The digits after the point join those before it. -/
def ofDigits (whole fraction : List Char) (exponent : Int) : Decimal :=
  ⟨Nat.ofDigitChars 10 (whole ++ fraction) 0, exponent - fraction.length⟩

/-- Moves at most `fuel` final zeros of the significand into the exponent. -/
def trim : Nat → Decimal → Decimal
  | 0, d => d
  | fuel + 1, d =>
    if d.significand % 10 = 0 then trim fuel ⟨d.significand / 10, d.exponent + 1⟩ else d

end Decimal

/-- The decimal exponent of the leading digit, up to one too small. -/
def leadingExponent (units : Nat) : Int :=
  ((units.log2 : Int) - places) * 30103 / 100000

/-- The value in units of `10 ^ exponent`, as a quotient of naturals. -/
def onGrid (units : Nat) (exponent : Int) : Nat × Nat :=
  (units * Nat.pow 10 (-exponent).toNat, unitsPerOne * Nat.pow 10 exponent.toNat)

/-- The best decimal on one grid that reads back, if there is any. -/
def nearestOnGrid? (bits : Nat) (exponent : Int) : Option Decimal :=
  let (num, den) := onGrid (unitsOfBits bits) exponent
  let below := Decimal.trim 20 ⟨num / den, exponent⟩
  let above := Decimal.trim 20 ⟨num / den + 1, exponent⟩
  let upward := den < 2 * (num % den) || (2 * (num % den) = den && num / den % 2 = 1)
  if below.bits = bits && !(upward && above.bits = bits) then some below
  else if above.bits = bits then some above
  else none

/-- Grids from coarse to fine. -/
def searchGrids (bits count : Nat) (coarsest : Int) : Option Decimal :=
  (List.range count).findSome? fun (k : Nat) => nearestOnGrid? bits (coarsest - k)

/-- Every double is a decimal with at most 1074 places. -/
def exactDecimal (bits : Nat) : Decimal := ⟨unitsOfBits bits * Nat.pow 5 places, -places⟩

/-- The decimal with the fewest digits that reads back as the finite double of these bits. -/
def shortest (bits : Nat) : Decimal :=
  if bits = 0 then ⟨0, 0⟩
  else (searchGrids bits 20 (leadingExponent (unitsOfBits bits) + 1)).getD (exactDecimal bits)

end ExScript.Number
