/-!
# Doubles as scaled naturals

Without its sign, a finite double is `mantissa * 2 ^ scale / 2 ^ 1074`, where the scale counts up
from zero and the mantissa has at most 53 bits, and exactly 53 when the scale is positive.  Then the
bit pattern is `scale * 2 ^ 52 + mantissa`, so rounding up may carry from one scale to the next
without a case of its own.

`nearestBits` rounds any positive rational to the nearest double, ties to the even mantissa.
-/

namespace ExScript.Number

/-- The bit of the sign, `2 ^ 63`. -/
def signBit : Nat := 0x8000000000000000

/-- The least bit above the 52 bits of the fraction, `2 ^ 52`. -/
def leadingBit : Nat := 0x10000000000000

/-- The least positive double is `2 ^ -places`.  Kept folded, so that no power of it is ever
written out. -/
@[irreducible] def places : Nat := 1074

/-- The number of units of `2 ^ -1074` in one. -/
def unitsPerOne : Nat := Nat.pow 2 places

def infinityBits : Nat := 0x7ff0000000000000

/-- The bit pattern without the sign. -/
def magnitudeBits (x : Float) : Nat := x.toBits.toNat % signBit

def isNegative (x : Float) : Bool := signBit ≤ x.toBits.toNat

def isFinite (x : Float) : Bool := magnitudeBits x < infinityBits

def isNaN (x : Float) : Bool := infinityBits < magnitudeBits x

def ofMagnitude (negative : Bool) (bits : Nat) : Float :=
  Float.ofBits (UInt64.ofNat (if negative then signBit + bits else bits))

def infinity (negative : Bool) : Float := ofMagnitude negative infinityBits

def nan : Float := Float.ofBits 0x7ff8000000000000

def scaleOfBits (bits : Nat) : Nat := bits / leadingBit - 1

def mantissaOfBits (bits : Nat) : Nat := bits - scaleOfBits bits * leadingBit

/-- The number of units of `2 ^ -1074` in the magnitude of a finite double. -/
def unitsOfBits (bits : Nat) : Nat := mantissaOfBits bits * Nat.pow 2 (scaleOfBits bits)

/-- The quotient rounded to the nearest natural, ties to even. -/
def roundedQuotient (num den : Nat) : Nat :=
  let quotient := num / den
  let twice := 2 * (num % den)
  if twice < den || (twice = den && quotient % 2 = 0) then quotient else quotient + 1

/-- The double nearest to `num / den`, an overflow giving infinity. -/
def nearestBits (num den : Nat) : Nat :=
  let units := num * unitsPerOne
  let scale := (units / den).log2 - 52
  min infinityBits (scale * leadingBit + roundedQuotient units (den * Nat.pow 2 scale))

def ofInt (n : Int) : Float := ofMagnitude (n < 0) (nearestBits n.natAbs 1)

/-- A finite double without fraction. -/
def isIntegral (x : Float) : Bool :=
  isFinite x && unitsOfBits (magnitudeBits x) % unitsPerOne = 0

/-- The integer part of a finite double, cut towards zero. -/
def truncate (x : Float) : Int :=
  let whole := Int.ofNat (unitsOfBits (magnitudeBits x) / unitsPerOne)
  if isNegative x then -whole else whole

end ExScript.Number
