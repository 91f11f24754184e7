import ExScript.Number.Decimal

/-!
# Spellings of doubles

Three spellings, all from the shortest digits: `exponentText` changes to an exponent for very small
and very large values, `literalText` is always positional so that it can be read as a literal, and
`displayText` writes integral values as integers.
-/

namespace ExScript.Number

def signText (negative : Bool) : List Char := if negative then ['-'] else []

/-- How many digits stand before the point. -/
def Decimal.pointPosition (d : Decimal) : Int :=
  (Nat.toDigits 10 d.significand).length + d.exponent

/-- At least one digit on each side of the point. -/
def Decimal.positional (d : Decimal) : List Char :=
  let digits := Nat.toDigits 10 d.significand
  match d.exponent with
  | .ofNat k => digits ++ List.replicate k '0' ++ ['.', '0']
  | .negSucc k =>
    if k + 1 < digits.length then
      digits.take (digits.length - (k + 1)) ++ '.' :: digits.drop (digits.length - (k + 1))
    else '0' :: '.' :: (List.replicate (k + 1 - digits.length) '0' ++ digits)

/-- One digit, the others as a fraction if there are any, and an exponent of at least two digits. -/
def Decimal.scientific (d : Decimal) : List Char :=
  let exponent := d.pointPosition - 1
  let mark := if exponent < 0 then '-' else '+'
  let power := Nat.toDigits 10 exponent.natAbs
  let mantissa := match Nat.toDigits 10 d.significand with
    | [] => []
    | [digit] => [digit]
    | digit :: rest => digit :: '.' :: rest
  mantissa ++ 'e' :: mark :: (List.replicate (2 - power.length) '0' ++ power)

/-- Positional when the leading digit stands between `10 ^ -4` and `10 ^ 15`. -/
def Decimal.compact (d : Decimal) : List Char :=
  if -4 < d.pointPosition && d.pointPosition ≤ 16 then d.positional else d.scientific

/-- A double that is no number or infinite, in lower case. -/
def specialText (x : Float) : String :=
  if isNaN x then "nan" else if isNegative x then "-inf" else "inf"

def finiteText (layout : Decimal → List Char) (x : Float) : String :=
  String.ofList (signText (isNegative x) ++ layout (shortest (magnitudeBits x)))

def exponentText (x : Float) : String :=
  if isFinite x then finiteText Decimal.compact x else specialText x

/-- Only finite doubles have a literal. -/
def literalText? (x : Float) : Option String :=
  if isFinite x then some (finiteText Decimal.positional x) else none

def displayText (x : Float) : String :=
  if isNaN x then "NaN"
  else if isIntegral x then toString (truncate x)
  else exponentText x

end ExScript.Number
