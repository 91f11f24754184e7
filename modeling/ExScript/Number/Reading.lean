import ExScript.Number.Decimal

/-!
# Numbers in texts

An integer text is an optional sign and ASCII digits.  A float text is an optional sign followed by
digits with or without a point and an exponent, or by one of the words `inf`, `infinity` and `nan`
in any letter case.
-/

namespace ExScript.Number

def splitSign : List Char → Bool × List Char
  | '+' :: rest => (false, rest)
  | '-' :: rest => (true, rest)
  | cs => (false, cs)

def isDigits (cs : List Char) : Bool := !cs.isEmpty && cs.all Char.isDigit

def signed (negative : Bool) (n : Nat) : Int := if negative then -(n : Int) else n

structure IntText where
  negative : Bool
  digits : List Char

namespace IntText

def ofChars? (cs : List Char) : Option IntText :=
  let (negative, digits) := splitSign cs
  if isDigits digits then some ⟨negative, digits⟩ else none

def significant (t : IntText) : List Char := t.digits.dropWhile (· = '0')

def value (t : IntText) : Int := signed t.negative (Nat.ofDigitChars 10 t.digits 0)

end IntText

/-! ## Words -/

/-- A character that stands for a lower case letter in either case.  Two letters of other alphabets
fold to `i` as well. -/
def foldsTo (letter c : Char) : Bool :=
  c.toLower = letter || (letter = 'i' && (c = '\u0130' || c = '\u0131'))

def foldsToWord : List Char → List Char → Bool
  | [], [] => true
  | letter :: word, c :: cs => foldsTo letter c && foldsToWord word cs
  | _, _ => false

inductive FloatWord where
  | infinite
  | notANumber
  deriving DecidableEq, Repr

def FloatWord.ofChars? (cs : List Char) : Option FloatWord :=
  if foldsToWord "inf".toList cs || foldsToWord "infinity".toList cs then some infinite
  else if foldsToWord "nan".toList cs then some notANumber
  else none

def FloatWord.toFloat (negative : Bool) : FloatWord → Float
  | infinite => infinity negative
  | notANumber => nan

/-! ## Decimal notation -/

/-- The exponent part, which may be missing. -/
def readExponent? : List Char → Option Int
  | [] => some 0
  | c :: rest => if c = 'e' || c = 'E' then (IntText.ofChars? rest).map IntText.value else none

/-- Digits may be missing on one side of the point but not on both. -/
def readDecimal? (cs : List Char) : Option Decimal :=
  let whole := cs.takeWhile Char.isDigit
  let (fraction, rest) := match cs.dropWhile Char.isDigit with
    | '.' :: more => (more.takeWhile Char.isDigit, more.dropWhile Char.isDigit)
    | more => ([], more)
  if whole.isEmpty && fraction.isEmpty then none
  else (readExponent? rest).map (Decimal.ofDigits whole fraction)

inductive FloatText where
  | decimal (negative : Bool) (value : Decimal)
  | word (negative : Bool) (word : FloatWord)
  /-- A word with a letter that only folds to ASCII: it passes as float text but has no value. -/
  | foreignWord

def FloatText.ofChars? (cs : List Char) : Option FloatText :=
  let (negative, body) := splitSign cs
  match FloatWord.ofChars? body with
  | some w => some (if body.all (·.toNat < 128) then .word negative w else .foreignWord)
  | none => (readDecimal? body).map (.decimal negative)

end ExScript.Number
