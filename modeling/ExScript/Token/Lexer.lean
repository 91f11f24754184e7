import ExScript.Text.WordChar
import ExScript.Token

/-!
# From source text to tokens

`scan` decides which lexeme begins at a character and how many further characters belong to it.
`tokenizeFrom` walks over the text once and passes over the characters of the last lexeme, so that
the column of every token is the number of characters of its line up to it.  Every line ends with a
newline token, the last one included.
-/

namespace ExScript

inductive LexFault where
  | intRange
  | floatRange
  | unterminatedString
  | unexpected (c : Char)
  deriving DecidableEq, Repr

def LexFault.message : LexFault → String
  | intRange => "integer literal out of range"
  | floatRange => "float literal out of range"
  | unterminatedString => "unterminated string literal"
  | unexpected c => String.join ["unexpected character: ", Text.quoted (String.singleton c)]

structure LexError where
  fault : LexFault
  pos : Pos
  deriving DecidableEq, Repr

def LexError.message (e : LexError) : String := e.fault.message ++ e.pos.suffix

namespace Lexer

/-- What begins at a character.  `extra` counts the characters after the first one. -/
inductive Scan where
  | skip (extra : Nat)
  | found (lexeme : Lexeme) (extra : Nat)
  | fault (fault : LexFault)
  deriving DecidableEq, Repr

/-- The largest integer literal: its negation is the least integer. -/
def maxIntLiteral : Nat := 9223372036854775808

def isSpace (c : Char) : Bool := c = ' ' || c = '\t' || c = '\r'

/-- The digits after a point that follows a run of digits.  A point without digits stands apart. -/
def fractionDigits : List Char → List Char
  | '.' :: rest => rest.takeWhile Char.isDigit
  | _ => []

def scanInt (digits : List Char) : Scan :=
  let value := Nat.ofDigitChars 10 digits 0
  if maxIntLiteral < value then .fault .intRange else .found (.int value) (digits.length - 1)

def scanFloat (whole fraction : List Char) : Scan :=
  let value := Number.Decimal.ofDigits whole fraction 0
  if value.bits = Number.infinityBits then .fault .floatRange
  else .found (.float (value.toFloat false)) (whole.length + fraction.length)

def scanNumber (first : Char) (rest : List Char) : Scan :=
  let whole := first :: rest.takeWhile Char.isDigit
  match fractionDigits (rest.dropWhile Char.isDigit) with
  | [] => scanInt whole
  | fraction => scanFloat whole fraction

/-- A string reaches to the next quote on the same line; nothing in it is escaped. -/
def scanString (rest : List Char) : Scan :=
  let body := rest.takeWhile fun c => c != '\x22' && c != '\n'
  match rest.drop body.length with
  | '\x22' :: _ => .found (.string (String.ofList body)) (body.length + 1)
  | _ => .fault .unterminatedString

def wordLexeme (word : String) : Lexeme :=
  match Keyword.ofText? word with
  | some k => .ofMark (.keyword k)
  | none => .name word

def scanWord (first : Char) (rest : List Char) : Scan :=
  let more := rest.takeWhile Text.isWordChar
  .found (wordLexeme (String.ofList (first :: more))) more.length

def scanComment (rest : List Char) : Scan := .skip (rest.takeWhile (· != '\n')).length

/-- The rules in order of precedence; a symbol of two characters comes before one of a single
character. -/
def scan (c : Char) (rest : List Char) : Scan :=
  if isSpace c then .skip 0
  else if c = '#' then scanComment rest
  else match Symbol.ofPair? c rest.head?, Symbol.ofChar? c with
    | some s, _ => .found (.ofMark (.symbol s)) 1
    | none, some s => .found (.ofMark (.symbol s)) 0
    | none, none =>
      if c.isDigit then scanNumber c rest
      else if c = '\x22' then scanString rest
      else if Text.isWordChar c then scanWord c rest
      else .fault (.unexpected c)

/-- Reads on from a position with `extra` characters still to pass over.  The tokens found so far
come last first. -/
def tokenizeFrom (line col extra : Nat) : List Char → List Token → Except LexError (List Token)
  | [], found => .ok (⟨.ofMark .newline, line, col⟩ :: found).reverse
  | c :: rest, found =>
    match extra with
    | extra + 1 => tokenizeFrom line (col + 1) extra rest found
    | 0 =>
      if c = '\n' then tokenizeFrom (line + 1) 1 0 rest (⟨.ofMark .newline, line, col⟩ :: found)
      else match scan c rest with
        | .skip extra => tokenizeFrom line (col + 1) extra rest found
        | .found lexeme extra =>
          tokenizeFrom line (col + 1) extra rest (⟨lexeme, line, col⟩ :: found)
        | .fault fault => .error ⟨fault, line, col⟩

end Lexer

def tokenize (source : String) : Except LexError (List Token) :=
  Lexer.tokenizeFrom 1 1 0 source.toList []

end ExScript
