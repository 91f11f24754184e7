import ExScript.Number.FloatText
import ExScript.Pos
import ExScript.Text.Quoted

/-!
# Tokens

A token is a lexeme at a position.  Literals and names carry what was read.  Everything else is a
mark (a symbol, a keyword, the end of a line or of the input) together with its text.
-/

namespace ExScript

inductive Symbol where
  | equal | notEqual | atLeast | atMost | greater | less
  | plus | minus | star | slash
  | assign | dot | comma
  | openParen | closeParen | openBrace | closeBrace | openBracket | closeBracket
  deriving DecidableEq, Repr

namespace Symbol

def text : Symbol → String
  | equal => "==" | notEqual => "!=" | atLeast => ">=" | atMost => "<="
  | greater => ">" | less => "<"
  | plus => "+" | minus => "-" | star => "*" | slash => "/"
  | assign => "=" | dot => "." | comma => ","
  | openParen => "(" | closeParen => ")"
  | openBrace => "\x7b" | closeBrace => "\x7d"
  | openBracket => "[" | closeBracket => "]"

def all : List Symbol :=
  [equal, notEqual, atLeast, atMost, greater, less, plus, minus, star, slash, assign, dot, comma,
    openParen, closeParen, openBrace, closeBrace, openBracket, closeBracket]

def ofText? (text : String) : Option Symbol := all.find? (·.text = text)

/-- Symbols of one character. -/
def ofChar? : Char → Option Symbol
  | '>' => some greater | '<' => some less
  | '+' => some plus | '-' => some minus | '*' => some star | '/' => some slash
  | '=' => some assign | '.' => some dot | ',' => some comma
  | '(' => some openParen | ')' => some closeParen
  | '\x7b' => some openBrace | '\x7d' => some closeBrace
  | '[' => some openBracket | ']' => some closeBracket
  | _ => none

/-- Symbols of two characters; the second one is always the equality sign. -/
def ofPair? : Char → Option Char → Option Symbol
  | '=', some '=' => some equal
  | '!', some '=' => some notEqual
  | '>', some '=' => some atLeast
  | '<', some '=' => some atMost
  | _, _ => none

end Symbol

inductive Keyword where
  | elseWord | falseWord | fnWord | forWord | ifWord | inWord | returnWord | trueWord | whileWord
  deriving DecidableEq, Repr

namespace Keyword

def text : Keyword → String
  | elseWord => "else" | falseWord => "false" | fnWord => "fn" | forWord => "for" | ifWord => "if"
  | inWord => "in" | returnWord => "return" | trueWord => "true" | whileWord => "while"

def all : List Keyword :=
  [elseWord, falseWord, fnWord, forWord, ifWord, inWord, returnWord, trueWord, whileWord]

def ofText? (text : String) : Option Keyword := all.find? (·.text = text)

end Keyword

/-- Kinds of tokens that are told apart by their kind alone. -/
inductive Mark where
  | symbol (symbol : Symbol)
  | keyword (keyword : Keyword)
  | newline
  | endOfInput
  /-- A mark that no grammar rule mentions. -/
  | other (text : String)
  deriving DecidableEq, Repr

namespace Mark

def kindText : Mark → String
  | symbol s => s.text
  | keyword k => k.text
  | newline => "NEWLINE"
  | endOfInput => "EOF"
  | other text => text

/-- The text of a mark as it is read from a source. -/
def spelling : Mark → String
  | newline => "\n"
  | endOfInput => ""
  | mark => mark.kindText

end Mark

inductive Kind where
  | int | float | string | name
  | mark (mark : Mark)
  deriving DecidableEq, Repr

namespace Kind

def ofText (text : String) : Kind :=
  match text with
  | "INT" => int
  | "FLOAT" => float
  | "STRING" => string
  | "NAME" => name
  | "NEWLINE" => mark .newline
  | "EOF" => mark .endOfInput
  | _ =>
    match Symbol.ofText? text, Keyword.ofText? text with
    | some s, _ => mark (.symbol s)
    | none, some k => mark (.keyword k)
    | none, none => mark (.other text)

def text : Kind → String
  | int => "INT"
  | float => "FLOAT"
  | string => "STRING"
  | name => "NAME"
  | mark m => m.kindText

/-- How error messages name a kind. -/
def describe : Kind → String
  | int => "integer literal"
  | float => "float literal"
  | string => "string literal"
  | name => "name"
  | mark .newline => "end of line"
  | mark m => String.join ["'", m.kindText, "'"]

end Kind

inductive Lexeme where
  | int (value : Int)
  | float (value : Float)
  | string (text : String)
  | name (text : String)
  | mark (mark : Mark) (text : String)
  deriving DecidableEq, Repr

namespace Lexeme

/-- A mark as it is read from a source. -/
def ofMark (m : Mark) : Lexeme := mark m m.spelling

def kind : Lexeme → Kind
  | int _ => .int
  | float _ => .float
  | string _ => .string
  | name _ => .name
  | mark m _ => .mark m

def payloadText : Lexeme → String
  | int value => toString value
  | float value => Number.exponentText value
  | string text | name text | mark _ text => Text.quoted text

/-- Equality of kind and payload.  Floats compare as numbers, so that one which is no number differs
from itself. -/
def same : Lexeme → Lexeme → Bool
  | float x, float y => x == y
  | l, m => l = m

end Lexeme

structure Token where
  lexeme : Lexeme
  pos : Pos
  deriving DecidableEq, Repr

namespace Token

def kind (t : Token) : Kind := t.lexeme.kind

/-- The token with its position, for inspection. -/
def inspect (t : Token) : String :=
  String.join ["Token(", t.kind.text, ", ", t.lexeme.payloadText, ", ", toString t.pos.line, ", ",
    toString t.pos.col, ")"]

/-- A line of a token listing. -/
def listing (t : Token) : String :=
  String.join [toString t.pos.line, ":", toString t.pos.col, "\t", t.kind.text, "\t",
    t.lexeme.payloadText]

end Token

end ExScript
