import ExScript.Node.Parser
import ExScript.Node.Printer
import ExScript.Token.Lexer

/-!
# Reading source texts

The way from a text to a program and, with the printer, back to normalised text.
-/

namespace ExScript

inductive SourceError where
  | lex (error : LexError)
  | parse (error : ParseError)
  deriving DecidableEq, Repr

namespace SourceError

def message : SourceError → String
  | lex e => e.message
  | parse e => e.message

def pos : SourceError → Pos
  | lex e => e.pos
  | parse e => e.pos

end SourceError

def parse (source : String) : Except SourceError Program := do
  let tokens ← (tokenize source).mapError .lex
  (parseTokens tokens).mapError .parse

end ExScript
